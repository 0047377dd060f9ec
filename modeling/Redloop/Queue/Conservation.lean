/-
# Conservation of jobs

No operation loses or duplicates a job. The known jobs change only by the job an
enqueue adds and by the jobs that a cancel, an ack, a force_ack or a purge
removes, and everything else about a job changes only by operations aimed at it,
by the reserve that returns it or by the reap that takes it back.
-/

import Redloop.Queue.Placement

namespace Redloop

namespace Op

/-- The job an enqueue adds. -/
def Adds (op : Op) (reply : Reply) (jobId : Bytes) : Prop :=
  match op with
  | enqueue request _ => jobId = request.jobId ∧ reply.isOk
  | _ => False

/-- The jobs an operation removes from the known jobs: a cancelled job, an acked
job without a rerun marker, and the failed jobs a purge deletes. -/
def Removes (op : Op) (s : Store) (jobId : Bytes) : Prop :=
  match op with
  | operator .cancel target _ => jobId = target ∧ (s.reply op).isOk
  | operator .forceAck target _ => jobId = target ∧ (s.reply op).isOk ∧ jobId ∉ s.rerun
  | ack _ target _ _ => jobId = target ∧ (s.reply op).isOk ∧ jobId ∉ s.rerun
  | purgeFailedDelete jobIds => jobId ∈ jobIds ∧ (s.failed.score jobId).isSome
  | _ => False

end Op

variable {s : Store} {jobs : Bytes → Job}

/-- The rerun markers of a refined store are those of its leases. -/
theorem Refines.mem_rerun_iff (hrefines : Refines s jobs) (jobId : Bytes) :
    jobId ∈ s.rerun ↔
      ∃ deadline workerId leaseToken,
        (jobs jobId).placement = .leased deadline workerId leaseToken true := by
  have hrerun := congrArg Slot.rerun (hrefines.slot_eq jobId)
  cases hplacement : (jobs jobId).placement with
  | leased deadline workerId leaseToken rerun =>
      simp only [Store.slot, Job.toSlot, hplacement] at hrerun
      simp [← hrerun]
  | _ => simp_all [Store.slot, Job.toSlot]

/-- The failed jobs of a refined store. -/
theorem Refines.failed_isSome_iff (hrefines : Refines s jobs) (jobId : Bytes) :
    (s.failed.score jobId).isSome ↔ ∃ score, (jobs jobId).placement = .failed score := by
  have hslot := hrefines.slot_eq jobId
  cases hplacement : (jobs jobId).placement <;>
    simp_all [Slot.ext_iff, Store.slot, Job.toSlot]

namespace Job

/-! ## Which transitions keep a job placed -/

variable {job job' : Job}

theorem IsWaiting.isPlaced (hwaiting : job.IsWaiting) : job.IsPlaced := by
  intro habsent
  simp [IsWaiting, habsent] at hwaiting

theorem isPlaced_target (target : Target) (failures : Option ℤ) :
    IsPlaced ⟨target.placement, failures⟩ := by
  rcases target.placement_cases with heq | heq <;> simp [IsPlaced, heq]

theorem isPlaced_replaceWaiting (hplaced : job.IsPlaced) (target : Target) (mode : ReplaceMode)
    (score : ℤ) : (job.replaceWaiting target mode score).IsPlaced := by
  unfold replaceWaiting
  split_ifs
  · exact hplaced
  · exact isPlaced_target target _

theorem isPlaced_enqueueImmediate (nowUs : ℤ) : (job.enqueueImmediate nowUs).IsPlaced := by
  unfold enqueueImmediate
  split <;> simp_all [IsPlaced, moveTo]

theorem isPlaced_enqueueScheduled {target : Target} {mode : ReplaceMode}
    (houtcome : job.enqueueScheduled target mode = some job') : job'.IsPlaced := by
  unfold enqueueScheduled at houtcome
  split at houtcome <;> cases houtcome
  · exact isPlaced_target target _
  · exact isPlaced_replaceWaiting (by simp_all [IsPlaced]) target mode _
  · exact isPlaced_replaceWaiting (by simp_all [IsPlaced]) target mode _
  · exact isPlaced_target target _

theorem isPlaced_reschedule {target : Target} {mode : ReplaceMode}
    (houtcome : job.reschedule target mode = some job') : job'.IsPlaced ∧ job.IsPlaced := by
  have hplaced : job.IsPlaced := by
    intro habsent
    rw [reschedule, habsent] at houtcome
    cases houtcome
  refine ⟨?_, hplaced⟩
  unfold reschedule at houtcome
  split at houtcome <;> cases houtcome
  · exact isPlaced_replaceWaiting hplaced target mode _
  · exact isPlaced_replaceWaiting hplaced target mode _

end Job

namespace Op

variable {op : Op} {job job' : Job}

/-- Whether an operation on a single job, run on that job, removes it. -/
def Ends (op : Op) (job : Job) : Prop :=
  match op with
  | operator .cancel _ _ => True
  | operator .forceAck _ _ | ack _ _ _ _ =>
      ∀ deadline workerId leaseToken,
        job.placement ≠ .leased deadline workerId leaseToken true
  | _ => False

/-- A transition leaves the job placed unless the operation ends it. -/
theorem isPlaced_of_outcome (houtcome : op.outcome job = some job') :
    job'.IsPlaced ↔ ¬ op.Ends job := by
  cases op with
  | enqueue request now =>
      refine iff_of_true ?_ not_false
      rcases outcome_enqueue_cases houtcome with ⟨_, rfl⟩ | ⟨_, _, hscheduled⟩
      · exact Job.isPlaced_enqueueImmediate _
      · exact Job.isPlaced_enqueueScheduled hscheduled
  | reschedule jobId scheduleAt now =>
      exact iff_of_true (Job.isPlaced_reschedule houtcome).1 not_false
  | operator op jobId now =>
      obtain ⟨placement, failures⟩ := job
      cases op <;> cases placement <;>
        simp_all [outcome, Job.operator, Ends, Job.IsPlaced, Job.moveTo, Job.absent] <;>
        cases houtcome <;> simp_all
  | heartbeat workerId jobId leaseToken now leaseDuration =>
      obtain ⟨_, _, _, rfl⟩ := Job.asHolder_eq_some_iff.mp houtcome
      exact iff_of_true (by simp [Job.IsPlaced, Job.moveTo]) not_false
  | ack workerId jobId leaseToken now =>
      obtain ⟨_, rerun, hplacement, rfl⟩ := Job.asHolder_eq_some_iff.mp houtcome
      cases rerun <;> simp [Job.IsPlaced, Ends, hplacement]
  | completeAndReschedule workerId jobId leaseToken scheduleAt now =>
      obtain ⟨_, rerun, _, rfl⟩ := Job.asHolder_eq_some_iff.mp houtcome
      refine iff_of_true ?_ not_false
      cases rerun with
      | true => simp [Job.IsPlaced]
      | false => exact Job.isPlaced_target _ _
  | failOrRetry request =>
      obtain ⟨_, _, _, rfl⟩ := Job.asHolder_eq_some_iff.mp houtcome
      refine iff_of_true ?_ not_false
      rcases Job.failurePlacement_cases request.action (failureArgs request.retryPolicy)
        (Double.ofInt (micros request.now)) (Double.ofInt job.countFailure) with
        heq | heq | ⟨_, heq⟩ <;> simp [Job.IsPlaced, heq]
  | _ => cases houtcome

/-- Only an enqueue succeeds on an absent job. -/
theorem isPlaced_or_enqueue_of_outcome (houtcome : op.outcome job = some job') :
    job.IsPlaced ∨ ∃ request now, op = enqueue request now := by
  cases op with
  | enqueue request now => exact Or.inr ⟨request, now, rfl⟩
  | reschedule jobId scheduleAt now => exact Or.inl (Job.isPlaced_reschedule houtcome).2
  | operator op jobId now =>
      left
      intro habsent
      cases op <;> simp [outcome, Job.operator, habsent] at houtcome
  | heartbeat | ack | completeAndReschedule | failOrRetry =>
      obtain ⟨_, _, hplacement, _⟩ := Job.asHolder_eq_some_iff.mp houtcome
      exact Or.inl (by simp [Job.IsPlaced, hplacement])
  | _ => cases houtcome

/-- An answered operation on a single job removes that job exactly when it ends it. -/
theorem removes_iff_ends (hrefines : Refines s jobs) {jobId : Bytes}
    (htarget : op.target = some jobId) (hok : (s.reply op).isOk) :
    op.Removes s jobId ↔ op.Ends (jobs jobId) := by
  have hrerun := hrefines.mem_rerun_iff jobId
  cases op with
  | operator op operated now => cases op <;> simp_all [Removes, Ends, Op.target]
  | _ => simp_all [Removes, Ends, Op.target]

end Op

namespace Store

/-- An operation on a single job changes the known jobs by that job at most. -/
theorem known_next_iff_of_target (hrefines : Refines s jobs) {op : Op} {target : Bytes}
    (htarget : op.target = some target) (jobId : Bytes) :
    (s.next op).Known jobId ↔
      op.Adds (s.reply op) jobId ∨ (s.Known jobId ∧ ¬ op.Removes s jobId) := by
  obtain ⟨jobs', hrefines', hstep⟩ := exec_refines hrefines op
  have hjob := (jobStep_of_target htarget).mp (hstep jobId)
  rw [known_iff (hrefines'.slot_eq jobId), known_iff (hrefines.slot_eq jobId)]
  split_ifs at hjob with hsame
  · subst hsame
    obtain ⟨hjob', hok⟩ := hjob
    rw [hjob']
    cases houtcome : op.outcome (jobs jobId) with
    | none =>
        rw [houtcome] at hok
        have hadds : ¬ op.Adds (s.reply op) jobId := by
          cases op <;> simp_all [Op.Adds]
        have hremoves : ¬ op.Removes s jobId := by
          cases op with
          | operator op operated now => cases op <;> simp_all [Op.Removes]
          | _ => simp_all [Op.Removes, Op.target]
        simp [hadds, hremoves]
    | some next =>
        rw [houtcome] at hok
        have hremoves := Op.removes_iff_ends hrefines htarget hok
        have hplaced := Op.isPlaced_of_outcome houtcome
        rcases Op.isPlaced_or_enqueue_of_outcome houtcome with hbefore | ⟨request, now, rfl⟩
        · have hadds : op.Adds (s.reply op) jobId → ¬ op.Ends (jobs jobId) := by
            cases op <;> simp [Op.Adds, Op.Ends]
          simp only [Option.getD_some]
          tauto
        · have hadds : (Op.enqueue request now).Adds (s.reply (.enqueue request now)) jobId :=
            ⟨(Option.some.inj htarget).symm, hok⟩
          exact iff_of_true (hplaced.mpr not_false) (Or.inl hadds)
  · have hadds : ¬ op.Adds (s.reply op) jobId := by
      cases op <;> simp_all [Op.Adds, Op.target]
    have hremoves : ¬ op.Removes s jobId := by
      cases op with
      | operator op operated now => cases op <;> simp_all [Op.Removes, Op.target]
      | _ => simp_all [Op.Removes, Op.target]
    simp [hjob, hadds, hremoves]

/-- Every operation changes the known jobs as announced. -/
theorem known_next_iff (hrefines : Refines s jobs) {op : Op} (htokens : op.HasTokens)
    (jobId : Bytes) :
    (s.next op).Known jobId ↔
      op.Adds (s.reply op) jobId ∨ (s.Known jobId ∧ ¬ op.Removes s jobId) := by
  by_cases htarget : ∃ target, op.target = some target
  · obtain ⟨target, htarget⟩ := htarget
    exact known_next_iff_of_target hrefines htarget jobId
  · obtain ⟨jobs', hrefines', hstep⟩ := exec_refines hrefines op
    have hremoves (hnone : ∀ jobIds, op ≠ .purgeFailedDelete jobIds) : ¬ op.Removes s jobId := by
      cases op with
      | operator op operated now => exact absurd ⟨_, rfl⟩ htarget
      | ack workerId acked leaseToken now => exact absurd ⟨_, rfl⟩ htarget
      | purgeFailedDelete jobIds => exact absurd rfl (hnone jobIds)
      | _ => exact not_false
    have hadds : ¬ op.Adds (s.reply op) jobId := by
      cases op with
      | enqueue request now => exact absurd ⟨_, rfl⟩ htarget
      | _ => exact not_false
    rw [known_iff (hrefines'.slot_eq jobId), known_iff (hrefines.slot_eq jobId)]
    cases (hstep jobId).change with
    | kept hkept =>
        -- a purge that keeps a job does not remove it
        have hnotRemoved : ¬ ((jobs jobId).IsPlaced ∧ op.Removes s jobId) := by
          rintro ⟨hplaced, hremoved⟩
          cases op with
          | purgeFailedDelete jobIds =>
              obtain ⟨hmem, hfailed⟩ := hremoved
              obtain ⟨score, hplacement⟩ := (hrefines.failed_isSome_iff jobId).mp hfailed
              have hpurged : jobs' jobId = (jobs jobId).purge := (hstep jobId).trans (if_pos hmem)
              rw [hkept] at hpurged
              have hplaced' := congrArg Job.placement hpurged
              simp [Job.purge, hplacement, Job.absent] at hplaced'
          | _ => exact hremoves (by simp) hremoved
        rw [hkept]
        tauto
    | transition htarget' _ _ => exact absurd ⟨_, htarget'⟩ htarget
    | leased hwaiting _ _ hleased =>
        have hbefore : (jobs jobId).IsPlaced := hwaiting.isPlaced
        have hafter : (jobs' jobId).IsPlaced := by
          rw [hleased]
          simp [Job.IsPlaced, Job.lease, Job.moveTo]
        have hremoved := hremoves (by simp)
        tauto
    | lost _ hshort _ => exact absurd htokens (not_le.mpr hshort)
    | reaped hreap =>
        obtain ⟨_, _, _, _, hplacement, _, hreaped⟩ := Job.reap_eq_some_iff.mp hreap
        have hbefore : (jobs jobId).IsPlaced := by simp [Job.IsPlaced, hplacement]
        have hafter : (jobs' jobId).IsPlaced := by
          rw [hreaped]
          simp [Job.IsPlaced, Job.moveTo]
        have hremoved := hremoves (by simp)
        tauto
    | @purged jobIds hmem hpurged =>
        have hremoved : (Op.purgeFailedDelete jobIds).Removes s jobId ↔
            ∃ score, (jobs jobId).placement = .failed score := by
          rw [← hrefines.failed_isSome_iff]
          exact and_iff_right hmem
        rw [hremoved, hpurged]
        simp only [hadds, false_or]
        cases hplacement : (jobs jobId).placement <;>
          simp [Job.IsPlaced, Job.purge, Job.absent, hplacement]

/-! ## What an operation leaves alone -/

/-- Jobs that are equal have equal slots. -/
theorem slot_eq_of_refines {s' : Store} {jobs' : Bytes → Job} (hrefines : Refines s jobs)
    (hrefines' : Refines s' jobs') {jobId : Bytes} (hsame : jobs' jobId = jobs jobId) :
    s'.slot jobId = s.slot jobId := by
  rw [hrefines'.slot_eq, hrefines.slot_eq, hsame]

/-- An operation on a single job leaves the other jobs alone. -/
theorem slot_next_of_ne_target (hrefines : Refines s jobs) {op : Op} {target : Bytes}
    (htarget : op.target = some target) {jobId : Bytes} (hne : jobId ≠ target) :
    (s.next op).slot jobId = s.slot jobId := by
  obtain ⟨jobs', hrefines', hstep⟩ := exec_refines hrefines op
  have hjob := (jobStep_of_target htarget).mp (hstep jobId)
  rw [if_neg hne] at hjob
  exact slot_eq_of_refines hrefines hrefines' hjob

/-- A reserve with enough tokens leaves the jobs alone that it does not return. -/
theorem slot_next_reserve (hrefines : Refines s jobs) {config : WorkerConfig}
    {availableCapacity : ℕ} {now : Timestamp} {leaseTokens : List Bytes}
    (htokens : availableCapacity ≤ leaseTokens.length) {jobId : Bytes}
    (hnone : ∀ token, (jobId, token) ∉
      (s.reply (.reserve config availableCapacity now leaseTokens)).leases) :
    (s.next (.reserve config availableCapacity now leaseTokens)).slot jobId = s.slot jobId := by
  obtain ⟨jobs', hrefines', hstep⟩ :=
    exec_refines hrefines (.reserve config availableCapacity now leaseTokens)
  refine slot_eq_of_refines hrefines hrefines' ?_
  rcases hstep jobId with ⟨hkept, _⟩ | ⟨_, token, _, hlease, _⟩ | ⟨_, _, _, hshort⟩
  · exact hkept
  · exact absurd hlease (hnone token)
  · exact absurd htokens (not_le.mpr hshort)

/-- A reap counts the expired leases it takes back and leaves the other jobs alone. -/
theorem slot_next_reapExpired (hrefines : Refines s jobs) (now : Timestamp) (limit : ℕ) :
    ∃ reaped : List Bytes, reaped.Nodup ∧
      s.reply (.reapExpired now limit) = [utf8 "ok", generalText 14 reaped.length] ∧
      (∀ jobId ∉ reaped, (s.next (.reapExpired now limit)).slot jobId = s.slot jobId) ∧
      ∀ jobId ∈ reaped, ∃ deadline, s.leased.score jobId = some deadline ∧
        deadline ≤ Double.ofInt (micros now) ∧
          (s.next (.reapExpired now limit)).ready.score jobId =
            some (Double.ofInt (micros now)) := by
  by_cases hlimit : limit = 0
  · refine ⟨[], List.nodup_nil, ?_, fun jobId _ => ?_, by simp⟩
    · have hcount : generalText 14 0 = utf8 "0" := by decide
      simp [reply, exec, hlimit, hcount]
    · simp [next, exec, hlimit]
  · obtain ⟨jobs', reaped, hrun, hrefines', hreply⟩ :=
      reapExpired_refines hrefines (micros now) limit
    have hexec : s.exec (.reapExpired now limit) = s.reapExpired (micros now) limit :=
      if_neg hlimit
    rw [next, reply, hexec]
    refine ⟨reaped, hrun.nodup, hreply, fun jobId hnot => ?_, fun jobId hmem => ?_⟩
    · rcases hrun.jobStep jobId with ⟨_, hkept⟩ | ⟨hmem, _⟩
      · exact slot_eq_of_refines hrefines hrefines' hkept
      · exact absurd hmem hnot
    · rcases hrun.jobStep jobId with ⟨hnot, _⟩ | ⟨_, hreap⟩
      · exact absurd hmem hnot
      · obtain ⟨deadline, _, _, _, hplacement, hexpired, hjob⟩ := Job.reap_eq_some_iff.mp hreap
        have hslot := hrefines.slot_eq jobId
        have hslot' := hrefines'.slot_eq jobId
        refine ⟨deadline, ?_, hexpired, ?_⟩
        · simp_all [Slot.ext_iff, slot, Job.toSlot]
        · simp_all [Slot.ext_iff, slot, Job.toSlot, Job.moveTo]

/-- A purge leaves the jobs alone that it does not select. -/
theorem slot_next_purgeFailedDelete (hrefines : Refines s jobs) {jobIds : List Bytes}
    {jobId : Bytes} (hnot : jobId ∉ jobIds) :
    (s.next (.purgeFailedDelete jobIds)).slot jobId = s.slot jobId := by
  have hrefines' := purgeFailedDelete_refines hrefines jobIds
  exact slot_eq_of_refines hrefines hrefines' (if_neg hnot)

/-- In every reachable store, an operation changes the known jobs as announced and
leaves the jobs alone that it is not aimed at, does not return and does not reap. -/
theorem known_and_frame_of_run {ops : List Op} (hops : ∀ op ∈ ops, op.HasTokens) {op : Op}
    (htokens : op.HasTokens) :
    (∀ jobId, ((empty.run ops).next op).Known jobId ↔
      op.Adds ((empty.run ops).reply op) jobId ∨
        ((empty.run ops).Known jobId ∧ ¬ op.Removes (empty.run ops) jobId)) ∧
    (∀ target, op.target = some target → ∀ jobId, jobId ≠ target →
      ((empty.run ops).next op).slot jobId = (empty.run ops).slot jobId) ∧
    (∀ config availableCapacity now leaseTokens,
      op = .reserve config availableCapacity now leaseTokens →
        ∀ jobId, (∀ token, (jobId, token) ∉ ((empty.run ops).reply op).leases) →
          ((empty.run ops).next op).slot jobId = (empty.run ops).slot jobId) ∧
    (∀ now limit, op = .reapExpired now limit → ∃ reaped : List Bytes, reaped.Nodup ∧
      (empty.run ops).reply op = [utf8 "ok", generalText 14 reaped.length] ∧
      (∀ jobId ∉ reaped, ((empty.run ops).next op).slot jobId = (empty.run ops).slot jobId) ∧
      ∀ jobId ∈ reaped, ∃ deadline, (empty.run ops).leased.score jobId = some deadline ∧
        deadline ≤ Double.ofInt (micros now) ∧
          ((empty.run ops).next op).ready.score jobId = some (Double.ofInt (micros now))) ∧
    (∀ jobIds, op = .purgeFailedDelete jobIds → ∀ jobId ∉ jobIds,
      ((empty.run ops).next op).slot jobId = (empty.run ops).slot jobId) := by
  obtain ⟨jobs, hrefines, _⟩ := storesWf_run hops
  refine ⟨known_next_iff hrefines htokens, ?_, ?_, ?_, ?_⟩
  · intro target htarget jobId hne
    exact slot_next_of_ne_target hrefines htarget hne
  · rintro config availableCapacity now leaseTokens rfl jobId hnone
    exact slot_next_reserve hrefines htokens hnone
  · rintro now limit rfl
    exact slot_next_reapExpired hrefines now limit
  · rintro jobIds rfl jobId hnot
    exact slot_next_purgeFailedDelete hrefines hnot

/-- An ack removes the job of the sample lease. -/
theorem known_and_frame_of_run_sample :
    ((empty.run sampleLeaseRun).next sampleAck).Known "job" ↔
      sampleAck.Adds ((empty.run sampleLeaseRun).reply sampleAck) "job" ∨
        ((empty.run sampleLeaseRun).Known "job" ∧
          ¬ sampleAck.Removes (empty.run sampleLeaseRun) "job") :=
  (known_and_frame_of_run (by decide) (by decide)).1 "job"

end Store

end Redloop
