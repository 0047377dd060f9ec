/-
# Placement

A store reached from the empty namespace places every job at most once, keeps a
lease record for exactly the leased jobs, marks only leased jobs for a rerun and
counts failures only of placed jobs. All but the failure counts follow from the
refinement of the job machine. The failure counts rely on every reserve having a
token for each unit of capacity.
-/

import Redloop.Job.Run

namespace Redloop

namespace Op

/-- A reserve has a token for each unit of capacity, as the worker passes them. -/
def HasTokens : Op → Prop
  | reserve _ availableCapacity _ leaseTokens => availableCapacity ≤ leaseTokens.length
  | _ => True

instance (op : Op) : Decidable op.HasTokens := by
  unfold HasTokens
  split <;> infer_instance

end Op

/-! ## Failure counts -/

namespace Job

/-- The failure count fits the placement: an absent job has none, a failed job
has one, and every count is positive. -/
structure Wf (job : Job) : Prop where
  absent : job.placement = .absent → job.failures = none
  failed : ∀ score, job.placement = .failed score → job.failures.isSome
  positive : ∀ count, job.failures = some count → 1 ≤ count

/-- The absent job is well formed. -/
theorem wf_absent : Job.absent.Wf := ⟨fun _ => rfl, by simp [absent], by simp [absent]⟩

namespace Wf

variable {job job' : Job}

/-- A job without failures is well formed unless it has failed. -/
theorem of_failures_none {placement : Placement} (hfailed : ∀ score, placement ≠ .failed score) :
    Wf ⟨placement, none⟩ :=
  ⟨fun _ => rfl, fun score heq => absurd heq (hfailed score), by simp⟩

/-- An acked job is well formed. -/
theorem of_acked (rerun : Bool) (nowUs : ℤ) :
    Wf ⟨if rerun then .ready nowUs else .absent, none⟩ := by
  cases rerun <;> exact of_failures_none (by simp)

/-- A waiting or leased placement goes with any positive count. -/
theorem moveTo (hwf : job.Wf) {placement : Placement} (habsent : placement ≠ .absent)
    (hfailed : ∀ score, placement ≠ .failed score) : (job.moveTo placement).Wf :=
  ⟨fun heq => absurd heq habsent, fun score heq => absurd heq (hfailed score), hwf.positive⟩

/-- Moving to a target. -/
theorem moveTo_target (hwf : job.Wf) (target : Target) : (job.moveTo target.placement).Wf := by
  rcases target.placement_cases with heq | heq <;> rw [heq]
  · exact hwf.moveTo (by simp) (by simp)
  · exact hwf.moveTo (by simp) (by simp)

theorem replaceWaiting (hwf : job.Wf) (target : Target) (mode : ReplaceMode) (score : ℤ) :
    (job.replaceWaiting target mode score).Wf := by
  unfold Job.replaceWaiting
  split_ifs
  · exact hwf
  · exact hwf.moveTo_target target

/-- A fresh job at a target. -/
theorem of_target (target : Target) : Wf ⟨target.placement, none⟩ := by
  rcases target.placement_cases with heq | heq <;> rw [heq] <;> exact of_failures_none (by simp)

/-- One more failure gives a positive count. -/
theorem one_le_countFailure (hwf : job.Wf) : 1 ≤ job.countFailure := by
  unfold countFailure
  cases hfailures : job.failures with
  | none => simp
  | some count =>
      have hpositive := hwf.positive count hfailures
      simp only [Option.getD_some]
      omega

/-- A job that has just failed is well formed wherever it goes. -/
theorem of_countFailure (hwf : job.Wf) {placement : Placement} (habsent : placement ≠ .absent) :
    Wf ⟨placement, some job.countFailure⟩ :=
  ⟨fun heq => absurd heq habsent, fun _ _ => rfl, by simpa using hwf.one_le_countFailure⟩

theorem enqueueImmediate (hwf : job.Wf) (nowUs : ℤ) : (job.enqueueImmediate nowUs).Wf := by
  unfold Job.enqueueImmediate
  split
  · exact hwf.moveTo (by simp) (by simp)
  · exact hwf
  · exact hwf.moveTo (by simp) (by simp)
  · exact hwf.moveTo (by simp) (by simp)
  · exact of_failures_none (by simp)

theorem enqueueScheduled (hwf : job.Wf) {target : Target} {mode : ReplaceMode}
    (houtcome : job.enqueueScheduled target mode = some job') : job'.Wf := by
  unfold Job.enqueueScheduled at houtcome
  split at houtcome <;> cases houtcome
  · exact hwf.moveTo_target target
  · exact hwf.replaceWaiting target mode _
  · exact hwf.replaceWaiting target mode _
  · exact of_target target

theorem reschedule (hwf : job.Wf) {target : Target} {mode : ReplaceMode}
    (houtcome : job.reschedule target mode = some job') : job'.Wf := by
  unfold Job.reschedule at houtcome
  split at houtcome <;> cases houtcome
  · exact hwf.replaceWaiting target mode _
  · exact hwf.replaceWaiting target mode _

theorem operator (hwf : job.Wf) {op : OperatorOp} {nowUs : ℤ}
    (houtcome : job.operator op nowUs = some job') : job'.Wf := by
  unfold Job.operator at houtcome
  split at houtcome <;> cases houtcome
  all_goals
    first
    | exact wf_absent
    | exact hwf
    | exact hwf.moveTo (by simp) (by simp)
    | exact hwf.of_countFailure (by simp)
    | exact of_acked _ _
    | exact of_failures_none (by simp)

theorem failOrRetry (hwf : job.Wf) {workerId leaseToken : Bytes} {action : FailureAction}
    {args : PolicyArgs} {nowUs : ℤ}
    (houtcome : job.failOrRetry workerId leaseToken action args nowUs = some job') :
    job'.Wf := by
  obtain ⟨_, _, _, rfl⟩ := asHolder_eq_some_iff.mp houtcome
  refine hwf.of_countFailure ?_
  rcases failurePlacement_cases action args nowUs (Double.ofInt job.countFailure) with
    heq | heq | ⟨score, heq⟩ <;> simp [heq]

/-- The operations on a single job keep it well formed. -/
theorem outcome (hwf : job.Wf) {op : Op} (houtcome : op.outcome job = some job') : job'.Wf := by
  cases op with
  | enqueue request now =>
      rcases Op.outcome_enqueue_cases houtcome with ⟨_, rfl⟩ | ⟨_, _, hscheduled⟩
      · exact hwf.enqueueImmediate _
      · exact hwf.enqueueScheduled hscheduled
  | reschedule jobId scheduleAt now => exact hwf.reschedule houtcome
  | operator op jobId now => exact hwf.operator houtcome
  | heartbeat workerId jobId leaseToken now leaseDuration =>
      obtain ⟨_, _, _, rfl⟩ := asHolder_eq_some_iff.mp houtcome
      exact hwf.moveTo (by simp) (by simp)
  | ack workerId jobId leaseToken now =>
      obtain ⟨_, _, _, rfl⟩ := asHolder_eq_some_iff.mp houtcome
      exact of_acked _ _
  | completeAndReschedule workerId jobId leaseToken scheduleAt now =>
      obtain ⟨_, rerun, _, rfl⟩ := asHolder_eq_some_iff.mp houtcome
      cases rerun with
      | true => exact of_failures_none (by simp)
      | false => exact of_target _
  | failOrRetry request => exact hwf.failOrRetry houtcome
  | _ => cases houtcome

/-- Every step with enough tokens keeps a job well formed. -/
theorem jobStep (hwf : job.Wf) {op : Op} (htokens : op.HasTokens) {reply : Reply}
    {jobId : Bytes} (hstep : JobStep op reply jobId job job') : job'.Wf := by
  cases hstep.change with
  | kept hkept => rwa [hkept]
  | transition _ houtcome _ => exact hwf.outcome houtcome
  | leased _ _ _ hleased =>
      rw [hleased]
      exact hwf.moveTo (by simp) (by simp)
  | lost _ hshort => exact absurd htokens (not_le.mpr hshort)
  | reaped hreap =>
      obtain ⟨_, _, _, _, _, _, rfl⟩ := reap_eq_some_iff.mp hreap
      exact hwf.moveTo (by simp) (by simp)
  | purged _ hpurged =>
      rw [hpurged]
      unfold Job.purge
      split
      · exact wf_absent
      · next hfailed => exact of_failures_none (by simpa using hfailed)

end Wf

end Job

/-! ## Failure counts -/

@[simp]
theorem Job.failures_replaceWaiting (job : Job) (target : Target) (mode : ReplaceMode)
    (score : ℤ) : (job.replaceWaiting target mode score).failures = job.failures := by
  unfold Job.replaceWaiting
  split_ifs <;> rfl

/-- A reschedule keeps the failure count. -/
theorem Job.failures_of_reschedule {job job' : Job} {target : Target} {mode : ReplaceMode}
    (houtcome : job.reschedule target mode = some job') : job'.failures = job.failures := by
  unfold Job.reschedule at houtcome
  split at houtcome <;> cases houtcome <;> exact Job.failures_replaceWaiting _ _ _ _

/-- An enqueue clears the failures of a failed job and keeps those of any other job. -/
theorem Op.failures_of_enqueue {job job' : Job} {request : EnqueueRequest} {now : Timestamp}
    (houtcome : (Op.enqueue request now).outcome job = some job') :
    (∃ score, job.placement = .failed score) ∧ job'.failures = none ∨
      (∀ score, job.placement ≠ .failed score) ∧ job'.failures = job.failures := by
  rcases Op.outcome_enqueue_cases houtcome with ⟨nowUs, rfl⟩ | ⟨target, mode, hscheduled⟩
  · unfold Job.enqueueImmediate
    cases hplacement : job.placement with
    | failed score => exact Or.inl ⟨⟨score, rfl⟩, rfl⟩
    | _ => exact Or.inr ⟨by simp, rfl⟩
  · unfold Job.enqueueScheduled at hscheduled
    cases hplacement : job.placement with
    | failed score =>
        rw [hplacement] at hscheduled
        cases hscheduled
        exact Or.inl ⟨⟨score, rfl⟩, rfl⟩
    | leased deadline workerId leaseToken rerun =>
        rw [hplacement] at hscheduled
        cases hscheduled
    | absent =>
        rw [hplacement] at hscheduled
        cases hscheduled
        exact Or.inr ⟨by simp, rfl⟩
    | ready score | scheduled score =>
        rw [hplacement] at hscheduled
        cases hscheduled
        exact Or.inr ⟨by simp, Job.failures_replaceWaiting _ _ _ _⟩

/-! ## Well-formed stores -/

namespace Store

/-- The sets a job is in. -/
def placements (s : Store) (jobId : Bytes) : List JobState :=
  (if (s.ready.score jobId).isSome then [.ready] else []) ++
    (if (s.scheduled.score jobId).isSome then [.scheduled] else []) ++
    (if (s.leased.score jobId).isSome then [.leased] else []) ++
    (if (s.failed.score jobId).isSome then [.failed] else [])

/-- What holds of the structures of a namespace between operations. -/
structure WellFormed (s : Store) : Prop where
  /-- Every job is in at most one set. -/
  single_placement : ∀ jobId, (s.placements jobId).length ≤ 1
  /-- The lease records are those of the leased jobs. -/
  leaseMeta_iff : ∀ jobId, (s.leaseMeta.lookup jobId).isSome ↔ (s.leased.score jobId).isSome
  /-- Every lease record packs a worker id and a token. -/
  leaseMeta_packed : ∀ jobId record, s.leaseMeta.lookup jobId = some record →
    ∃ workerId leaseToken, record = packMeta workerId leaseToken
  /-- Only leased jobs are marked for a rerun. -/
  rerun_leased : ∀ jobId ∈ s.rerun, (s.leased.score jobId).isSome
  /-- Only placed jobs have a failure count. -/
  failures_known : ∀ jobId, (s.failures.lookup jobId).isSome → s.Known jobId
  /-- Every failed job has failed at least once. -/
  failed_failures : ∀ jobId, (s.failed.score jobId).isSome →
    ∃ count, s.failures.lookup jobId = some count ∧ 1 ≤ count

/-- A store that refines well-formed jobs is well formed. -/
theorem wellFormed_of_refines {s : Store} {jobs : Bytes → Job} (hrefines : Refines s jobs)
    (hwf : ∀ jobId, (jobs jobId).Wf) : s.WellFormed where
  single_placement jobId := by
    have hslot := hrefines.slot_eq jobId
    cases hplacement : (jobs jobId).placement <;>
      simp_all [Slot.ext_iff, slot, Job.toSlot, placements]
  leaseMeta_iff jobId := by
    have hslot := hrefines.slot_eq jobId
    cases hplacement : (jobs jobId).placement <;>
      simp_all [Slot.ext_iff, slot, Job.toSlot]
  leaseMeta_packed jobId record hrecord := by
    have hslot := hrefines.slot_eq jobId
    cases hplacement : (jobs jobId).placement with
    | leased deadline workerId leaseToken rerun =>
        refine ⟨workerId, leaseToken, ?_⟩
        simp_all [Slot.ext_iff, slot, Job.toSlot]
    | _ => simp_all [Slot.ext_iff, slot, Job.toSlot]
  rerun_leased jobId hmarked := by
    have hslot := hrefines.slot_eq jobId
    cases hplacement : (jobs jobId).placement <;>
      simp_all [Slot.ext_iff, slot, Job.toSlot]
  failures_known jobId hfailures := by
    have hslot := congrArg Slot.failures (hrefines.slot_eq jobId)
    rw [known_iff (hrefines.slot_eq jobId)]
    intro habsent
    have hnone := (hwf jobId).absent habsent
    simp_all [slot, Job.toSlot]
  failed_failures jobId hfailed := by
    have hslot := hrefines.slot_eq jobId
    cases hplacement : (jobs jobId).placement with
    | failed score =>
        obtain ⟨count, hcount⟩ := Option.isSome_iff_exists.mp ((hwf jobId).failed score hplacement)
        refine ⟨count, ?_, (hwf jobId).positive count hcount⟩
        simp_all [Slot.ext_iff, slot, Job.toSlot]
    | _ => simp_all [Slot.ext_iff, slot, Job.toSlot]

/-- The empty namespace is well formed. -/
theorem wellFormed_empty : empty.WellFormed :=
  wellFormed_of_refines Refines.empty fun _ => Job.wf_absent

/-- The structures of a well-formed store hold one job for each id. -/
theorem WellFormed.exists_job {s : Store} (hwf : s.WellFormed) (jobId : Bytes) :
    ∃ job : Job, s.slot jobId = job.toSlot := by
  have hsingle := hwf.single_placement jobId
  have hmeta := hwf.leaseMeta_iff jobId
  have hmarked := hwf.rerun_leased jobId
  have hunleased (hleased : s.leased.score jobId = none) :
      s.leaseMeta.lookup jobId = none ∧ jobId ∉ s.rerun := by
    rw [hleased] at hmeta hmarked
    exact ⟨by simpa using hmeta, fun hmem => by simpa using hmarked hmem⟩
  cases hleased : s.leased.score jobId with
  | some deadline =>
      obtain ⟨record, hrecord⟩ := Option.isSome_iff_exists.mp (hmeta.mpr (by simp [hleased]))
      obtain ⟨workerId, leaseToken, rfl⟩ := hwf.leaseMeta_packed jobId record hrecord
      refine ⟨⟨.leased deadline workerId leaseToken (jobId ∈ s.rerun),
        s.failures.lookup jobId⟩, ?_⟩
      cases hready : s.ready.score jobId <;> cases hscheduled : s.scheduled.score jobId <;>
        cases hfailed : s.failed.score jobId <;>
        simp_all [placements, slot, Job.toSlot]
  | none =>
      obtain ⟨hnoMeta, hunmarked⟩ := hunleased hleased
      cases hready : s.ready.score jobId with
      | some score =>
          refine ⟨⟨.ready score, s.failures.lookup jobId⟩, ?_⟩
          cases hscheduled : s.scheduled.score jobId <;>
            cases hfailed : s.failed.score jobId <;> simp_all [placements, slot, Job.toSlot]
      | none =>
          cases hscheduled : s.scheduled.score jobId with
          | some score =>
              refine ⟨⟨.scheduled score, s.failures.lookup jobId⟩, ?_⟩
              cases hfailed : s.failed.score jobId <;> simp_all [placements, slot, Job.toSlot]
          | none =>
              cases hfailed : s.failed.score jobId with
              | some score =>
                  refine ⟨⟨.failed score, s.failures.lookup jobId⟩, ?_⟩
                  simp_all [slot, Job.toSlot]
              | none =>
                  refine ⟨⟨.absent, s.failures.lookup jobId⟩, ?_⟩
                  simp_all [slot, Job.toSlot]

/-- Every well-formed store refines some jobs. -/
theorem WellFormed.exists_refines {s : Store} (hwf : s.WellFormed) : ∃ jobs, Refines s jobs := by
  choose jobs hslot using hwf.exists_job
  exact ⟨jobs, ⟨hslot⟩⟩

/-- Some well-formed jobs are stored. -/
def StoresWf (s : Store) : Prop :=
  ∃ jobs, Refines s jobs ∧ ∀ jobId, (jobs jobId).Wf

/-- A store that stores well-formed jobs is well formed. -/
theorem StoresWf.wellFormed {s : Store} (hstores : s.StoresWf) : s.WellFormed := by
  obtain ⟨jobs, hrefines, hwf⟩ := hstores
  exact wellFormed_of_refines hrefines hwf

/-- Operations with enough tokens keep the stored jobs well formed. -/
theorem StoresWf.next {s : Store} (hstores : s.StoresWf) {op : Op} (htokens : op.HasTokens) :
    (s.next op).StoresWf := by
  obtain ⟨jobs, hrefines, hwf⟩ := hstores
  obtain ⟨jobs', hrefines', hstep⟩ := exec_refines hrefines op
  exact ⟨jobs', hrefines', fun jobId => (hwf jobId).jobStep htokens (hstep jobId)⟩

/-- Every reachable store stores well-formed jobs. -/
theorem storesWf_run {ops : List Op} (htokens : ∀ op ∈ ops, op.HasTokens) :
    (empty.run ops).StoresWf :=
  List.foldlRecOn ops next ⟨_, Refines.empty, fun _ => Job.wf_absent⟩
    fun _ hstores op hmem => hstores.next (htokens op hmem)

/-- Every reachable store is well formed. -/
theorem wellFormed_run {ops : List Op} (htokens : ∀ op ∈ ops, op.HasTokens) :
    (empty.run ops).WellFormed :=
  (storesWf_run htokens).wellFormed

/-- A job is enqueued, leased, marked for a rerun and failed. -/
theorem wellFormed_run_sample :
    (empty.run
      [.enqueue ⟨"job", none, .always, true⟩ (.ofSeconds 1),
        .reserve sampleConfig 1 (.ofSeconds 2) ["token"],
        .enqueue ⟨"job", none, .always, true⟩ (.ofSeconds 3),
        .failOrRetry ⟨"worker", "job", "token", .terminal, .count 1 .none, .ofSeconds 4⟩,
        .purgeFailedRead .all, .purgeFailedDelete ["job"]]).WellFormed :=
  wellFormed_run (by decide)

end Store

end Redloop
