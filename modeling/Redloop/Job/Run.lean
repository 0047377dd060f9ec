/-
# The store refines the job machine

Every store operation, from every refined store, is one step of the job machine
for each job, and its result is refined again. A run of operations from the
empty namespace therefore always ends in a refined store. No assumption is made
about the operations: their order, their times and their tokens are arbitrary.
-/

import Redloop.Job.Batch

namespace Redloop

variable {s : Store} {jobs : Bytes → Job}

/-! ## Operations on a single job -/

/-- An operation that realizes its transition is a step of the job machine. -/
theorem Refines.of_realizes (hrefines : Refines s jobs) {op : Op} {jobId : Bytes}
    (htarget : op.target = some jobId)
    (hrealizes : Realizes s (s.exec op) jobId (op.outcome (jobs jobId))) :
    ∃ jobs', Refines (s.next op) jobs' ∧
      ∀ other, JobStep op (s.reply op) other (jobs other) (jobs' other) := by
  simp only [jobStep_of_target htarget]
  cases houtcome : op.outcome (jobs jobId) with
  | none =>
      rw [houtcome] at hrealizes
      obtain ⟨hsame, hrefused⟩ := hrealizes
      refine ⟨jobs, hrefines.congr fun _ => by rw [Store.next, hsame], fun other => ?_⟩
      split_ifs with hother
      · subst hother
        rw [houtcome]
        exact ⟨rfl, hrefused⟩
      · rfl
  | some job =>
      rw [houtcome] at hrealizes
      obtain ⟨hslot, hok, hframe⟩ := hrealizes
      refine ⟨_, hrefines.update hslot hframe, fun other => ?_⟩
      split_ifs with hother
      · subst hother
        rw [houtcome, Function.update_self]
        exact ⟨rfl, hok⟩
      · exact Function.update_of_ne hother _ _

/-! ## Purging -/

/-- Erasing a list of members from a sorted set. -/
theorem SortedSet.score_foldl_erase (members : List Bytes) (set : ZSet) (member : Bytes) :
    (members.foldl SortedSet.erase set).score member =
      if member ∈ members then none else set.score member := by
  induction members generalizing set with
  | nil => simp
  | cons first rest ih =>
      rw [List.foldl_cons, ih, SortedSet.score_erase]
      grind

/-- Erasing a list of fields from a hash. -/
theorem Hash.lookup_foldl_erase {ν : Type} (fields : List Bytes) (hash : Hash ν)
    (field : Bytes) :
    (fields.foldl (fun hash field => Finmap.erase field hash) hash).lookup field =
      if field ∈ fields then none else hash.lookup field := by
  induction fields generalizing hash with
  | nil => simp
  | cons first rest ih =>
      rw [List.foldl_cons, ih, Hash.lookup_erase]
      grind

namespace Store

/-- The delete step of a purge changes the selected jobs. -/
theorem purgeFailedDelete_refines (hrefines : Refines s jobs) (jobIds : List Bytes) :
    Refines (s.purgeFailedDelete jobIds) fun jobId =>
      if jobId ∈ jobIds then (jobs jobId).purge else jobs jobId := by
  refine ⟨fun jobId => ?_⟩
  unfold purgeFailedDelete
  have hslot := hrefines.slot_eq jobId
  by_cases hmem : jobId ∈ jobIds
  · rw [if_pos hmem]
    cases hplacement : (jobs jobId).placement <;>
      simp_all [Slot.ext_iff, slot, Job.toSlot, Job.purge, Job.absent,
        SortedSet.score_foldl_erase, Hash.lookup_foldl_erase]
  · rw [if_neg hmem, ← hslot]
    simp [slot, SortedSet.score_foldl_erase, Hash.lookup_foldl_erase, hmem]

/-! ## All operations -/

/-- Both kinds of enqueue realize their transition. -/
theorem exec_enqueue_realizes {request : EnqueueRequest} {job : Job}
    (hslot : s.slot request.jobId = job.toSlot) (now : Timestamp) :
    Realizes s (s.exec (.enqueue request now)) request.jobId
      ((Op.enqueue request now).outcome job) := by
  by_cases himmediate : request.allowExistingCurrentRun
  · simp only [exec, Op.outcome, himmediate, if_true]
    exact enqueueImmediate_realizes hslot _ _ _
  · simp only [exec, Op.outcome, himmediate, Bool.false_eq_true, if_false]
    exact enqueueScheduled_realizes hslot _ _ _

/-- Every operation is a step of the job machine. -/
theorem exec_refines (hrefines : Refines s jobs) (op : Op) :
    ∃ jobs', Refines (s.next op) jobs' ∧
      ∀ jobId, JobStep op (s.reply op) jobId (jobs jobId) (jobs' jobId) := by
  cases op with
  | enqueue request now =>
      exact hrefines.of_realizes rfl (exec_enqueue_realizes (hrefines.slot_eq _) now)
  | reschedule jobId scheduleAt now =>
      exact hrefines.of_realizes rfl (reschedule_realizes (hrefines.slot_eq _) _ _ _)
  | operator op jobId now =>
      exact hrefines.of_realizes rfl (operatorTransition_realizes (hrefines.slot_eq _) _ _)
  | heartbeat workerId jobId leaseToken now leaseDuration =>
      exact hrefines.of_realizes rfl (heartbeat_realizes (hrefines.slot_eq _) _ _ _ _)
  | ack workerId jobId leaseToken now =>
      exact hrefines.of_realizes rfl (ack_realizes (hrefines.slot_eq _) _ _ _)
  | completeAndReschedule workerId jobId leaseToken scheduleAt now =>
      exact hrefines.of_realizes rfl
        (completeAndReschedule_realizes (hrefines.slot_eq _) _ _ _ _)
  | failOrRetry request =>
      exact hrefines.of_realizes rfl (failOrRetry_realizes (hrefines.slot_eq _) _ _ _ _ _)
  | reserve config availableCapacity now leaseTokens =>
      by_cases hcapacity : availableCapacity = 0
      · refine ⟨jobs, hrefines.congr fun _ => ?_, fun _ => Or.inl ⟨rfl, fun _ => ?_⟩⟩
        · simp [next, exec, hcapacity]
        · simp [reply, exec, hcapacity, Reply.leases, leasesOfTexts]
      · obtain ⟨jobs', granted, hrun, hrefined, hleases⟩ := reserve_refines hrefines
          (reserveArgs config availableCapacity now leaseTokens)
        have hexec : s.exec (.reserve config availableCapacity now leaseTokens) =
            s.reserve (reserveArgs config availableCapacity now leaseTokens) := if_neg hcapacity
        refine ⟨jobs', by rwa [next, hexec], fun jobId => ?_⟩
        rw [JobStep, reply, hexec, hleases]
        exact hrun.reserveStep jobId
  | reapExpired now limit =>
      by_cases hlimit : limit = 0
      · refine ⟨jobs, hrefines.congr fun _ => ?_, fun _ => Or.inl rfl⟩
        simp [next, exec, hlimit]
      · obtain ⟨jobs', reaped, hrun, hrefined, -⟩ :=
          reapExpired_refines hrefines (micros now) limit
        refine ⟨jobs', ?_, fun jobId => (hrun.jobStep jobId).imp And.right And.right⟩
        simpa [next, exec, hlimit] using hrefined
  | purgeFailedRead selector => exact ⟨jobs, hrefines, fun _ => rfl⟩
  | purgeFailedDelete jobIds =>
      exact ⟨_, purgeFailedDelete_refines hrefines jobIds, fun _ => rfl⟩
  | workersCleanup workerIds => exact ⟨jobs, hrefines.congr fun _ => rfl, fun _ => rfl⟩

end Store

/-- Every store that a run leads to from a refined store is refined. -/
theorem Refines.exists_run {s : Store} {jobs : Bytes → Job} (hrefines : Refines s jobs)
    (ops : List Op) : ∃ jobs', Refines (s.run ops) jobs' := by
  induction ops generalizing s jobs with
  | nil => exact ⟨jobs, hrefines⟩
  | cons op ops ih =>
      obtain ⟨jobs', hrefines', _⟩ := Store.exec_refines hrefines op
      exact ih hrefines'

end Redloop
