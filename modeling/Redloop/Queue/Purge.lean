/-
# Purging failed jobs

A purge reads the failed set, selects job ids and deletes them in a second round
trip. Other operations may run in between, and the delete transaction neither looks
at the failed set again nor reports how many members it removed. The purge does what
its selector asks exactly when every job it found still matches when the transaction
runs.
-/

import Mathlib.Data.Finset.Card
import Redloop.Queue.Fencing

namespace Redloop

namespace FailedSelector

/-- A selector matches a job that failed at the given microsecond. -/
def Matches (selector : FailedSelector) (jobId : Bytes) (failedAt : ℤ) : Prop :=
  match selector with
  | .jobId selected => jobId = selected
  | .olderThan timestamp => failedAt * 1000 < timestamp.val
  | .all => True

/-- The comparison by which the read of a purge finds a job with the given score. -/
def Finds (selector : FailedSelector) (jobId : Bytes) (score : ℤ) : Prop :=
  match selector with
  | .jobId selected => jobId = selected
  | .olderThan timestamp => score < Double.ofInt (micros timestamp)
  | .all => True

end FailedSelector

/-! ## Failed jobs have failed -/

namespace Job

variable {job job' : Job} {op : Op} {jobId : Bytes}

/-- A job that has failed has a failure count. -/
def FailedCounted (job : Job) : Prop :=
  ∀ score, job.placement = .failed score → job.failures.isSome

theorem FailedCounted.of_not_failed (hplacement : ∀ score, job.placement ≠ .failed score) :
    job.FailedCounted := fun score hfailed => absurd hfailed (hplacement score)

theorem FailedCounted.of_target (target : Target) (failures : Option ℤ) :
    FailedCounted ⟨target.placement, failures⟩ := by
  apply of_not_failed
  rcases target.placement_cases with heq | heq <;> simp [heq]

theorem FailedCounted.of_acked (rerun : Bool) (nowUs : ℤ) :
    FailedCounted ⟨if rerun then .ready nowUs else .absent, none⟩ := by
  cases rerun <;> exact of_not_failed (by simp)

theorem FailedCounted.of_replaceWaiting (hcounted : job.FailedCounted) {target : Target}
    {mode : ReplaceMode} {score : ℤ} : (job.replaceWaiting target mode score).FailedCounted := by
  unfold replaceWaiting
  split_ifs
  · exact hcounted
  · exact of_target _ _

/-- The operations on a single job count a failure when they fail the job. -/
theorem FailedCounted.outcome (hcounted : job.FailedCounted)
    (houtcome : op.outcome job = some job') : job'.FailedCounted := by
  obtain ⟨placement, failures⟩ := job
  cases op with
  | enqueue request now =>
      rcases Op.outcome_enqueue_cases houtcome with ⟨_, rfl⟩ | ⟨_, _, hscheduled⟩
      · cases placement <;> exact of_not_failed (by simp [Job.enqueueImmediate, Job.moveTo])
      · cases placement <;> cases hscheduled
        · exact of_target _ _
        · exact hcounted.of_replaceWaiting
        · exact hcounted.of_replaceWaiting
        · exact of_target _ _
  | reschedule jobId scheduleAt now =>
      cases placement <;> cases houtcome
      · exact hcounted.of_replaceWaiting
      · exact hcounted.of_replaceWaiting
  | operator op jobId now =>
      cases op <;> cases placement <;> cases houtcome <;>
        first
        | exact hcounted
        | exact fun _ _ => rfl
        | exact of_acked _ _
        | exact of_not_failed (by simp [Job.absent, Job.moveTo])
  | heartbeat workerId jobId leaseToken now leaseDuration =>
      obtain ⟨_, _, _, rfl⟩ := asHolder_eq_some_iff.mp houtcome
      exact of_not_failed (by simp [Job.moveTo])
  | ack workerId jobId leaseToken now =>
      obtain ⟨_, _, _, rfl⟩ := asHolder_eq_some_iff.mp houtcome
      exact of_acked _ _
  | completeAndReschedule workerId jobId leaseToken scheduleAt now =>
      obtain ⟨_, rerun, _, rfl⟩ := asHolder_eq_some_iff.mp houtcome
      cases rerun with
      | true => exact of_not_failed (by simp)
      | false => exact of_target _ _
  | failOrRetry request =>
      obtain ⟨_, _, _, rfl⟩ := asHolder_eq_some_iff.mp houtcome
      exact fun _ _ => rfl
  | _ => cases houtcome

theorem FailedCounted.jobStep (hcounted : job.FailedCounted) {reply : Reply}
    (hstep : JobStep op reply jobId job job') : job'.FailedCounted := by
  cases hstep.change with
  | kept hkept => rwa [hkept]
  | transition _ houtcome _ => exact hcounted.outcome houtcome
  | leased _ _ _ hleased =>
      rw [hleased]
      exact of_not_failed (by simp [Job.lease, Job.moveTo])
  | lost _ _ hlost =>
      rw [hlost]
      exact of_not_failed (by simp [Job.moveTo])
  | reaped hreap =>
      obtain ⟨_, _, _, _, _, _, rfl⟩ := reap_eq_some_iff.mp hreap
      exact of_not_failed (by simp [Job.moveTo])
  | purged _ hpurged =>
      rw [hpurged]
      unfold Job.purge
      split
      · exact of_not_failed (by simp [Job.absent])
      · next hfailed => exact of_not_failed (by simpa using hfailed)

end Job

namespace Store

variable {s : Store} {selector : FailedSelector} {jobId : Bytes}

/-- In every reachable store the failed jobs have a failure count. -/
theorem failures_of_failed (ops : List Op) (hfailed : ((empty.run ops).failed.score jobId).isSome) :
    ((empty.run ops).failures.lookup jobId).isSome := by
  obtain ⟨jobs, hrefines, hcounted⟩ :
      ∃ jobs, Refines (empty.run ops) jobs ∧ ∀ jobId, (jobs jobId).FailedCounted := by
    refine List.foldlRecOn (motive := fun s => ∃ jobs, Refines s jobs ∧
      ∀ jobId, (jobs jobId).FailedCounted) ops next ?_ ?_
    · exact ⟨_, Refines.empty, fun _ => .of_not_failed (by simp [Job.absent])⟩
    · rintro s ⟨jobs, hrefines, hcounted⟩ op _
      obtain ⟨jobs', hrefines', hstep⟩ := exec_refines hrefines op
      exact ⟨jobs', hrefines', fun jobId => (hcounted jobId).jobStep (hstep jobId)⟩
  have hslot := congrArg Slot.failed (hrefines.slot_eq jobId)
  rw [hrefines.failures_eq]
  cases hplacement : (jobs jobId).placement with
  | failed score => exact hcounted jobId score hplacement
  | _ => simp_all [slot, Job.toSlot]

/-! ## Reading -/

/-- The jobs a selector selects in a state: failed ones that it matches. -/
def Selects (s : Store) (selector : FailedSelector) (jobId : Bytes) : Prop :=
  ∃ failedAt, s.failed.score jobId = some failedAt ∧ selector.Matches jobId failedAt

/-- The jobs the read of a purge finds. -/
def Finds (s : Store) (selector : FailedSelector) (jobId : Bytes) : Prop :=
  ∃ score, s.failed.score jobId = some score ∧ selector.Finds jobId score

theorem mem_purgeFailedRead : jobId ∈ s.purgeFailedRead selector ↔ s.Finds selector jobId := by
  cases selector with
  | jobId selected =>
      simp only [purgeFailedRead, Finds, FailedSelector.Finds]
      split_ifs with hfailed
      · obtain ⟨score, hscore⟩ := Option.isSome_iff_exists.mp hfailed
        constructor
        · intro hmem
          obtain rfl := List.mem_singleton.mp hmem
          exact ⟨score, hscore, rfl⟩
        · rintro ⟨_, _, rfl⟩
          exact List.mem_singleton.mpr rfl
      · constructor
        · exact fun hmem => absurd hmem List.not_mem_nil
        · rintro ⟨score, hscore, rfl⟩
          exact absurd (by simp [hscore]) hfailed
  | olderThan timestamp =>
      simp only [purgeFailedRead, SortedSet.rangeByScore, List.mem_map, List.mem_filter,
        decide_eq_true_eq, Finds, FailedSelector.Finds]
      constructor
      · rintro ⟨entry, ⟨hmem, hbefore⟩, rfl⟩
        exact ⟨_, SortedSet.mem_entries_iff.mp hmem, hbefore⟩
      · rintro ⟨score, hscore, hbefore⟩
        exact ⟨_, ⟨SortedSet.score_eq_some_iff.mp hscore, hbefore⟩, rfl⟩
  | all =>
      simp only [purgeFailedRead, List.mem_map, Finds, FailedSelector.Finds, and_true]
      constructor
      · rintro ⟨entry, hmem, rfl⟩
        exact ⟨_, SortedSet.mem_entries_iff.mp hmem⟩
      · rintro ⟨score, hscore⟩
        exact ⟨_, SortedSet.score_eq_some_iff.mp hscore, rfl⟩

/-- No job is selected twice. -/
theorem nodup_purgeFailedRead : (s.purgeFailedRead selector).Nodup := by
  cases selector with
  | jobId selected =>
      simp only [purgeFailedRead]
      split_ifs
      · exact List.nodup_singleton _
      · exact List.nodup_nil
  | olderThan timestamp => exact s.failed.members_nodup.sublist (List.filter_sublist.map _)
  | all => exact s.failed.members_nodup

/-! ## Deleting -/

theorem failed_purgeFailedDelete (jobIds : List Bytes) :
    (s.purgeFailedDelete jobIds).failed.score jobId =
      if jobId ∈ jobIds then none else s.failed.score jobId :=
  SortedSet.score_foldl_erase _ _ _

theorem failures_purgeFailedDelete (jobIds : List Bytes) :
    (s.purgeFailedDelete jobIds).failures.lookup jobId =
      if jobId ∈ jobIds then none else s.failures.lookup jobId :=
  Hash.lookup_foldl_erase _ _ _

/-- A delete transaction removes all its jobs from the failed set exactly when all of
them are in it. -/
theorem card_removed_iff {jobIds : List Bytes} (hnodup : jobIds.Nodup) :
    jobIds.length = (s.failed.members \ (s.purgeFailedDelete jobIds).failed.members).card ↔
      ∀ jobId ∈ jobIds, (s.failed.score jobId).isSome := by
  have hremoved : s.failed.members \ (s.purgeFailedDelete jobIds).failed.members =
      jobIds.toFinset ∩ s.failed.members := by
    ext jobId
    simp only [Finset.mem_sdiff, SortedSet.mem_members, failed_purgeFailedDelete,
      Finset.mem_inter, List.mem_toFinset]
    by_cases hmem : jobId ∈ jobIds <;> simp [hmem, ← Option.isSome_iff_ne_none]
  rw [hremoved, ← List.toFinset_card_of_nodup hnodup]
  constructor
  · intro hcard jobId hmem
    have hinter := Finset.eq_of_subset_of_card_le Finset.inter_subset_left hcard.le
    exact SortedSet.mem_members.mp
      (Finset.inter_eq_left.mp hinter (List.mem_toFinset.mpr hmem))
  · intro hfailed
    rw [Finset.inter_eq_left.mpr]
    exact fun jobId hmem =>
      SortedSet.mem_members.mpr (hfailed jobId (List.mem_toFinset.mp hmem))

/-! ## The purge -/

/-- A purge, with the operations that other clients run between its read and its
delete transaction. A purge that finds nothing sends no transaction. -/
def purgeFailed (s : Store) (selector : FailedSelector) (between : List Op) : Store × ℕ :=
  let jobIds := s.purgeFailedRead selector
  if jobIds = [] then (s.run between, 0)
  else ((s.run between).purgeFailedDelete jobIds, jobIds.length)

/-- What a purge owes to the state its delete transaction runs in: it erases the
failure counts of selected jobs only, leaves those of other jobs alone, and returns
how many jobs it removed from the failed set. -/
structure PurgesSelected (before after : Store) (selector : FailedSelector) (returned : ℕ) :
    Prop where
  erased : ∀ jobId, (before.failures.lookup jobId).isSome →
    after.failures.lookup jobId = none → before.Selects selector jobId
  kept : ∀ jobId, before.failed.score jobId = none →
    after.failures.lookup jobId = before.failures.lookup jobId
  counted : returned = (before.failed.members \ after.failed.members).card

/-- A purge does what its selector asks exactly when every job its read found is, once
the delete transaction runs, still failed and still selected. -/
theorem purgeFailed_selected_iff (ops : List Op) (selector : FailedSelector)
    (between : List Op) :
    PurgesSelected ((empty.run ops).run between)
        ((empty.run ops).purgeFailed selector between).1 selector
        ((empty.run ops).purgeFailed selector between).2 ↔
      ∀ jobId, (empty.run ops).Finds selector jobId →
        ((empty.run ops).run between).Selects selector jobId := by
  have hcounted (jobId : Bytes)
      (hfailed : (((empty.run ops).run between).failed.score jobId).isSome) :
      (((empty.run ops).run between).failures.lookup jobId).isSome := by
    rw [← run_append] at hfailed ⊢
    exact failures_of_failed _ hfailed
  have hnodup : ((empty.run ops).purgeFailedRead selector).Nodup := nodup_purgeFailedRead
  simp only [← mem_purgeFailedRead, purgeFailed]
  generalize (empty.run ops).purgeFailedRead selector = jobIds at *
  generalize (empty.run ops).run between = before at *
  by_cases hnothing : jobIds = []
  · subst hnothing
    simp only [if_true, List.not_mem_nil, false_imp_iff, implies_true, iff_true]
    refine ⟨fun jobId hsome hnone => ?_, fun _ _ => rfl, by simp⟩
    simp [hnone] at hsome
  · simp only [hnothing, if_false]
    constructor
    · intro hpurges jobId hmem
      have hfailed := (card_removed_iff hnodup).mp hpurges.counted jobId hmem
      refine hpurges.erased jobId (hcounted jobId hfailed) ?_
      rw [failures_purgeFailedDelete, if_pos hmem]
    · intro hselects
      have hfailed (jobId : Bytes) (hmem : jobId ∈ jobIds) :
          (before.failed.score jobId).isSome := by
        obtain ⟨_, hscore, _⟩ := hselects jobId hmem
        rw [hscore]
        rfl
      refine ⟨fun jobId hsome hnone => ?_, fun jobId hnone => ?_,
        (card_removed_iff hnodup).mpr hfailed⟩
      · apply hselects
        by_contra hmem
        rw [failures_purgeFailedDelete, if_neg hmem] at hnone
        simp [hnone] at hsome
      · rw [failures_purgeFailedDelete, if_neg]
        intro hmem
        simpa [hnone] using hfailed jobId hmem

/-- A job fails for good. -/
def sampleFailedRun : List Op :=
  sampleLeaseRun ++
    [.failOrRetry ⟨"worker", "job", "token", .terminal, .count 1 .none, .ofSeconds 4⟩]

/-- An operator retries the job, and its next attempt fails once. -/
def sampleRetryRun : List Op :=
  [.operator .forceRetry "job" (.ofSeconds 5),
    .reserve sampleConfig 1 (.ofSeconds 6) ["fresh"],
    .failOrRetry ⟨"worker", "job", "fresh", .retryable, .count 1 .none, .ofSeconds 7⟩]

/-- A purge erases the failure count of a job that was retried after the read, and
counts it as removed. -/
theorem purgeFailed_erases_retried :
    ¬ PurgesSelected ((empty.run sampleFailedRun).run sampleRetryRun)
      ((empty.run sampleFailedRun).purgeFailed .all sampleRetryRun).1 .all
      ((empty.run sampleFailedRun).purgeFailed .all sampleRetryRun).2 := by
  intro hpurges
  have hfailed : ((empty.run sampleFailedRun).run sampleRetryRun).failed.score "job" = none := by
    decide
  have hkept := hpurges.kept "job" hfailed
  exact absurd hkept (by decide)

end Store

end Redloop
