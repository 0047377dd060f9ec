/-
# Loading a job that moves

The six reads of a load do not see one state. A job that moves from a set that is
still to be read into one that has been read is reported as missing, and a lease that
ends between the read of its score and the read of its record makes the load fail. A
load is right about a job that is placed throughout exactly when one of the reads
finds it and what they find fits together.
-/

import Redloop.Queue.Placement
import Redloop.Store.GetJob

namespace Redloop

namespace Job

/-- An absent job stays absent until it is placed. -/
theorem absent_or_placed {op : Op} {reply : Reply} {jobId : Bytes} {job' : Job}
    (hstep : JobStep op reply jobId Job.absent job') : job' = Job.absent ∨ job'.IsPlaced := by
  cases hstep.change with
  | kept hkept => exact Or.inl hkept
  | transition _ houtcome _ =>
      by_cases hplaced : job'.IsPlaced
      · exact Or.inr hplaced
      · left
        have hplacement := not_not.mp hplaced
        have hfailures := (wf_absent.outcome houtcome).absent hplacement
        cases job'
        cases hplacement
        cases hfailures
        rfl
  | leased hwaiting => exact hwaiting.elim
  | lost hwaiting => exact hwaiting.elim
  | reaped hreap =>
      obtain ⟨_, _, _, _, hplacement, _⟩ := reap_eq_some_iff.mp hreap
      cases hplacement
  | purged _ hpurged => exact Or.inl hpurged

end Job

namespace Store

variable {s : Store} {between : BetweenReads} {jobId : Bytes}

/-- A property of every state of a run. -/
def Throughout (s : Store) (ops : List Op) (property : Store → Prop) : Prop :=
  ∀ first rest, ops = first ++ rest → property (s.run first)

@[simp]
theorem throughout_nil {property : Store → Prop} : s.Throughout [] property ↔ property s := by
  constructor
  · exact fun h => h [] [] rfl
  · intro h first rest hops
    obtain ⟨rfl, rfl⟩ := List.append_eq_nil_iff.mp hops.symm
    exact h

@[simp]
theorem throughout_cons {property : Store → Prop} {op : Op} {ops : List Op} :
    s.Throughout (op :: ops) property ↔ property s ∧ (s.next op).Throughout ops property := by
  constructor
  · intro h
    exact ⟨h [] _ rfl, fun first rest hops => h (op :: first) rest (by rw [hops]; rfl)⟩
  · rintro ⟨hfirst, hrest⟩ first rest hops
    cases first with
    | nil => exact hfirst
    | cons other first =>
        obtain ⟨rfl, htail⟩ := List.cons.inj hops
        exact hrest first rest htail

/-- A job that is unknown throughout a run has no failure count at its end. -/
theorem failures_of_unknown {jobs : Bytes → Job} (hrefines : Refines s jobs)
    (hjob : jobs jobId = Job.absent) {ops : List Op}
    (hunknown : s.Throughout ops fun s => ¬ s.Known jobId) :
    (s.run ops).failures.lookup jobId = none := by
  induction ops generalizing s jobs with
  | nil => rw [run_nil, hrefines.failures_eq, hjob, Job.absent]
  | cons op ops ih =>
      obtain ⟨_, hrest⟩ := throughout_cons.mp hunknown
      obtain ⟨jobs', hrefines', hstep⟩ := exec_refines hrefines op
      have hafter := hrest [] ops rfl
      rw [run_nil, known_iff (hrefines'.slot_eq jobId)] at hafter
      have hjob' := (Job.absent_or_placed (hjob ▸ hstep jobId)).resolve_right hafter
      exact ih hrefines' hjob' hrest

/-- In a well-formed store an unknown job is the absent one. -/
theorem WellFormed.absent_of_unknown (hwf : s.WellFormed) {jobs : Bytes → Job}
    (hrefines : Refines s jobs) (hunknown : ¬ s.Known jobId) : jobs jobId = Job.absent := by
  have hplacement := not_not.mp (mt (known_iff (hrefines.slot_eq jobId)).mpr hunknown)
  have hfailures : (jobs jobId).failures = none := by
    rw [← hrefines.failures_eq, ← Option.not_isSome_iff_eq_none]
    exact mt (hwf.failures_known jobId) hunknown
  cases hjob : jobs jobId
  rw [hjob] at hplacement hfailures
  cases hplacement
  cases hfailures
  rfl

/-! ## What a load owes and what it needs -/

/-- A load is right about a job: it reports a job that is known throughout, reports none
when the job is unknown throughout, and never fails for want of a lease record. -/
structure SeesJob (s : Store) (between : BetweenReads) (jobId : Bytes) : Prop where
  known : (s.Throughout between.ops fun s => s.Known jobId) →
    ∃ record, s.getJobDuring between jobId = some (.ok (some record))
  unknown : (s.Throughout between.ops fun s => ¬ s.Known jobId) →
    s.getJobDuring between jobId = some (.ok none)
  leaseMeta : s.getJobDuring between jobId ≠ some (.error (.invalidData "lease_meta"))

/-- The first score that the reads find. -/
def foundScore (s : Store) (between : BetweenReads) (jobId : Bytes) : Option ℤ :=
  (s.ready.score jobId).or (((s.atLeased between).leased.score jobId).or
    (((s.atFailed between).failed.score jobId).or
      ((s.atScheduled between).scheduled.score jobId)))

/-- The failure count that the reads find is an unsigned 32-bit integer. -/
def ReadsCount (s : Store) (between : BetweenReads) (jobId : Bytes) : Prop :=
  ∀ count, (s.atFailures between).failures.lookup jobId = some count →
    0 ≤ count ∧ count ≤ u32Max

/-- The reads take the job for a leased one. -/
def ReadsLease (s : Store) (between : BetweenReads) (jobId : Bytes) : Prop :=
  s.ready.score jobId = none ∧ ((s.atLeased between).leased.score jobId).isSome

/-- What the reads must find: a job that is known throughout has a score in one of the
sets when that set is read, the numbers are in range, and a job taken for leased has a
lease record when the record is read, which can be split into its parts. -/
structure FindsJob (s : Store) (between : BetweenReads) (jobId : Bytes) : Prop where
  found : (s.Throughout between.ops fun s => s.Known jobId) →
    ∃ score, s.foundScore between jobId = some score ∧ score.natAbs < 10 ^ 17
  counted : (s.Throughout between.ops fun s => s.Known jobId) → s.ReadsCount between jobId
  holder : (s.Throughout between.ops fun s => s.Known jobId) → s.ReadsLease between jobId →
    ∀ record, (s.atLeaseMeta between).leaseMeta.lookup jobId = some record →
      ∃ holder, parseLeaseMeta record = some (.ok holder)
  leaseMeta : s.ReadsCount between jobId → s.ReadsLease between jobId →
    ((s.atLeaseMeta between).leaseMeta.lookup jobId).isSome

/-! ## What a load returns -/

/-- A load reads the failure count first. -/
theorem getJobDuring_eq (s : Store) (between : BetweenReads) (jobId : Bytes) :
    (¬ s.ReadsCount between jobId ∧
        s.getJobDuring between jobId = some (.error (decodeError "get_job"))) ∨
      (s.ReadsCount between jobId ∧ ∃ count, s.getJobDuring between jobId =
        JobLookup.record
          { readyAt := scoreText s.ready jobId
            leasedUntil := scoreText (s.atLeased between).leased jobId
            failedAt := scoreText (s.atFailed between).failed jobId
            scheduleAt := scoreText (s.atScheduled between).scheduled jobId
            failureCount := count
            leaseMeta := (s.atLeaseMeta between).leaseMeta.lookup jobId } jobId) := by
  unfold getJobDuring jobLookup ReadsCount
  rw [← exists_decodeFailureCount_iff]
  cases hcount : decodeFailureCount ((s.atFailures between).failures.lookup jobId) with
  | ok count => exact Or.inr ⟨⟨count, rfl⟩, count, rfl⟩
  | error error =>
      refine Or.inl ⟨by simp, ?_⟩
      unfold decodeFailureCount at hcount
      split at hcount
      · cases hcount
      · split at hcount <;> cases hcount
        rfl

/-- A time that is read decides whether a record is returned. -/
theorem parseTime_bind_eq_ok_iff {field : String} {score : ℤ} {record : Timestamp → JobRecord} :
    (∃ found, (some do
        let time ← parseTime field (generalText 17 score)
        pure (some (record time))) = some (Except.ok (some found))) ↔
      score.natAbs < 10 ^ 17 := by
  rw [parseTime_scoreText]
  split_ifs with hfits
  · exact ⟨fun _ => hfits, fun _ => ⟨_, rfl⟩⟩
  · refine ⟨?_, fun h => absurd h hfits⟩
    rintro ⟨_, hread⟩
    cases hread

/-- When the record of a leased job is returned. -/
theorem leasedRecord_eq_ok_iff {count : ℕ} {score : ℤ} {record : Bytes} :
    (∃ found, ((parseLeaseMeta record).map fun holder => do
        let holder ← holder
        leasedRecord jobId count (generalText 17 score) holder) = some (.ok (some found))) ↔
      score.natAbs < 10 ^ 17 ∧ ∃ holder, parseLeaseMeta record = some (.ok holder) := by
  cases hparse : parseLeaseMeta record with
  | none => simp
  | some parsed =>
      cases parsed with
      | error error =>
          simp only [Option.map_some, Option.some.injEq, reduceCtorEq, exists_false, and_false,
            iff_false, not_exists]
          intro found hread
          cases hread
      | ok holder =>
          have hholder : ∃ holder', some (Except.ok (ε := Error) holder) = some (.ok holder') :=
            ⟨holder, rfl⟩
          simp only [hholder, and_true]
          exact parseTime_bind_eq_ok_iff

/-- When a load that can read the failure count reports a job. -/
theorem exists_getJobDuring_iff (hcounted : s.ReadsCount between jobId) :
    (∃ record, s.getJobDuring between jobId = some (.ok (some record))) ↔
      (∃ score, s.foundScore between jobId = some score ∧ score.natAbs < 10 ^ 17) ∧
        (s.ReadsLease between jobId →
          ∃ record, (s.atLeaseMeta between).leaseMeta.lookup jobId = some record ∧
            ∃ holder, parseLeaseMeta record = some (.ok holder)) := by
  obtain ⟨count, hload⟩ :=
    ((getJobDuring_eq s between jobId).resolve_left fun h => h.1 hcounted).2
  rw [hload]
  unfold JobLookup.record foundScore ReadsLease scoreText
  cases hready : s.ready.score jobId with
  | some score => simpa using parseTime_bind_eq_ok_iff
  | none =>
      cases hleased : (s.atLeased between).leased.score jobId with
      | some score =>
          cases hmeta : (s.atLeaseMeta between).leaseMeta.lookup jobId with
          | none => simp
          | some record => simpa using leasedRecord_eq_ok_iff
      | none =>
          cases hfailed : (s.atFailed between).failed.score jobId with
          | some score => simpa using parseTime_bind_eq_ok_iff
          | none =>
              cases hscheduled : (s.atScheduled between).scheduled.score jobId with
              | some score => simpa using parseTime_bind_eq_ok_iff
              | none => simp

/-- A load whose reads find neither a score nor a count out of range reports no job. -/
theorem getJobDuring_eq_none (hcounted : s.ReadsCount between jobId)
    (hfound : s.foundScore between jobId = none) :
    s.getJobDuring between jobId = some (.ok none) := by
  obtain ⟨count, hload⟩ :=
    ((getJobDuring_eq s between jobId).resolve_left fun h => h.1 hcounted).2
  simp only [foundScore, Option.or_eq_none_iff] at hfound
  obtain ⟨hready, hleased, hfailed, hscheduled⟩ := hfound
  simp only [hload, scoreText, hready, hleased, hfailed, hscheduled, Option.map_none,
    JobLookup.record]

/-- A time that cannot be read is reported under its own field. -/
theorem parseTime_bind_ne_error {field other : String} {score : ℤ}
    {record : Timestamp → JobRecord} (hne : field ≠ other) :
    (do
      let time ← parseTime field (generalText 17 score)
      pure (some (record time))) ≠ Except.error (.invalidData other) := by
  rw [parseTime_scoreText]
  split_ifs
  · rintro ⟨⟩
  · rintro ⟨⟩
    exact hne rfl

/-- A lease record that is there is not reported as missing. -/
theorem leasedRecord_ne_error {count : ℕ} {score : ℤ} {record : Bytes} :
    ((parseLeaseMeta record).map fun holder => do
      let holder ← holder
      leasedRecord jobId count (generalText 17 score) holder) ≠
      some (.error (.invalidData "lease_meta")) := by
  intro herror
  obtain ⟨holder, hparse, hread⟩ := Option.map_eq_some_iff.mp herror
  cases holder with
  | ok holder => exact parseTime_bind_ne_error (by decide) hread
  | error error =>
      cases hread
      unfold parseLeaseMeta at hparse
      split at hparse
      · simp at hparse
      · split at hparse
        · simp at hparse
        · split_ifs at hparse
          · simp at hparse
          · obtain ⟨_, _, hok⟩ := Option.map_eq_some_iff.mp hparse
            cases hok

/-- When a load fails for want of a lease record. -/
theorem getJobDuring_eq_error_iff (hcounted : s.ReadsCount between jobId) :
    s.getJobDuring between jobId = some (.error (.invalidData "lease_meta")) ↔
      s.ReadsLease between jobId ∧ (s.atLeaseMeta between).leaseMeta.lookup jobId = none := by
  obtain ⟨count, hload⟩ :=
    ((getJobDuring_eq s between jobId).resolve_left fun h => h.1 hcounted).2
  rw [hload]
  unfold JobLookup.record ReadsLease scoreText
  cases hready : s.ready.score jobId with
  | some score => simpa using parseTime_bind_ne_error (by decide)
  | none =>
      cases hleased : (s.atLeased between).leased.score jobId with
      | some score =>
          cases hmeta : (s.atLeaseMeta between).leaseMeta.lookup jobId with
          | none => simp
          | some record => simpa using leasedRecord_ne_error
      | none =>
          cases hfailed : (s.atFailed between).failed.score jobId with
          | some score => simpa using parseTime_bind_ne_error (by decide)
          | none =>
              cases hscheduled : (s.atScheduled between).scheduled.score jobId with
              | some score => simpa using parseTime_bind_ne_error (by decide)
              | none => simp

/-! ## The load -/

/-- The start of a run in which a property holds throughout, and the states at which the
reads of the four scores take place. -/
theorem Throughout.reads {property : Store → Prop} (h : s.Throughout between.ops property) :
    property s ∧ property (s.atLeased between) ∧ property (s.atFailed between) ∧
      property (s.atScheduled between) := by
  simp only [atScheduled, atFailed, atLeased, ← run_append]
  exact ⟨h [] _ rfl, h _ _ (by simp only [BetweenReads.ops, List.append_assoc]; rfl),
    h _ _ (by simp only [BetweenReads.ops, List.append_assoc]; rfl),
    h _ _ (by simp only [BetweenReads.ops, List.append_assoc]; rfl)⟩

/-- Nothing is found of a job that is unknown throughout. -/
theorem WellFormed.foundNothing (hwf : s.WellFormed)
    (hunknown : s.Throughout between.ops fun s => ¬ s.Known jobId) :
    s.ReadsCount between jobId ∧ s.foundScore between jobId = none := by
  constructor
  · obtain ⟨jobs, hrefines⟩ := hwf.exists_refines
    have hfirst := hwf.absent_of_unknown hrefines (hunknown [] _ rfl)
    have hfailures : (s.atFailures between).failures.lookup jobId = none := by
      simp only [atFailures, atScheduled, atFailed, atLeased, ← run_append]
      refine failures_of_unknown hrefines hfirst fun first rest hops => ?_
      exact hunknown first (rest ++ between.afterFailures)
        (by rw [BetweenReads.ops, hops, List.append_assoc])
    intro count hcount
    rw [hfailures] at hcount
    cases hcount
  · obtain ⟨hready, hleased, hfailed, hscheduled⟩ := hunknown.reads
    simp only [Known, not_or, Option.not_isSome_iff_eq_none] at hready hleased hfailed hscheduled
    simp only [foundScore, hready, hleased, hfailed, hscheduled, Option.or_none]

/-- In a well-formed store a load is right about a job, whatever runs between its reads,
exactly when its reads find the job. -/
theorem getJob_sees_iff (s : Store) (hwf : s.WellFormed) (between : BetweenReads)
    (jobId : Bytes) : s.SeesJob between jobId ↔ s.FindsJob between jobId := by
  constructor
  · intro hsees
    have hreads (hknown : s.Throughout between.ops fun s => s.Known jobId) :
        s.ReadsCount between jobId := by
      obtain ⟨record, hrecord⟩ := hsees.known hknown
      refine ((getJobDuring_eq s between jobId).resolve_left ?_).1
      rintro ⟨_, herror⟩
      simp [herror] at hrecord
    have hreports (hknown : s.Throughout between.ops fun s => s.Known jobId) :=
      (exists_getJobDuring_iff (hreads hknown)).mp (hsees.known hknown)
    refine ⟨fun hknown => (hreports hknown).1, hreads, ?_, ?_⟩
    · intro hknown hlease record hrecord
      obtain ⟨_, hsame, hholder⟩ := (hreports hknown).2 hlease
      cases hrecord.symm.trans hsame
      exact hholder
    · intro hcounted hlease
      rw [Option.isSome_iff_ne_none]
      intro hmissing
      exact hsees.leaseMeta ((getJobDuring_eq_error_iff hcounted).mpr ⟨hlease, hmissing⟩)
  · intro hfinds
    refine ⟨fun hknown => ?_, fun hunknown => ?_, fun herror => ?_⟩
    · have hcounted := hfinds.counted hknown
      refine (exists_getJobDuring_iff hcounted).mpr ⟨hfinds.found hknown, fun hlease => ?_⟩
      obtain ⟨record, hrecord⟩ :=
        Option.isSome_iff_exists.mp (hfinds.leaseMeta hcounted hlease)
      exact ⟨record, hrecord, hfinds.holder hknown hlease record hrecord⟩
    · obtain ⟨hcounted, hnothing⟩ := hwf.foundNothing hunknown
      exact getJobDuring_eq_none hcounted hnothing
    · rcases getJobDuring_eq s between jobId with ⟨_, hload⟩ | ⟨hcounted, _⟩
      · simp [hload, decodeError] at herror
      · obtain ⟨hlease, hmissing⟩ := (getJobDuring_eq_error_iff hcounted).mp herror
        simpa [hmissing] using hfinds.leaseMeta hcounted hlease

/-- A heartbeat of the lease after the first read, and an enqueue of its job after the
second. -/
def sampleBeatBetween : BetweenReads :=
  { BetweenReads.none with
    afterReady := [.heartbeat "worker" "job" "token" (.ofSeconds 74) sampleConfig.leaseDuration]
    afterLeased := [.enqueue ⟨"job", none, .always, true⟩ (.ofSeconds 75)] }

/-- A load of a leased job sees it while its lease is extended and a rerun is requested. -/
theorem getJob_sees_sample :
    (empty.run sampleLeaseRun).SeesJob sampleBeatBetween "job" := by
  have hwf : (empty.run sampleLeaseRun).WellFormed := (storesWf_run (by decide)).wellFormed
  apply (getJob_sees_iff _ hwf sampleBeatBetween "job").mpr
  have hrecord : ((empty.run sampleLeaseRun).atLeaseMeta sampleBeatBetween).leaseMeta.lookup
      (utf8 "job") = some (packMeta "worker" "token") := by decide
  refine ⟨fun _ => ⟨104000000, by decide, by decide⟩, fun _ count hcount => ?_,
    fun _ _ record hfound => ?_, fun _ _ => by rw [hrecord]; rfl⟩
  · have hnone : ((empty.run sampleLeaseRun).atFailures sampleBeatBetween).failures.lookup
        (utf8 "job") = none := by decide
    cases hnone.symm.trans hcount
  · cases hrecord.symm.trans hfound
    exact ⟨_, parseLeaseMeta_packMeta (by decide) (by decide)⟩

/-- A worker's reap, between the first read and the second. -/
def sampleReapBetween : BetweenReads :=
  { BetweenReads.none with afterReady := [.reapExpired (.ofSeconds 100) 10] }

/-- A load misses a leased job that is reaped between the reads of ready and of leased. -/
theorem getJob_misses_reaped :
    (empty.run sampleLeaseRun).WellFormed ∧
      ¬ (empty.run sampleLeaseRun).SeesJob sampleReapBetween "job" := by
  refine ⟨(storesWf_run (by decide)).wellFormed, fun hsees => ?_⟩
  have hops : sampleReapBetween.ops = [.reapExpired (.ofSeconds 100) 10] := rfl
  obtain ⟨record, hrecord⟩ := hsees.known (by
    rw [hops, throughout_cons, throughout_nil]
    decide)
  have hmissed : (empty.run sampleLeaseRun).getJobDuring sampleReapBetween "job" =
      some (.ok none) := by decide
  cases hmissed.symm.trans hrecord

end Store

end Redloop
