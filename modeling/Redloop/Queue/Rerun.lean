/-
# Rerun requests

An immediate enqueue of a leased job marks it for a rerun. Acks, reschedules and
reaps put a marked job back into a waiting set. A failed attempt only does so
when it is retried: one that gives the job up drops the marker and leaves the job
in the failed set.
-/

import Redloop.Queue.Fencing

namespace Redloop

/-! ## Giving up -/

/-- A retry policy gives a job up at a failure count. -/
def RetryPolicy.GivesUp (policy : RetryPolicy) (failureCount : ℤ) : Prop :=
  match policy with
  | .never => True
  | .count maxRetries _ => (maxRetries.toNat : ℤ) < failureCount
  | .infinite _ => False

instance (policy : RetryPolicy) (failureCount : ℤ) : Decidable (policy.GivesUp failureCount) := by
  unfold RetryPolicy.GivesUp
  split <;> infer_instance

@[simp]
theorem backoffArgs_policyKind (policyKind : PolicyKind) (maxRetries : ℕ) (backoff : Backoff) :
    (backoffArgs policyKind maxRetries backoff).policyKind = policyKind := by
  cases backoff <;> rfl

@[simp]
theorem backoffArgs_maxRetries (policyKind : PolicyKind) (maxRetries : ℕ) (backoff : Backoff) :
    (backoffArgs policyKind maxRetries backoff).maxRetries = maxRetries := by
  cases backoff <;> rfl

/-- The script retries unless the policy gives up. The rounding of its numbers
does not matter, because a retry limit has 32 bits. -/
theorem shouldRetry_failureArgs (policy : RetryPolicy) (failureCount : ℤ) :
    (failureArgs policy).shouldRetry (Double.ofInt failureCount) ↔
      ¬ policy.GivesUp failureCount := by
  cases policy with
  | never => simp [failureArgs, PolicyArgs.shouldRetry, RetryPolicy.GivesUp]
  | infinite backoff => simp [failureArgs, PolicyArgs.shouldRetry, RetryPolicy.GivesUp]
  | count maxRetries backoff =>
      have hlimit : maxRetries.toNat < 2 ^ 53 := maxRetries.toNat_lt.trans (by norm_num)
      have hexact : Double.ofInt (maxRetries.toNat : ℤ) = maxRetries.toNat :=
        Double.ofInt_of_natAbs_lt (by simpa using hlimit)
      simp [failureArgs, PolicyArgs.shouldRetry, RetryPolicy.GivesUp, hexact,
        Double.ofInt_le_natCast_iff hlimit]

namespace Op

/-- An operation is a failure report that gives its job up. -/
def GivesUp (op : Op) (s : Store) : Prop :=
  match op with
  | failOrRetry request =>
      request.action = .terminal ∨
        request.retryPolicy.GivesUp (Hash.counter s.failures request.jobId + 1)
  | _ => False

/-- A worker ends the lease: by a completion that carries it, or by a reap that
takes it back. -/
def WorkerEnds (op : Op) (s : Store) (workerId jobId leaseToken : Bytes) : Prop :=
  op.IsCompletion workerId jobId leaseToken ∨
    ∃ now limit, op = reapExpired now limit ∧ (s.next op).leased.score jobId = none

end Op

namespace Store

/-- A job waits in the ready or in the scheduled set, and in no other. -/
def Waits (s : Store) (jobId : Bytes) : Prop :=
  ((s.ready.score jobId).isSome ∨ (s.scheduled.score jobId).isSome) ∧
    s.leased.score jobId = none ∧ s.failed.score jobId = none

instance (s : Store) (jobId : Bytes) : Decidable (s.Waits jobId) := by
  unfold Waits
  infer_instance

/-- Waiting in the store is waiting in the job machine. -/
theorem waits_iff {s : Store} {jobId : Bytes} {job : Job} (hslot : s.slot jobId = job.toSlot) :
    s.Waits jobId ↔ job.IsWaiting := by
  obtain ⟨placement, failures⟩ := job
  cases placement <;> simp_all [Slot.ext_iff, slot, Job.toSlot, Waits, Job.IsWaiting]

end Store

variable {s : Store} {jobs : Bytes → Job} {op : Op} {workerId jobId leaseToken : Bytes}

/-- The failure counter of the store counts the failures of the job. -/
theorem Refines.counter_eq (hrefines : Refines s jobs) (jobId : Bytes) :
    Hash.counter s.failures jobId + 1 = (jobs jobId).countFailure := by
  rw [Hash.counter, hrefines.failures_eq, Job.countFailure]

namespace Job

variable {job job' : Job} {deadline : ℤ}

/-- A failed attempt waits again unless the job is given up. -/
theorem isWaiting_failurePlacement_iff (action : FailureAction) (policy : RetryPolicy)
    (nowUs failureCount : ℤ) (failures : Option ℤ) :
    IsWaiting ⟨failurePlacement action (failureArgs policy) nowUs (Double.ofInt failureCount),
      failures⟩ ↔ ¬ (action = .terminal ∨ policy.GivesUp failureCount) := by
  simp only [failurePlacement, shouldRetry_failureArgs, not_not]
  split_ifs with hfailed
  · simp [IsWaiting, hfailed]
  · simp [IsWaiting, hfailed]
  · simp [IsWaiting, hfailed]

/-- A marked lease that a completion ends leaves the job waiting, unless the
completion gives the job up. -/
theorem isWaiting_completed_iff (hrefines : Refines s jobs)
    (hcompletion : op.IsCompletion workerId jobId leaseToken)
    (hplacement : (jobs jobId).placement = .leased deadline workerId leaseToken true) :
    ((op.outcome (jobs jobId)).getD (jobs jobId)).IsWaiting ↔ ¬ op.GivesUp s := by
  cases op with
  | ack =>
      obtain ⟨rfl, rfl, rfl⟩ := hcompletion
      simp [Op.outcome, ack, asHolder, hplacement, IsWaiting, Op.GivesUp]
  | completeAndReschedule =>
      obtain ⟨rfl, rfl, rfl⟩ := hcompletion
      simp [Op.outcome, completeAndReschedule, asHolder, hplacement, IsWaiting, Op.GivesUp]
  | failOrRetry request =>
      obtain ⟨rfl, rfl, rfl⟩ := hcompletion
      have hwaiting := isWaiting_failurePlacement_iff request.action request.retryPolicy
        (Double.ofInt (micros request.now)) (jobs request.jobId).countFailure
        (some (jobs request.jobId).countFailure)
      rw [Op.GivesUp, hrefines.counter_eq, ← hwaiting]
      simp [Op.outcome, failOrRetry, asHolder, hplacement]
  | _ => exact hcompletion.elim

end Job

namespace Store

/-- In every reachable store, a lease marked for a rerun that a worker ends leaves
the job waiting exactly when the operation does not give the job up. -/
theorem rerun_survives_iff {ops : List Op}
    (hholds : (empty.run ops).HoldsLease jobId workerId leaseToken)
    (hmarked : jobId ∈ (empty.run ops).rerun)
    (hends : op.WorkerEnds (empty.run ops) workerId jobId leaseToken) :
    ((empty.run ops).next op).Waits jobId ↔ ¬ op.GivesUp (empty.run ops) := by
  obtain ⟨jobs, hrefines⟩ := exists_refines_run ops
  obtain ⟨jobs', hrefines', hstep⟩ := exec_refines hrefines op
  rw [waits_iff (hrefines'.slot_eq jobId)]
  obtain ⟨deadline, rerun, hplacement⟩ := (holdsLease_iff (hrefines.slot_eq jobId)).mp hholds
  have hrerun : rerun = true := by
    have hslot := congrArg Slot.rerun (hrefines.slot_eq jobId)
    simpa [slot, Job.toSlot, hplacement, hmarked] using hslot.symm
  subst hrerun
  rcases hends with hcompletion | ⟨now, limit, rfl, hreaped⟩
  · have htarget := (Op.Carries.of_isCompletion hcompletion).target
    have hjob := (jobStep_of_target htarget).mp (hstep jobId)
    rw [if_pos rfl] at hjob
    rw [hjob.1]
    exact Job.isWaiting_completed_iff hrefines hcompletion hplacement
  · refine iff_of_true ?_ not_false
    rcases hstep jobId with hkept | hreap
    · -- the lease was not taken back, against the assumption
      have hslot := congrArg Slot.leased (hrefines'.slot_eq jobId)
      rw [hkept, slot, hreaped] at hslot
      simp [Job.toSlot, hplacement] at hslot
    · obtain ⟨_, _, _, _, _, _, hready⟩ := Job.reap_eq_some_iff.mp hreap
      rw [hready]
      exact trivial

/-- The marked lease of the sample run ends with an ack, and the job waits. -/
theorem rerun_survives_iff_sample :
    ((empty.run (sampleLeaseRun ++
      [.enqueue ⟨"job", none, .always, true⟩ (.ofSeconds 3)])).next sampleAck).Waits "job" := by
  have hack : sampleAck.WorkerEnds (empty.run (sampleLeaseRun ++
      [.enqueue ⟨"job", none, .always, true⟩ (.ofSeconds 3)])) "worker" "job" "token" :=
    Or.inl ⟨rfl, rfl, rfl⟩
  exact (rerun_survives_iff (by decide) (by decide) hack).mpr not_false

/-- A terminal failure drops the rerun request: the job ends in the failed set. -/
theorem rerun_dropped_by_terminal_failure :
    (empty.run (sampleLeaseRun ++
        [.enqueue ⟨"job", none, .always, true⟩ (.ofSeconds 3)])).HoldsLease
          "job" "worker" "token" ∧
      utf8 "job" ∈ (empty.run (sampleLeaseRun ++
        [.enqueue ⟨"job", none, .always, true⟩ (.ofSeconds 3)])).rerun ∧
      ¬ ((empty.run (sampleLeaseRun ++
        [.enqueue ⟨"job", none, .always, true⟩ (.ofSeconds 3)])).next
          (.failOrRetry ⟨"worker", "job", "token", .terminal, .count 1 .none,
            .ofSeconds 4⟩)).Waits "job" := by
  decide

end Store

end Redloop
