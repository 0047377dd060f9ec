/-
# Heartbeat, completion and reaping

A worker extends a lease with a heartbeat and ends it with one of three
completions. All four compare the stored lease record with the one the caller's
worker id and token would make, and change nothing when it differs. Leases whose
deadline has passed are taken back by reaping.
-/

import Redloop.Store.Operator

namespace Redloop

namespace Store

/-- The script `heartbeat`. -/
def heartbeat (s : Store) (jobId workerId leaseToken : Bytes) (now deadline : ℤ) :
    Store × Reply :=
  if ¬ s.HoldsLease jobId workerId leaseToken then (s, Reply.leaseMismatch)
  else
    ({ s with
        leased := s.leased.add jobId (Double.ofInt deadline)
        workersLastSeen := s.workersLastSeen.add workerId (Double.ofInt now) }, ["ok"])

/-- The script `ack`. -/
def ack (s : Store) (jobId workerId leaseToken : Bytes) (now : ℤ) : Store × Reply :=
  if ¬ s.HoldsLease jobId workerId leaseToken then (s, Reply.leaseMismatch)
  else
    let dropped := s.dropLease jobId workerId
    (rerunIfMarked { dropped with failures := Finmap.erase jobId dropped.failures } jobId
      (Double.ofInt now), ["ok"])

/-- The script `complete_and_reschedule`. -/
def completeAndReschedule (s : Store) (jobId workerId leaseToken : Bytes)
    (now schedule : ℤ) : Store × Reply :=
  if ¬ s.HoldsLease jobId workerId leaseToken then (s, Reply.leaseMismatch)
  else
    let nowUs := Double.ofInt now
    let scheduleUs := Double.ofInt schedule
    let dropped := s.dropLease jobId workerId
    let cleared := { dropped with failures := Finmap.erase jobId dropped.failures }
    if jobId ∈ cleared.rerun then (cleared.rerunIfMarked jobId nowUs, ["ok", "ready", "0"])
    else if scheduleUs = 0 ∨ scheduleUs ≤ nowUs then
      ({ cleared with ready := cleared.ready.add jobId nowUs }, ["ok", "ready", "0"])
    else
      ({ cleared with scheduled := cleared.scheduled.add jobId scheduleUs },
        ["ok", "scheduled", fixedText scheduleUs])

end Store

/-! ## Failure -/

/-- The policy argument of the failure script. -/
inductive PolicyKind
  | never
  | count
  | infinite
  deriving DecidableEq

/-- The backoff argument of the failure script. -/
inductive BackoffKind
  | none
  | fixed
  | exponential
  deriving DecidableEq

/-- The arguments by which a retry policy reaches the failure script. -/
structure PolicyArgs where
  policyKind : PolicyKind
  maxRetries : ℕ
  backoffKind : BackoffKind
  backoffA : ℕ
  backoffB : ℕ
  backoffC : ℕ
  deriving DecidableEq

/-- The backoff part of the policy arguments. -/
def backoffArgs (policyKind : PolicyKind) (maxRetries : ℕ) : Backoff → PolicyArgs
  | .none => ⟨policyKind, maxRetries, .none, 0, 0, 0⟩
  | .fixed delayMs => ⟨policyKind, maxRetries, .fixed, delayMs.toNat, 0, 0⟩
  | .exponential initialDelayMs multiplier maxDelayMs =>
      ⟨policyKind, maxRetries, .exponential, initialDelayMs.toNat, multiplier.toNat,
        maxDelayMs.toNat⟩

/-- The policy arguments a failure request is sent with. -/
def failureArgs : RetryPolicy → PolicyArgs
  | .never => ⟨.never, 0, .none, 0, 0, 0⟩
  | .count maxRetries backoff => backoffArgs .count maxRetries.toNat backoff
  | .infinite backoff => backoffArgs .infinite 0 backoff

namespace PolicyArgs

/-- Whether the policy lets an attempt with this failure count be retried. -/
def shouldRetry (args : PolicyArgs) (failureCount : ℤ) : Bool :=
  match args.policyKind with
  | .never => false
  | .count => failureCount ≤ Double.ofInt args.maxRetries
  | .infinite => true

/-- The exponential delay after the given number of rounds. -/
def delayRounds (args : PolicyArgs) : ℕ → ℤ
  | 0 => Double.ofInt args.backoffA
  | rounds + 1 =>
      min (Double.mul (args.delayRounds rounds) (Double.ofInt args.backoffB))
        (Double.ofInt args.backoffC)

/-- The retry delay in milliseconds. -/
def delayMs (args : PolicyArgs) (failureCount : ℤ) : ℤ :=
  match args.backoffKind with
  | .none => 0
  | .fixed => Double.ofInt args.backoffA
  | .exponential => args.delayRounds (failureCount - 1).toNat

end PolicyArgs

namespace Store

/-- The script `fail_or_retry`. A retry without delay waits in the ready set, any
other in the scheduled set. -/
def failOrRetry (s : Store) (jobId workerId leaseToken : Bytes) (now : ℤ)
    (action : FailureAction) (args : PolicyArgs) : Store × Reply :=
  if ¬ s.HoldsLease jobId workerId leaseToken then (s, Reply.leaseMismatch)
  else
    let nowUs := Double.ofInt now
    let dropped := (s.dropLease jobId workerId)
    let counted :=
      { dropped with
        rerun := dropped.rerun.erase jobId
        failures := Hash.incrBy dropped.failures jobId 1 }
    let failureCount := Double.ofInt (Hash.counter counted.failures jobId)
    if action = .terminal ∨ ¬ args.shouldRetry failureCount then
      ({ counted with failed := counted.failed.add jobId nowUs },
        ["ok", generalText 14 failureCount, "failed", "0"])
    else if args.delayMs failureCount = 0 then
      ({ counted with ready := counted.ready.add jobId nowUs },
        ["ok", generalText 14 failureCount, "ready", "0"])
    else
      let retryAt := Double.add nowUs (Double.mul (args.delayMs failureCount) 1000)
      ({ counted with scheduled := counted.scheduled.add jobId retryAt },
        ["ok", generalText 14 failureCount, "scheduled", fixedText retryAt])

/-! ## Reaping -/

/-- Take one expired lease back. A record without a readable worker id leaves
the lease counters alone. -/
def reapJob (s : Store) (jobId : Bytes) (nowUs : ℤ) : Store :=
  let moved :=
    { s with
      leased := s.leased.erase jobId
      leaseMeta := Finmap.erase jobId s.leaseMeta
      rerun := s.rerun.erase jobId
      ready := s.ready.add jobId nowUs }
  match (s.leaseMeta.lookup jobId).bind workerFromMeta with
  | some workerId => { moved with workersLeases := Hash.decrement moved.workersLeases workerId }
  | none => moved

/-- The loop of the reap script: up to `limit` times, take back the lease that
expired first. It returns how many were taken. -/
def reapLoop (nowUs : ℤ) : ℕ → Store → ℕ → Store × ℕ
  | 0, s, reaped => (s, reaped)
  | limit + 1, s, reaped =>
      match (s.leased.rangeByScore (· ≤ nowUs)).head? with
      | none => (s, reaped)
      | some candidate => reapLoop nowUs limit (s.reapJob (ofLex candidate).2 nowUs) (reaped + 1)

/-- The script `reap_expired`. -/
def reapExpired (s : Store) (now : ℤ) (limit : ℕ) : Store × Reply :=
  let (reapedStore, reaped) := reapLoop (Double.ofInt now) limit s 0
  (reapedStore, ["ok", generalText 14 reaped])

end Store

end Redloop
