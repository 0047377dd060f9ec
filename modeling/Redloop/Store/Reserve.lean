/-
# Reservation

A worker reserves jobs from the ready set and from the due part of the scheduled
set, oldest activation first and ready before scheduled on a tie. Each round
drops due scheduled duplicates of current runs, picks one job, takes it out of
its set and leases it under the next token.
-/

import Redloop.Store.Enqueue
import Redloop.Store.Operator

namespace Redloop

/-- One lease granted by a reserve: the job, its token and its deadline. -/
structure GrantedLease where
  jobId : Bytes
  leaseToken : Bytes
  deadline : ℤ
  deriving DecidableEq

/-- The arguments of the reserve script. -/
structure ReserveArgs where
  workerId : Bytes
  now : ℤ
  capacity : ℕ
  leaseDuration : ℤ
  retryPolicyKey : Bytes
  workerConfigRecord : Bytes
  leaseTokens : List Bytes

namespace ReserveArgs

/-- The reserve time as the script computes with it. -/
def nowUs (args : ReserveArgs) : ℤ := Double.ofInt args.now

/-- The deadline the script gives to every lease of one call. -/
def deadline (args : ReserveArgs) : ℤ :=
  Double.add args.nowUs (Double.ofInt args.leaseDuration)

end ReserveArgs

namespace Store

/-- The scheduled job that came due first. -/
def dueCandidate (s : Store) (nowUs : ℤ) : Option (ℤ ×ₗ Bytes) :=
  (s.scheduled.rangeByScore (· ≤ nowUs)).head?

/-- Drop due scheduled entries from the front while their job is ready or leased.
Each round makes the scheduled set smaller, so its size bounds the rounds. -/
def dropDuplicates (nowUs : ℤ) : ℕ → Store → Store
  | 0, s => s
  | rounds + 1, s =>
      match s.dueCandidate nowUs with
      | none => s
      | some candidate =>
          let jobId := (ofLex candidate).2
          if (s.ready.score jobId).isSome ∨ (s.leased.score jobId).isSome then
            dropDuplicates nowUs rounds { s with scheduled := s.scheduled.erase jobId }
          else s

/-- The set and the job a round reserves from. -/
def chooseCandidate (readyCandidate scheduledCandidate : Option (ℤ ×ₗ Bytes)) :
    Option (JobState × Bytes) :=
  match readyCandidate, scheduledCandidate with
  | none, none => none
  | some ready, none => some (.ready, (ofLex ready).2)
  | none, some scheduled => some (.scheduled, (ofLex scheduled).2)
  | some ready, some scheduled =>
      if (ofLex ready).1 ≤ (ofLex scheduled).1 then some (.ready, (ofLex ready).2)
      else some (.scheduled, (ofLex scheduled).2)

/-- Record a lease. -/
def grantLease (s : Store) (workerId : Bytes) (lease : GrantedLease) : Store :=
  { s with
    leased := s.leased.add lease.jobId lease.deadline
    leaseMeta := Finmap.insert lease.jobId (packMeta workerId lease.leaseToken) s.leaseMeta
    workersLeases := Hash.incrBy s.workersLeases workerId 1 }

/-- The loop of the reserve script. The chosen job leaves its set before the
script looks for a token, so a round without a token ends the loop with the job
already removed. -/
def reserveLoop (args : ReserveArgs) :
    ℕ → Store → List GrantedLease → Store × List GrantedLease
  | 0, s, granted => (s, granted)
  | rounds + 1, s, granted =>
      let readyCandidate := s.ready.entries.head?
      let deduped := dropDuplicates args.nowUs s.scheduled.card s
      match chooseCandidate readyCandidate (deduped.dueCandidate args.nowUs) with
      | none => (deduped, granted)
      | some (source, jobId) =>
          let removed := deduped.removeWaiting source jobId
          match args.leaseTokens[granted.length]? with
          | none => (removed, granted)
          | some token =>
              let lease := ⟨jobId, token, args.deadline⟩
              reserveLoop args rounds (removed.grantLease args.workerId lease)
                (granted ++ [lease])

/-- The activation the reserve reply announces: the first score after the
current time, read through the text of that time. -/
def nextFuture (s : Store) (nowUs : ℤ) : Bytes :=
  match (s.scheduled.rangeByScore (Double.ofInt (generalValue 14 nowUs) < ·)).head? with
  | none => "0"
  | some candidate => generalText 17 (ofLex candidate).1

/-- Register the worker that calls reserve. -/
def registerWorker (s : Store) (args : ReserveArgs) : Store :=
  { s with
    workersLastSeen := s.workersLastSeen.add args.workerId args.nowUs
    workersConfig := Finmap.insert args.workerId args.workerConfigRecord s.workersConfig }

/-- The reserve script behind its policy check. -/
def reserveJobs (s : Store) (args : ReserveArgs) : Store × Reply :=
  let (reserved, granted) := reserveLoop args args.capacity (s.registerWorker args) []
  (reserved, "ok" :: reserved.nextFuture args.nowUs ::
    granted.flatMap fun lease => [lease.jobId, lease.leaseToken, fixedText lease.deadline])

/-- The script `reserve`. The first reserve of a namespace pins its retry policy. -/
def reserve (s : Store) (args : ReserveArgs) : Store × Reply :=
  match s.cfg.lookup (utf8 "retry_policy") with
  | none =>
      reserveJobs
        { s with
          cfg := Finmap.insert (utf8 "retry_policy") args.retryPolicyKey
            (Finmap.insert (utf8 "version") (utf8 "1") s.cfg) } args
  | some existing =>
      if existing ≠ args.retryPolicyKey then
        (s, ["err", "invalid_config", "retry_policy_mismatch"])
      else reserveJobs s args

end Store

/-- The jobs and tokens that a reserve reply lists after its first two texts. -/
def leasesOfTexts : List Bytes → List (Bytes × Bytes)
  | jobId :: leaseToken :: _ :: rest => (jobId, leaseToken) :: leasesOfTexts rest
  | _ => []

/-- The jobs a reserve reply grants, with their tokens. -/
def Reply.leases (reply : Reply) : List (Bytes × Bytes) := leasesOfTexts (reply.drop 2)

end Redloop
