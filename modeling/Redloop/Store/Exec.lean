/-
# Store operations

Every mutation of a namespace as one atomic step: the script or transaction that
the store client sends, with the arguments it computes from its caller's. Purging
failed jobs takes two steps, a read and a later delete, with the selected job ids
carried in between.
-/

import Redloop.Store.Lease
import Redloop.Store.Reserve

namespace Redloop

namespace Store

/-- The failed jobs a selector matches. -/
def purgeFailedRead (s : Store) : FailedSelector → List Bytes
  | .jobId jobId => if (s.failed.score jobId).isSome then [jobId] else []
  | .olderThan timestamp =>
      (s.failed.rangeByScore (· < Double.ofInt (micros timestamp))).map fun entry =>
        (ofLex entry).2
  | .all => s.failed.entries.map fun entry => (ofLex entry).2

/-- The delete transaction of a purge. -/
def purgeFailedDelete (s : Store) (jobIds : List Bytes) : Store :=
  { s with
    failed := jobIds.foldl SortedSet.erase s.failed
    failures := jobIds.foldl (fun hash jobId => Finmap.erase jobId hash) s.failures }

/-- The delete transaction that prunes stale workers. -/
def workersCleanup (s : Store) (workerIds : List Bytes) : Store :=
  { s with
    workersLastSeen := workerIds.foldl SortedSet.erase s.workersLastSeen
    workersConfig := workerIds.foldl (fun hash workerId => Finmap.erase workerId hash)
      s.workersConfig
    workersLeases := workerIds.foldl (fun hash workerId => Finmap.erase workerId hash)
      s.workersLeases }

end Store

/-- The script arguments of a reserve call. -/
def reserveArgs (config : WorkerConfig) (availableCapacity : ℕ) (now : Timestamp)
    (leaseTokens : List Bytes) : ReserveArgs where
  workerId := config.workerId
  now := micros now
  capacity := availableCapacity
  leaseDuration := durationMicros config.leaseDuration
  retryPolicyKey := config.retryPolicyKey
  workerConfigRecord := packWorkerConfigRecord config
  leaseTokens := leaseTokens

/-- The lease deadline a heartbeat asks for. -/
def heartbeatDeadline (now : Timestamp) (leaseDuration : Duration) : ℤ :=
  min (micros now + durationMicros leaseDuration) i64Max

/-- The microseconds of an optional schedule. No schedule is sent as zero. -/
def scheduleMicros (scheduleAt : Option Timestamp) : ℤ := (scheduleAt.map micros).getD 0

/-- The store operations, with the arguments of the client's methods and the time
each of them sends. -/
inductive Op
  | enqueue (request : EnqueueRequest) (now : Timestamp)
  | reschedule (jobId : Bytes) (scheduleAt : Option Timestamp) (now : Timestamp)
  | operator (op : OperatorOp) (jobId : Bytes) (now : Timestamp)
  | reserve (config : WorkerConfig) (availableCapacity : ℕ) (now : Timestamp)
      (leaseTokens : List Bytes)
  | heartbeat (workerId jobId leaseToken : Bytes) (now : Timestamp) (leaseDuration : Duration)
  | ack (workerId jobId leaseToken : Bytes) (now : Timestamp)
  | completeAndReschedule (workerId jobId leaseToken : Bytes) (scheduleAt : Option Timestamp)
      (now : Timestamp)
  | failOrRetry (request : FailureRequest)
  | reapExpired (now : Timestamp) (limit : ℕ)
  | purgeFailedRead (selector : FailedSelector)
  | purgeFailedDelete (jobIds : List Bytes)
  | workersCleanup (workerIds : List Bytes)
  deriving DecidableEq

namespace Store

/-- Run one operation. A reserve without capacity and a reap without limit are
answered by the client without a call; the read of a purge answers with the jobs
it selected. -/
def exec (s : Store) : Op → Store × Reply
  | .enqueue request now =>
      s.enqueueOrReschedule
        (if request.allowExistingCurrentRun then .enqueueImmediate else .enqueueScheduled)
        request.jobId (micros now) (scheduleMicros request.scheduleAt) request.replaceMode
  | .reschedule jobId scheduleAt now =>
      s.enqueueOrReschedule .reschedule jobId (micros now) (scheduleMicros scheduleAt) .always
  | .operator op jobId now => s.operatorTransition op jobId (micros now)
  | .reserve config availableCapacity now leaseTokens =>
      if availableCapacity = 0 then (s, ["ok", "0"])
      else s.reserve (reserveArgs config availableCapacity now leaseTokens)
  | .heartbeat workerId jobId leaseToken now leaseDuration =>
      s.heartbeat jobId workerId leaseToken (micros now) (heartbeatDeadline now leaseDuration)
  | .ack workerId jobId leaseToken now => s.ack jobId workerId leaseToken (micros now)
  | .completeAndReschedule workerId jobId leaseToken scheduleAt now =>
      s.completeAndReschedule jobId workerId leaseToken (micros now) (scheduleMicros scheduleAt)
  | .failOrRetry request =>
      s.failOrRetry request.jobId request.workerId request.leaseToken (micros request.now)
        request.action (failureArgs request.retryPolicy)
  | .reapExpired now limit =>
      if limit = 0 then (s, ["ok", "0"]) else s.reapExpired (micros now) limit
  | .purgeFailedRead selector => (s, s.purgeFailedRead selector)
  | .purgeFailedDelete jobIds => (s.purgeFailedDelete jobIds, [])
  | .workersCleanup workerIds => (s.workersCleanup workerIds, [])

/-- The store after an operation. -/
def next (s : Store) (op : Op) : Store := (s.exec op).1

/-- The reply to an operation. -/
def reply (s : Store) (op : Op) : Reply := (s.exec op).2

/-- The store after a sequence of operations. -/
def run (s : Store) (ops : List Op) : Store := ops.foldl next s

@[simp]
theorem run_nil (s : Store) : s.run [] = s := rfl

@[simp]
theorem run_cons (s : Store) (op : Op) (ops : List Op) :
    s.run (op :: ops) = (s.next op).run ops := rfl

@[simp]
theorem run_append (s : Store) (first second : List Op) :
    s.run (first ++ second) = (s.run first).run second := List.foldl_append

end Store

/-- A job is enqueued and leased to the sample worker. -/
def sampleLeaseRun : List Op :=
  [.enqueue ⟨"job", none, .always, true⟩ (.ofSeconds 1),
    .reserve sampleConfig 1 (.ofSeconds 2) ["token"]]

/-- The ack that ends the lease of the sample run. -/
def sampleAck : Op := .ack "worker" "job" "token" (.ofSeconds 3)

end Redloop
