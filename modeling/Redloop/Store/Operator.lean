/-
# Operator transitions

One script serves the six operator commands on a single job. The two force
commands on a leased job recover the holder from the lease record instead of
checking a token.
-/

import Redloop.Store.State

namespace Redloop

/-- The operations of the operator script. -/
inductive OperatorOp
  | cancel
  | requeue
  | retryNow
  | forceRetry
  | forceAck
  | forceFail
  deriving DecidableEq

namespace Store

/-- End a lease: the job leaves the leased set and its record is dropped, and
the holder's lease counter goes down. -/
def dropLease (s : Store) (jobId workerId : Bytes) : Store :=
  { s with
    leased := s.leased.erase jobId
    leaseMeta := Finmap.erase jobId s.leaseMeta
    workersLeases := Hash.decrement s.workersLeases workerId }

/-- Consume a rerun marker: a marked job becomes ready. -/
def rerunIfMarked (s : Store) (jobId : Bytes) (nowUs : ℤ) : Store :=
  if jobId ∈ s.rerun then
    { s with rerun := s.rerun.erase jobId, ready := s.ready.add jobId nowUs }
  else s

/-- The cancel branch of the script. -/
def cancel (s : Store) (jobId : Bytes) (state : JobState) : Store × Reply :=
  match state with
  | .scheduled =>
      ({ s with
          scheduled := s.scheduled.erase jobId
          failures := Finmap.erase jobId s.failures
          rerun := s.rerun.erase jobId }, ["ok"])
  | .failed =>
      ({ s with
          failed := s.failed.erase jobId
          failures := Finmap.erase jobId s.failures
          rerun := s.rerun.erase jobId }, ["ok"])
  | state => (s, Reply.invalidState state)

/-- Reactivate a failed job: it becomes ready with a fresh failure count. -/
def reactivate (s : Store) (jobId : Bytes) (nowUs : ℤ) : Store :=
  { s with
    failed := s.failed.erase jobId
    failures := Finmap.erase jobId s.failures
    rerun := s.rerun.erase jobId
    ready := s.ready.add jobId nowUs }

/-- The branch shared by requeue and retry_now. -/
def requeue (s : Store) (jobId : Bytes) (nowUs : ℤ) (state : JobState) : Store × Reply :=
  match state with
  | .leased => (s, Reply.invalidState .leased)
  | .ready => (s, ["ok"])
  | .scheduled =>
      ({ s with
          scheduled := s.scheduled.erase jobId
          rerun := s.rerun.erase jobId
          ready := s.ready.add jobId nowUs }, ["ok"])
  | .failed => (s.reactivate jobId nowUs, ["ok"])

/-- The force_retry branch of the script. -/
def forceRetry (s : Store) (jobId : Bytes) (nowUs : ℤ) (state : JobState) : Store × Reply :=
  if state ≠ .failed then (s, Reply.invalidState state)
  else (s.reactivate jobId nowUs, ["ok"])

/-- The force_ack branch, once the lease has been dropped. -/
def forceAck (s : Store) (jobId : Bytes) (nowUs : ℤ) : Store :=
  rerunIfMarked { s with failures := Finmap.erase jobId s.failures } jobId nowUs

/-- The force_fail branch, once the lease has been dropped. -/
def forceFail (s : Store) (jobId : Bytes) (nowUs : ℤ) : Store :=
  { s with
    rerun := s.rerun.erase jobId
    failures := Hash.incrBy s.failures jobId 1
    failed := s.failed.add jobId nowUs }

/-- The part shared by the force commands: find the holder of a leased job and
drop its lease, then run the command. -/
def forceLeased (s : Store) (jobId : Bytes) (state : JobState) (command : Store → Store) :
    Store × Reply :=
  if state ≠ .leased then (s, Reply.invalidState state)
  else
    match s.leaseMeta.lookup jobId with
    | none => (s, Reply.notFound)
    | some record =>
        match workerFromMeta record with
        | none => (s, Reply.notFound)
        | some workerId => (command (s.dropLease jobId workerId), ["ok"])

/-- The script `operator_transition`. -/
def operatorTransition (s : Store) (op : OperatorOp) (jobId : Bytes) (now : ℤ) :
    Store × Reply :=
  let nowUs := Double.ofInt now
  match (s.currentState jobId).1 with
  | none => (s, Reply.notFound)
  | some state =>
      match op with
      | .cancel => s.cancel jobId state
      | .requeue => s.requeue jobId nowUs state
      | .retryNow => s.requeue jobId nowUs state
      | .forceRetry => s.forceRetry jobId nowUs state
      | .forceAck => s.forceLeased jobId state fun s => s.forceAck jobId nowUs
      | .forceFail => s.forceLeased jobId state fun s => s.forceFail jobId nowUs

end Store

end Redloop
