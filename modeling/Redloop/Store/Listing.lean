/-
# Listing workers and failed jobs

The workers of a namespace are listed after a pruning: when they were last seen, their
registration records and their lease counts, in three round trips. A registration record
that cannot be read ends the listing. Failed jobs are listed in pages: one row more than
the page is read, in order to see whether there is a next page, and the failure counts of
the page come from a second round trip.
-/

import Redloop.Store.GetJob
import Redloop.Store.Workers

namespace Redloop

/-! ## Workers -/

/-- Worker inspection record. -/
structure WorkerInfo where
  workerId : Bytes
  concurrency : ℕ
  leasedCount : ℕ
  lastHeartbeatAt : Timestamp
  deriving DecidableEq

/-- What the reads say about the workers. A worker without a registration record is left
out, and one without a lease count has no leases. -/
def workerInfos (configs : Hash Bytes) :
    List ((Bytes × ℤ) × Option ℕ) → Except Error (List WorkerInfo)
  | [] => .ok []
  | ((workerId, lastSeen), leasedCount) :: rest =>
      match configs.lookup workerId with
      | none => workerInfos configs rest
      | some record => do
          let parsed ← parseWorkerConfigRecord record
          let lastHeartbeatAt ← fromMicros lastSeen
          let others ← workerInfos configs rest
          pure (⟨workerId, parsed.concurrency, leasedCount.getD 0, lastHeartbeatAt⟩ :: others)

/-- The operations that other clients run between the round trips of a listing. -/
structure BetweenListing where
  /-- Between the two reads of the pruning. -/
  betweenReads : List Op
  /-- Before the delete transaction of the pruning. -/
  beforeDelete : List Op
  /-- After the pruning. -/
  afterPruning : List Op
  /-- After the workers are read. -/
  afterSeen : List Op
  /-- After the registration records are read. -/
  afterConfigs : List Op

namespace BetweenListing

/-- The round trips follow each other without an operation in between. -/
def none : BetweenListing := ⟨[], [], [], [], []⟩

end BetweenListing

namespace Store

variable (s : Store) (between : BetweenListing) (now : Timestamp)

/-- The store in which the workers are read. -/
def atSeen : Store :=
  (s.pruneStaleWorkers now between.betweenReads between.beforeDelete).run between.afterPruning

/-- The store in which the registration records are read. -/
def atConfigs : Store := (s.atSeen between now).run between.afterSeen

/-- The store in which the lease counts are read. -/
def atLeases : Store := (s.atConfigs between now).run between.afterConfigs

/-- List the workers, with the operations that other clients run meanwhile. -/
def listWorkersDuring : Except Error (List WorkerInfo) := do
  let _ ← s.staleWorkers (s.run between.betweenReads) now
  let workers ← readScores "list_workers" (s.atSeen between now).workersLastSeen.entries
  let leaseCounts ← hmget u64Max "workers_leases_hmget" (s.atLeases between now).workersLeases
    (workers.map Prod.fst)
  workerInfos (s.atConfigs between now).workersConfig (workers.zip leaseCounts)

/-- List the workers of a store that nobody else changes meanwhile. -/
def listWorkers : Except Error (List WorkerInfo) := s.listWorkersDuring .none now

end Store

/-! ## Failed jobs -/

/-- Failed-job listing query. -/
structure FailedJobsQuery where
  cursor : Option Bytes
  limit : UInt64
  deriving DecidableEq

/-- Failed-job page. -/
structure FailedJobsPage where
  jobs : List JobRecord
  nextCursor : Option Bytes
  deriving DecidableEq

/-- Read a cursor. -/
def parseCursor (cursor : Bytes) : Except Error UInt64 :=
  match parseUnsigned u64Max cursor with
  | some offset => .ok (UInt64.ofNat offset)
  | none => .error (.invalidCursor cursor)

/-- The offset of a query. The first page has no cursor. -/
def FailedJobsQuery.offset (query : FailedJobsQuery) : Except Error UInt64 :=
  match query.cursor with
  | none => pure 0
  | some cursor => parseCursor cursor

/-- The entries of a sorted set from one index to another. -/
def zrange (set : ZSet) (start stop : ℕ) : List (ℤ ×ₗ Bytes) :=
  (set.entries.take (stop + 1)).drop start

/-- The record of a failed job. A time that is out of range is shown as the epoch. -/
def failedRecord (row : Bytes × ℤ) (failureCount : Option ℕ) : JobRecord where
  jobId := row.1
  state := .failed
  readyAt := none
  scheduleAt := none
  failureCount := failureCount.getD 0
  leasedBy := none
  failedAt := some ((fromMicros row.2).toOption.getD ⟨0, by decide⟩)

namespace Store

/-- Read the rows of failed jobs from one index to another. An index that is no signed
64-bit integer is refused. -/
def failedRows (s : Store) (start stop : UInt64) : Except Error (List (Bytes × ℤ)) :=
  if i64Max < start.toNat ∨ i64Max < stop.toNat then .error (decodeError "list_failed")
  else readScores "list_failed" (zrange s.failed start.toNat stop.toNat)

/-- List a page of failed jobs, from the store in which the failed jobs are read and the one
in which their failure counts are read. -/
def listFailed (failed counted : Store) (query : FailedJobsQuery) :
    Except Error FailedJobsPage := do
  let offset ← query.offset
  if query.limit = 0 then pure ⟨[], none⟩
  else
    let stop := offset + query.limit
    let rows ← failed.failedRows offset stop
    let listed := rows.take query.limit.toNat
    let counts ← hmget u32Max "failed_hmget" counted.failures (listed.map Prod.fst)
    pure
      { jobs := listed.zipWith failedRecord counts
        nextCursor :=
          if query.limit.toNat < rows.length then some (decimal stop.toNat) else none }

end Store

end Redloop
