/-
# Loading one job

A job is loaded by six reads that are sent together without a transaction: its score
in ready, leased, failed and scheduled, its failure count and its lease record. The
first set that has the job decides what is reported. Reading the lease record slices
it at byte offsets, and a slice that splits a character panics; such a load returns
nothing at all.
-/

import Redloop.Data.Utf8
import Redloop.Store.Decode

namespace Redloop

/-! ## Lease records -/

/-- Read a lease record: a worker id and a lease token. -/
def parseLeaseMeta (record : Bytes) : Option (Except Error (Bytes × Bytes)) :=
  match record.dropWhile (· ≠ colon) with
  | [] => some (.error (.invalidData "lease_meta.delimiter"))
  | _ :: rest =>
      match parseUnsigned u64Max (record.takeWhile (· ≠ colon)) with
      | none => some (.error (.invalidData "lease_meta.length"))
      | some length =>
          if rest.length < length then some (.error (.invalidData "lease_meta.worker_id"))
          else (splitAtByte rest length).map Except.ok

/-- A lease record is read back when the worker id has a length of 64 bits and the token
starts with a character, as every text does. -/
theorem parseLeaseMeta_packMeta {workerId leaseToken : Bytes}
    (hlength : workerId.length ≤ u64Max) (htoken : leaseToken.head?.all (StartsCharacter ·)) :
    parseLeaseMeta (packMeta workerId leaseToken) = some (.ok (workerId, leaseToken)) := by
  unfold parseLeaseMeta
  rw [dropWhile_packMeta, takeWhile_packMeta]
  dsimp only
  rw [parseUnsigned_decimal, if_pos hlength]
  dsimp only
  rw [if_neg (by simp), splitAtByte_append htoken]
  rfl

/-! ## The reads -/

/-- The replies to the six reads. -/
structure JobLookup where
  readyAt : Option Bytes
  leasedUntil : Option Bytes
  failedAt : Option Bytes
  scheduleAt : Option Bytes
  failureCount : Option ℕ
  leaseMeta : Option Bytes
  deriving DecidableEq

/-- The text of a score. -/
def scoreText (set : ZSet) (jobId : Bytes) : Option Bytes :=
  (set.score jobId).map (generalText 17)

/-- Read the failure count of a job. -/
def decodeFailureCount (count : Option ℤ) : Except Error (Option ℕ) :=
  match count with
  | none => .ok none
  | some count =>
      match parseUnsigned u32Max (decimalInt count) with
      | some count => .ok (some count)
      | none => .error (decodeError "get_job")

/-- The operations that other clients run between two of the reads. -/
structure BetweenReads where
  afterReady : List Op
  afterLeased : List Op
  afterFailed : List Op
  afterScheduled : List Op
  afterFailures : List Op

namespace BetweenReads

/-- The reads follow each other without an operation in between. -/
def none : BetweenReads := ⟨[], [], [], [], []⟩

/-- All the operations, in order. -/
def ops (between : BetweenReads) : List Op :=
  between.afterReady ++ between.afterLeased ++ between.afterFailed ++ between.afterScheduled ++
    between.afterFailures

end BetweenReads

namespace Store

variable (s : Store) (between : BetweenReads)

/-- The store that the second read finds. -/
def atLeased : Store := s.run between.afterReady

/-- The store that the third read finds. -/
def atFailed : Store := (s.atLeased between).run between.afterLeased

/-- The store that the fourth read finds. -/
def atScheduled : Store := (s.atFailed between).run between.afterFailed

/-- The store that the fifth read finds. -/
def atFailures : Store := (s.atScheduled between).run between.afterScheduled

/-- The store that the sixth read finds. -/
def atLeaseMeta : Store := (s.atFailures between).run between.afterFailures

/-- The six reads of a load. -/
def jobLookup (jobId : Bytes) : Except Error JobLookup := do
  let failureCount ← decodeFailureCount ((s.atFailures between).failures.lookup jobId)
  pure
    { readyAt := scoreText s.ready jobId
      leasedUntil := scoreText (s.atLeased between).leased jobId
      failedAt := scoreText (s.atFailed between).failed jobId
      scheduleAt := scoreText (s.atScheduled between).scheduled jobId
      failureCount := failureCount
      leaseMeta := (s.atLeaseMeta between).leaseMeta.lookup jobId }

end Store

/-! ## The result -/

/-- A time that was read as a score. -/
def parseTime (field : String) (value : Bytes) : Except Error Timestamp := do
  let micros ← parseI64 field value
  fromMicros micros

/-- The record of a leased job. -/
def leasedRecord (jobId : Bytes) (failureCount : ℕ) (leasedUntil : Bytes)
    (holder : Bytes × Bytes) : Except Error (Option JobRecord) := do
  let leasedUntil ← parseTime "leased_until" leasedUntil
  pure (some
    ⟨jobId, .leased, none, none, failureCount, some ⟨holder.1, holder.2, leasedUntil⟩, none⟩)

/-- What the replies say about the job. A load that panics has no result. -/
def JobLookup.record (lookup : JobLookup) (jobId : Bytes) :
    Option (Except Error (Option JobRecord)) :=
  let failureCount := lookup.failureCount.getD 0
  match lookup.readyAt, lookup.leasedUntil, lookup.failedAt, lookup.scheduleAt with
  | some readyAt, _, _, _ => some do
      let readyAt ← parseTime "ready_at" readyAt
      pure (some ⟨jobId, .ready, some readyAt, none, failureCount, none, none⟩)
  | none, some leasedUntil, _, _ =>
      match lookup.leaseMeta with
      | none => some (.error (.invalidData "lease_meta"))
      | some record =>
          (parseLeaseMeta record).map fun holder => do
            let holder ← holder
            leasedRecord jobId failureCount leasedUntil holder
  | none, none, some failedAt, _ => some do
      let failedAt ← parseTime "failed_at" failedAt
      pure (some ⟨jobId, .failed, none, none, failureCount, none, some failedAt⟩)
  | none, none, none, some scheduleAt => some do
      let scheduleAt ← parseTime "schedule_at" scheduleAt
      pure (some ⟨jobId, .scheduled, none, some scheduleAt, failureCount, none, none⟩)
  | none, none, none, none => some (.ok none)

namespace Store

/-- Load a job, with the operations that other clients run between the reads. -/
def getJobDuring (s : Store) (between : BetweenReads) (jobId : Bytes) :
    Option (Except Error (Option JobRecord)) :=
  match s.jobLookup between jobId with
  | .error error => some (.error error)
  | .ok lookup => lookup.record jobId

/-- Load a job from a store that nobody else changes meanwhile. -/
def getJob (s : Store) (jobId : Bytes) : Option (Except Error (Option JobRecord)) :=
  s.getJobDuring .none jobId

end Store

/-! ## What can be read -/

/-- The time of a score that can be read. -/
def timeOfScore (score : ℤ) (hfits : score.natAbs < 10 ^ 17) : Timestamp :=
  ⟨score * 1000, by unfold minTimestampNanos maxTimestampNanos; omega⟩

@[simp]
theorem micros_timeOfScore (score : ℤ) (hfits : score.natAbs < 10 ^ 17) :
    micros (timeOfScore score hfits) = score :=
  Int.mul_ediv_cancel score (by decide)

/-- A score of at most 17 digits is in the range of times. -/
theorem fromMicros_eq_ok {score : ℤ} (hfits : score.natAbs < 10 ^ 17) :
    fromMicros score = .ok (timeOfScore score hfits) :=
  dif_pos (timeOfScore score hfits).property

/-- A score is read as a time when it has at most 17 digits. -/
theorem parseTime_scoreText (field : String) (score : ℤ) :
    parseTime field (generalText 17 score) =
      if hfits : score.natAbs < 10 ^ 17 then .ok (timeOfScore score hfits)
      else .error (.invalidData field) := by
  unfold parseTime
  rw [parseI64_scoreText]
  split_ifs with hfits
  · exact fromMicros_eq_ok hfits
  · rfl

theorem decodeFailureCount_eq (count : Option ℤ) :
    decodeFailureCount count = decodeCount u32Max "get_job" count := by
  cases count <;> rfl

/-- A failure count can be read when it is an unsigned 32-bit integer. -/
theorem exists_decodeFailureCount_iff {count : Option ℤ} :
    (∃ decoded, decodeFailureCount count = .ok decoded) ↔
      ∀ value, count = some value → 0 ≤ value ∧ value ≤ u32Max := by
  simp only [decodeFailureCount_eq, decodeCount_eq_ok_iff, exists_eq_left]

end Redloop
