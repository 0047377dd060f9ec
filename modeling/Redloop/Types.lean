/-
# Queue types and worker configuration

The data that clients, workers and the store exchange. Times are counted in
nanoseconds: a timestamp lies in the range of the calendar library and a
duration has at most 64 bits of whole seconds, so both carry their bounds.
Retry policies and backoffs keep the widths of their fields.
-/

import Mathlib.Algebra.Order.Ring.Int
import Mathlib.Data.Int.Order.Basic
import Redloop.Data.Bytes

namespace Redloop

/-! ## Time -/

/-- The largest duration in nanoseconds. -/
def maxDurationNanos : ℕ := (2 ^ 64 - 1) * 1000000000 + 999999999

/-- A duration in nanoseconds. -/
abbrev Duration := {nanos : ℕ // nanos ≤ maxDurationNanos}

namespace Duration

/-- A whole number of milliseconds that fits into a duration. -/
def ofMillis (millis : ℕ) (hle : millis ≤ 18446744073709551615 := by decide) : Duration :=
  ⟨millis * 1000000, by unfold maxDurationNanos; omega⟩

/-- The empty duration. -/
def zero : Duration := ⟨0, Nat.zero_le _⟩

/-- Whole microseconds of a duration. -/
def asMicros (duration : Duration) : ℕ := duration.val / 1000

/-- Whole milliseconds of a duration. -/
def asMillis (duration : Duration) : ℕ := duration.val / 1000000

/-- Multiplication that stops at the largest duration. -/
def saturatingMul (duration : Duration) (factor : ℕ) : Duration :=
  ⟨min (duration.val * factor) maxDurationNanos, min_le_right _ _⟩

end Duration

/-- The first representable timestamp in nanoseconds. -/
def minTimestampNanos : ℤ := -8334601228800 * 1000000000

/-- The last representable timestamp in nanoseconds. -/
def maxTimestampNanos : ℤ := 8210266876799 * 1000000000 + 999999999

/-- A UTC timestamp in nanoseconds since the Unix epoch. -/
abbrev Timestamp := {nanos : ℤ // minTimestampNanos ≤ nanos ∧ nanos ≤ maxTimestampNanos}

/-- Whether a timestamp is before another is decided on their nanoseconds. -/
instance : DecidableLT Timestamp := fun first second =>
  inferInstanceAs (Decidable (first.val < second.val))

/-- A number of seconds since the epoch. -/
def Timestamp.ofSeconds (seconds : ℕ) (hle : seconds ≤ 8210266876799 := by decide) : Timestamp :=
  ⟨seconds * 1000000000, by unfold minTimestampNanos maxTimestampNanos; omega⟩

/-- The largest signed 64-bit integer. -/
def i64Max : ℤ := 2 ^ 63 - 1

/-- The smallest signed 64-bit integer. -/
def i64Min : ℤ := -2 ^ 63

/-- Whole microseconds since the epoch, rounded down. -/
def micros (timestamp : Timestamp) : ℤ := timestamp.val / 1000

/-- Whole microseconds of a duration, saturating at the 64-bit range. -/
def durationMicros (duration : Duration) : ℤ := min (duration.asMicros : ℤ) i64Max

theorem durationMicros_nonneg (duration : Duration) : 0 ≤ durationMicros duration := by
  unfold durationMicros i64Max
  omega

/-! ## Jobs -/

/-- Queue state for a job. -/
inductive JobState
  | ready
  | scheduled
  | leased
  | failed
  deriving DecidableEq

namespace JobState

def asStr : JobState → Bytes
  | ready => "ready"
  | scheduled => "scheduled"
  | leased => "leased"
  | failed => "failed"

def fromStr (value : Bytes) : Option JobState :=
  if value = utf8 "ready" then some ready
  else if value = utf8 "scheduled" then some scheduled
  else if value = utf8 "leased" then some leased
  else if value = utf8 "failed" then some failed
  else none

end JobState

/-- Worker outcome for a leased job. -/
inductive JobOutcome
  | complete
  | reschedule (scheduleAt : Option Timestamp)
  | fail (message : Bytes)
  deriving DecidableEq

/-- How a scheduled enqueue treats an existing waiting placement. -/
inductive ReplaceMode
  | always
  | ifEarlier
  | ifLater
  deriving DecidableEq

/-- What a worker asks of a failed attempt. -/
inductive FailureAction
  | retryable
  | terminal
  deriving DecidableEq

/-- Operator selector for failed-job purge. -/
inductive FailedSelector
  | jobId (jobId : Bytes)
  | olderThan (timestamp : Timestamp)
  | all
  deriving DecidableEq

/-! ## Configuration -/

/-- Backoff strategy for handler failures. -/
inductive Backoff
  | none
  | fixed (delayMs : UInt64)
  | exponential (initialDelayMs : UInt64) (multiplier : UInt32) (maxDelayMs : UInt64)
  deriving DecidableEq

/-- Retry policy applied per namespace by workers. -/
inductive RetryPolicy
  | never
  | count (maxRetries : UInt32) (backoff : Backoff)
  | infinite (backoff : Backoff)
  deriving DecidableEq

/-- Worker runtime configuration. -/
structure WorkerConfig where
  workerId : Bytes
  concurrency : UInt64
  retryPolicy : RetryPolicy
  leaseDuration : Duration
  heartbeatInterval : Duration
  reapInterval : Duration
  pollIntervalMin : Duration
  pollIntervalMax : Duration
  deriving DecidableEq

/-! ## Errors -/

/-- Structured invalid configuration kinds. -/
inductive InvalidConfigKind
  | concurrencyZero
  | leaseDurationZero
  | heartbeatIntervalZero
  | heartbeatNotShorterThanLease
  | reapIntervalZero
  | pollIntervalMinZero
  | pollIntervalRange
  | emptyRedisNodes
  | emptySentinelServiceName
  | retryPolicyMismatch
  deriving DecidableEq

/-- What the runtime asks of an error raised by the Redis client. -/
structure RedisError where
  isTimeout : Bool
  isConnectionRefusal : Bool
  isConnectionDropped : Bool
  deriving DecidableEq

/-- Error surface of the queue. -/
inductive Error
  | jobIdTooLong (length : ℕ)
  | invalidState (jobId : Bytes) (state : JobState)
  | notFound (jobId : Bytes)
  | leaseMismatch (jobId : Bytes)
  | invalidConfig (kind : InvalidConfigKind)
  | invalidCursor (cursor : Bytes)
  | invalidTimestamp (micros : ℤ)
  | invalidData (field : String)
  | redis (operation : String) (source : RedisError)
  | commandTimedOut (operation : String) (timeoutMs : ℕ)
  | workerTaskJoin
  deriving DecidableEq

/-- Whether a worker runtime should recover from an error and keep polling. -/
def Error.isRecoverableWorkerRuntime : Error → Bool
  | .commandTimedOut _ _ => true
  | .redis _ source =>
      source.isTimeout || source.isConnectionRefusal || source.isConnectionDropped
  | _ => false

/-- A computation that may fail succeeds when each of its parts does. -/
theorem bind_eq_ok_iff {α β : Type} {first : Except Error α} {next : α → Except Error β}
    {result : β} :
    (first >>= next) = .ok result ↔ ∃ value, first = .ok value ∧ next value = .ok result := by
  cases first <;> simp [bind, Except.bind]

/-- The checks a worker makes on its configuration before it starts. -/
def WorkerConfig.validate (config : WorkerConfig) : Except Error Unit :=
  if config.concurrency = 0 then .error (.invalidConfig .concurrencyZero)
  else if config.leaseDuration = Duration.zero then .error (.invalidConfig .leaseDurationZero)
  else if config.heartbeatInterval = Duration.zero then
    .error (.invalidConfig .heartbeatIntervalZero)
  else if config.leaseDuration ≤ config.heartbeatInterval then
    .error (.invalidConfig .heartbeatNotShorterThanLease)
  else if config.reapInterval = Duration.zero then .error (.invalidConfig .reapIntervalZero)
  else if config.pollIntervalMin = Duration.zero then
    .error (.invalidConfig .pollIntervalMinZero)
  else if config.pollIntervalMax < config.pollIntervalMin then
    .error (.invalidConfig .pollIntervalRange)
  else .ok ()

/-- What a valid configuration guarantees about its fields. -/
theorem WorkerConfig.of_validate_eq_ok {config : WorkerConfig}
    (hvalid : config.validate = .ok ()) :
    config.concurrency ≠ 0 ∧ config.leaseDuration ≠ Duration.zero ∧
      config.heartbeatInterval ≠ Duration.zero ∧
      config.heartbeatInterval < config.leaseDuration ∧
      config.reapInterval ≠ Duration.zero ∧ config.pollIntervalMin ≠ Duration.zero ∧
      config.pollIntervalMin ≤ config.pollIntervalMax := by
  unfold validate at hvalid
  split_ifs at hvalid with hconcurrency hlease hheartbeat hshorter hreap hmin hrange
  exact ⟨hconcurrency, hlease, hheartbeat, not_le.mp hshorter, hreap, hmin, not_lt.mp hrange⟩

/-- A valid configuration with one slot and one retry, for concrete runs. -/
def sampleConfig : WorkerConfig where
  workerId := "worker"
  concurrency := 1
  retryPolicy := .count 1 .none
  leaseDuration := .ofMillis 30000
  heartbeatInterval := .ofMillis 10000
  reapInterval := .ofMillis 5000
  pollIntervalMin := .ofMillis 100
  pollIntervalMax := .ofMillis 1000

/-! ## Requests and replies -/

/-- A request to enqueue one job. -/
structure EnqueueRequest where
  jobId : Bytes
  scheduleAt : Option Timestamp
  replaceMode : ReplaceMode
  allowExistingCurrentRun : Bool
  deriving DecidableEq

/-- A job leased to a worker, with the token of its lease. -/
structure ReservedJob where
  jobId : Bytes
  leaseToken : Bytes
  deriving DecidableEq

/-- What a reserve call hands to the worker. -/
structure ReserveBatch where
  jobs : List ReservedJob
  nextScheduleAt : Option Timestamp
  deriving DecidableEq

/-- Enqueue status classification. -/
inductive EnqueueStatus
  | created
  | unchanged
  | updated
  deriving DecidableEq

/-- Read an enqueue status. -/
def EnqueueStatus.fromStr (value : Bytes) : Option EnqueueStatus :=
  if value = utf8 "created" then some created
  else if value = utf8 "unchanged" then some unchanged
  else if value = utf8 "updated" then some updated
  else none

/-- Result of an enqueue mutation. -/
structure EnqueueResult where
  jobId : Bytes
  state : JobState
  status : EnqueueStatus
  deriving DecidableEq

/-- Result of a reschedule mutation. -/
structure RescheduleResult where
  jobId : Bytes
  state : JobState
  scheduleAt : Option Timestamp
  deriving DecidableEq

/-- Leased worker metadata for operator queries. -/
structure LeaseHolder where
  workerId : Bytes
  leaseToken : Bytes
  leasedUntil : Timestamp
  deriving DecidableEq

/-- What an operator query reports about a job. -/
structure JobRecord where
  jobId : Bytes
  state : JobState
  readyAt : Option Timestamp
  scheduleAt : Option Timestamp
  failureCount : ℕ
  leasedBy : Option LeaseHolder
  failedAt : Option Timestamp
  deriving DecidableEq

/-- A request to resolve a failed attempt. -/
structure FailureRequest where
  workerId : Bytes
  jobId : Bytes
  leaseToken : Bytes
  action : FailureAction
  retryPolicy : RetryPolicy
  now : Timestamp
  deriving DecidableEq

end Redloop
