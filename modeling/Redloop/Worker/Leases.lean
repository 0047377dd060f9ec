/-
# Lease bookkeeping of a worker

The records a worker keeps for its lease attempts, and the pure helpers of its
loop: poll delays, the runtime backoff, and the store call that resolves a
finished attempt. An attempt is known by its job and its token together. Both
maps store a record under its own key.
-/

import Mathlib.Data.Finmap
import Redloop.Store.Exec

namespace Redloop

/-! ## Attempts -/

/-- The key of a lease attempt. -/
structure LeaseAttemptKey where
  jobId : Bytes
  leaseToken : Bytes
  deriving DecidableEq

/-- The key of a reserved job. -/
def ReservedJob.attemptKey (lease : ReservedJob) : LeaseAttemptKey :=
  ⟨lease.jobId, lease.leaseToken⟩

/-- A lease attempt the worker counts against its concurrency. -/
structure ActiveLease where
  jobId : Bytes
  leaseToken : Bytes
  heartbeatEnabled : Bool
  deriving DecidableEq

namespace ActiveLease

def new (jobId leaseToken : Bytes) : ActiveLease := ⟨jobId, leaseToken, true⟩

def attemptKey (lease : ActiveLease) : LeaseAttemptKey := ⟨lease.jobId, lease.leaseToken⟩

def disableHeartbeat (lease : ActiveLease) : ActiveLease :=
  { lease with heartbeatEnabled := false }

end ActiveLease

/-- What a handler returns. -/
abbrev HandlerResult := Except Bytes JobOutcome

/-- A lease attempt whose handler has returned. -/
structure CompletedLease where
  jobId : Bytes
  leaseToken : Bytes
  result : HandlerResult
  deriving DecidableEq

def CompletedLease.attemptKey (completed : CompletedLease) : LeaseAttemptKey :=
  ⟨completed.jobId, completed.leaseToken⟩

/-- The active attempts by key. -/
abbrev ActiveLeases :=
  Finmap fun key : LeaseAttemptKey => {lease : ActiveLease // lease.attemptKey = key}

/-- The completed attempts that are not resolved, by key. -/
abbrev PendingCompleted :=
  Finmap fun key : LeaseAttemptKey => {completed : CompletedLease // completed.attemptKey = key}

namespace ActiveLeases

/-- Insert a lease under its key. -/
def add (active : ActiveLeases) (lease : ActiveLease) : ActiveLeases :=
  Finmap.insert lease.attemptKey ⟨lease, rfl⟩ active

/-- Insert a reserved job. -/
def addReserved (active : ActiveLeases) (job : ReservedJob) : ActiveLeases :=
  active.add (.new job.jobId job.leaseToken)

/-- Stop heartbeating an attempt that is still active. -/
def disableHeartbeat (active : ActiveLeases) (key : LeaseAttemptKey) : ActiveLeases :=
  match active.lookup key with
  | some lease => Finmap.insert key ⟨lease.val.disableHeartbeat, lease.property⟩ active
  | none => active

/-- Whether an attempt is active and heartbeated. -/
def HeartbeatEnabled (active : ActiveLeases) (key : LeaseAttemptKey) : Prop :=
  ∃ lease ∈ active.lookup key, lease.val.heartbeatEnabled

instance (active : ActiveLeases) (key : LeaseAttemptKey) :
    Decidable (active.HeartbeatEnabled key) :=
  inferInstanceAs (Decidable (∃ lease ∈ active.lookup key, lease.val.heartbeatEnabled))

/-- The attempts a heartbeat round visits. -/
def heartbeatKeys (active : ActiveLeases) : Finset LeaseAttemptKey :=
  active.keys.filter active.HeartbeatEnabled

/-- The number of active attempts. -/
def len (active : ActiveLeases) : ℕ := active.keys.card

variable {active : ActiveLeases} {lease : ActiveLease} {key other : LeaseAttemptKey}

@[simp]
theorem keys_add : (active.add lease).keys = insert lease.attemptKey active.keys := by
  ext other
  simp [add, Finmap.mem_keys]

theorem lookup_add_of_ne (hne : key ≠ lease.attemptKey) :
    (active.add lease).lookup key = active.lookup key :=
  Finmap.lookup_insert_of_ne _ hne

@[simp]
theorem keys_disableHeartbeat : (active.disableHeartbeat key).keys = active.keys := by
  unfold disableHeartbeat
  split
  · next lease hlookup =>
      have hmem := Finmap.mem_of_lookup_eq_some hlookup
      ext other
      simp only [Finmap.mem_keys, Finmap.mem_insert, or_iff_right_iff_imp]
      rintro rfl
      exact hmem
  · rfl

theorem lookup_disableHeartbeat_of_ne (hne : other ≠ key) :
    (active.disableHeartbeat key).lookup other = active.lookup other := by
  unfold disableHeartbeat
  split
  · exact Finmap.lookup_insert_of_ne _ hne
  · rfl

/-- Other reserved jobs leave an attempt alone. -/
theorem lookup_foldl_addReserved_of_ne {jobs : List ReservedJob}
    (hne : ∀ job ∈ jobs, job.attemptKey ≠ key) :
    (jobs.foldl addReserved active).lookup key = active.lookup key := by
  induction jobs generalizing active with
  | nil => rfl
  | cons job rest ih =>
      rw [List.foldl_cons, ih fun other hmem => hne other (List.mem_cons_of_mem _ hmem)]
      exact lookup_add_of_ne (hne job List.mem_cons_self).symm

/-- Inserting reserved jobs keeps the active attempts. -/
theorem mem_foldl_addReserved {jobs : List ReservedJob} (hmem : key ∈ active) :
    key ∈ jobs.foldl addReserved active := by
  induction jobs generalizing active with
  | nil => exact hmem
  | cons job rest ih => exact ih (Finmap.mem_insert.mpr (Or.inr hmem))

/-- Inserting reserved jobs makes their attempts active. -/
theorem mem_foldl_addReserved_self {jobs : List ReservedJob} {job : ReservedJob}
    (hmem : job ∈ jobs) : job.attemptKey ∈ jobs.foldl addReserved active := by
  induction jobs generalizing active with
  | nil => cases hmem
  | cons first rest ih =>
      rcases List.mem_cons.mp hmem with rfl | hrest
      · have hadded : job.attemptKey ∈ active.addReserved job :=
          Finmap.mem_insert.mpr (Or.inl rfl)
        rw [List.foldl_cons]
        exact mem_foldl_addReserved hadded
      · exact ih hrest

/-- Dropping an attempt starts no heartbeat. -/
theorem HeartbeatEnabled.of_erase (henabled : HeartbeatEnabled (Finmap.erase other active) key) :
    active.HeartbeatEnabled key := by
  obtain ⟨lease, hlease, hon⟩ := henabled
  by_cases hkey : key = other
  · subst hkey
    simp [Finmap.lookup_erase] at hlease
  · rw [Finmap.lookup_erase_ne hkey] at hlease
    exact ⟨lease, hlease, hon⟩

/-- A disabled attempt is no longer heartbeated. -/
theorem not_heartbeatEnabled_disableHeartbeat :
    ¬ (active.disableHeartbeat key).HeartbeatEnabled key := by
  rintro ⟨lease, hlease, henabled⟩
  unfold disableHeartbeat at hlease
  split at hlease
  · rw [Finmap.lookup_insert] at hlease
    cases hlease
    cases henabled
  · next hlookup => simp [hlookup] at hlease

/-- Disabling an attempt starts no heartbeat. -/
theorem HeartbeatEnabled.of_disableHeartbeat
    (henabled : (active.disableHeartbeat other).HeartbeatEnabled key) :
    active.HeartbeatEnabled key := by
  by_cases hkey : key = other
  · exact absurd (hkey ▸ henabled) not_heartbeatEnabled_disableHeartbeat
  · obtain ⟨lease, hlease, hon⟩ := henabled
    rw [lookup_disableHeartbeat_of_ne hkey] at hlease
    exact ⟨lease, hlease, hon⟩

end ActiveLeases

namespace PendingCompleted

variable {pending : PendingCompleted} {completed : CompletedLease} {key other : LeaseAttemptKey}

/-- Insert a completed attempt under its key. -/
def add (pending : PendingCompleted) (completed : CompletedLease) : PendingCompleted :=
  Finmap.insert completed.attemptKey ⟨completed, rfl⟩ pending

/-- The completed attempt under a key. -/
def get (pending : PendingCompleted) (key : LeaseAttemptKey) : Option CompletedLease :=
  (pending.lookup key).map Subtype.val

@[simp]
theorem keys_add : (pending.add completed).keys = insert completed.attemptKey pending.keys := by
  ext other
  simp [add, Finmap.mem_keys]

theorem get_add :
    (pending.add completed).get key =
      if key = completed.attemptKey then some completed else pending.get key := by
  unfold get
  split_ifs with hkey
  · subst hkey
    rw [add, Finmap.lookup_insert]
    rfl
  · rw [add, Finmap.lookup_insert_of_ne _ hkey]

theorem get_erase :
    get (Finmap.erase other pending) key = if key = other then none else pending.get key := by
  unfold get
  split_ifs with hkey
  · rw [hkey, Finmap.lookup_erase]
    rfl
  · rw [Finmap.lookup_erase_ne hkey]

/-- A completed attempt is stored under its own key. -/
theorem of_get_eq_some (hget : pending.get key = some completed) :
    completed.attemptKey = key ∧ key ∈ pending.keys := by
  obtain ⟨stored, hlookup, rfl⟩ := Option.map_eq_some_iff.mp hget
  exact ⟨stored.property, Finmap.mem_keys.mpr (Finmap.mem_of_lookup_eq_some hlookup)⟩

end PendingCompleted

/-- Iterating a map visits each of its keys once, in no particular order. -/
def Enumerates (order : List LeaseAttemptKey) (keys : Finset LeaseAttemptKey) : Prop :=
  order.Nodup ∧ order.toFinset = keys

instance (order : List LeaseAttemptKey) (keys : Finset LeaseAttemptKey) :
    Decidable (Enumerates order keys) :=
  inferInstanceAs (Decidable (_ ∧ _))

/-! ## Delays -/

/-- The poll delay doubles up to a maximum. -/
def nextPollDelay (current max : Duration) : Duration := min (current.saturatingMul 2) max

/-- The time until a later timestamp. -/
def Timestamp.durationUntil (later now : Timestamp) : Duration :=
  ⟨(later.val - now.val).toNat, by
    have hlater := later.property
    have hnow := now.property
    unfold minTimestampNanos maxTimestampNanos at *
    unfold maxDurationNanos
    omega⟩

/-- How long to sleep before the next reserve: the poll delay, or less when a
scheduled job comes due before. -/
def sleepDuration (now : Timestamp) (pollDelay : Duration) (nextScheduleAt : Option Timestamp) :
    Duration :=
  match nextScheduleAt with
  | some scheduleAt =>
      if now < scheduleAt then min (scheduleAt.durationUntil now) pollDelay else pollDelay
  | none => pollDelay

/-! ## Runtime backoff -/

/-- An instant of the monotonic clock in nanoseconds. -/
abbrev Instant := ℕ

/-- The last instant the monotonic clock can represent. -/
def maxInstant : Instant := (2 ^ 63 - 1) * 1000000000 + 999999999

/-- What the clocks read at one event. -/
structure Moment where
  instant : Instant
  now : Timestamp
  deriving DecidableEq

/-- The end of a backoff, or the current instant when the end is out of range. -/
def runtimeBackoffDeadline (instant : Instant) (duration : Duration) : Instant :=
  if instant + duration.val ≤ maxInstant then instant + duration.val else instant

/-- Whether a backoff is over. -/
def runtimeBackoffReady (instant : Instant) (deadline : Option Instant) : Bool :=
  match deadline with
  | some deadline => deadline ≤ instant
  | none => true

/-- What is left of a backoff. -/
def runtimeBackoffRemaining (instant : Instant) (deadline : Option Instant) : Duration :=
  match deadline with
  | some deadline => ⟨min (deadline - instant) maxDurationNanos, min_le_right _ _⟩
  | none => Duration.zero

/-! ## Resolving a completed attempt -/

/-- The store call for the result of a handler. -/
def resolveCompleted (config : WorkerConfig) (now : Timestamp) (completed : CompletedLease) : Op :=
  match completed.result with
  | .ok .complete => .ack config.workerId completed.jobId completed.leaseToken now
  | .ok (.reschedule scheduleAt) =>
      .completeAndReschedule config.workerId completed.jobId completed.leaseToken scheduleAt now
  | .ok (.fail _) =>
      .failOrRetry ⟨config.workerId, completed.jobId, completed.leaseToken, .terminal,
        config.retryPolicy, now⟩
  | .error _ =>
      .failOrRetry ⟨config.workerId, completed.jobId, completed.leaseToken, .retryable,
        config.retryPolicy, now⟩

end Redloop
