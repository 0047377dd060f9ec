/-
# The store of one namespace

The Redis structures of one namespace, and the vocabulary the scripts share:
hash fields with their counter increment, the lookup of a job's current state,
and the reply texts. A hash counter is an integer, which is what the increment
command makes of its stored numeral.
-/

import Mathlib.Data.Finmap
import Redloop.Data.Double
import Redloop.Data.SortedSet
import Redloop.Store.Codec

namespace Redloop

/-- A Redis sorted set: members with integer scores. -/
abbrev ZSet := SortedSet ℤ Bytes

/-- A Redis hash: field names with values. -/
abbrev Hash (ν : Type) := Finmap fun _ : Bytes => ν

namespace Hash

variable {ν : Type}

theorem lookup_insert (hash : Hash ν) (field other : Bytes) (value : ν) :
    (Finmap.insert field value hash).lookup other =
      if other = field then some value else hash.lookup other := by
  split
  · next heq => rw [heq, Finmap.lookup_insert]
  · next hne => exact Finmap.lookup_insert_of_ne _ hne

theorem lookup_erase (hash : Hash ν) (field other : Bytes) :
    (Finmap.erase field hash).lookup other =
      if other = field then none else hash.lookup other := by
  split
  · next heq => rw [heq, Finmap.lookup_erase]
  · next hne => exact Finmap.lookup_erase_ne hne

/-- The value of a counter field. An absent field counts as zero. -/
def counter (hash : Hash ℤ) (field : Bytes) : ℤ := (hash.lookup field).getD 0

/-- Add to a counter field. -/
def incrBy (hash : Hash ℤ) (field : Bytes) (amount : ℤ) : Hash ℤ :=
  hash.insert field (hash.counter field + amount)

theorem lookup_incrBy (hash : Hash ℤ) (field other : Bytes) (amount : ℤ) :
    (incrBy hash field amount).lookup other =
      if other = field then some (hash.counter field + amount) else hash.lookup other :=
  lookup_insert _ _ _ _

/-- Lower a counter field by one and drop it once it is no longer positive. -/
def decrement (hash : Hash ℤ) (field : Bytes) : Hash ℤ :=
  if hash.counter field - 1 ≤ 0 then Finmap.erase field (incrBy hash field (-1))
  else incrBy hash field (-1)

end Hash

/-- The structures of one namespace. -/
structure Store where
  cfg : Hash Bytes
  failures : Hash ℤ
  ready : ZSet
  scheduled : ZSet
  leased : ZSet
  leaseMeta : Hash Bytes
  rerun : Finset Bytes
  failed : ZSet
  workersLastSeen : ZSet
  workersConfig : Hash Bytes
  workersLeases : Hash ℤ
  deriving DecidableEq

namespace Store

/-- The empty namespace. -/
def empty : Store := ⟨∅, ∅, ∅, ∅, ∅, ∅, ∅, ∅, ∅, ∅, ∅⟩

/-- The jobs the namespace knows: those placed in one of the four sets. -/
def Known (s : Store) (jobId : Bytes) : Prop :=
  (s.ready.score jobId).isSome ∨ (s.scheduled.score jobId).isSome ∨
    (s.leased.score jobId).isSome ∨ (s.failed.score jobId).isSome

instance (s : Store) (jobId : Bytes) : Decidable (s.Known jobId) := by
  unfold Known
  infer_instance

/-- The state and score the scripts find for a job, looking through the sets in
the order ready, scheduled, leased, failed. A job in none of them has score 0. -/
def currentState (s : Store) (jobId : Bytes) : Option JobState × ℤ :=
  match s.ready.score jobId with
  | some score => (some .ready, score)
  | none =>
      match s.scheduled.score jobId with
      | some score => (some .scheduled, score)
      | none =>
          match s.leased.score jobId with
          | some score => (some .leased, score)
          | none =>
              match s.failed.score jobId with
              | some score => (some .failed, score)
              | none => (none, 0)

/-- The lease check shared by heartbeat and the three completions: the stored
record is the expected one and the job is in the leased set. -/
def HoldsLease (s : Store) (jobId workerId leaseToken : Bytes) : Prop :=
  s.leaseMeta.lookup jobId = some (packMeta workerId leaseToken) ∧
    (s.leased.score jobId).isSome

instance (s : Store) (jobId workerId leaseToken : Bytes) :
    Decidable (s.HoldsLease jobId workerId leaseToken) := by
  unfold HoldsLease
  infer_instance

end Store

/-- What a script returns: an array of texts. -/
abbrev Reply := List Bytes

/-- Whether a reply reports success. -/
def Reply.isOk (reply : Reply) : Bool := reply.head? = some (utf8 "ok")

@[simp]
theorem Reply.isOk_ok (rest : List Bytes) : Reply.isOk (utf8 "ok" :: rest) = true := by
  simp [Reply.isOk]

@[simp]
theorem Reply.isOk_err (rest : List Bytes) : Reply.isOk (utf8 "err" :: rest) = false := by
  have hne : utf8 "err" ≠ utf8 "ok" := by decide
  simp [Reply.isOk, hne]

namespace Reply

/-- The reply to a heartbeat or completion that does not hold the lease. -/
def leaseMismatch : Reply := ["err", "lease_mismatch"]

/-- The reply for a job in none of the four sets. -/
def notFound : Reply := ["err", "not_found"]

/-- The reply for a job whose state does not admit the operation. -/
def invalidState (state : JobState) : Reply := ["err", "invalid_state", state.asStr]

@[simp]
theorem isOk_leaseMismatch : leaseMismatch.isOk = false := isOk_err _

@[simp]
theorem isOk_notFound : notFound.isOk = false := isOk_err _

@[simp]
theorem isOk_invalidState (state : JobState) : (invalidState state).isOk = false := isOk_err _

end Reply

end Redloop
