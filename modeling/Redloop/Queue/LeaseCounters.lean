/-
# Worker lease counters

The namespace counts the leases of each worker: one up for every lease a reserve
grants and one down for every lease that ends, where a counter that is no longer
positive is dropped. A counter is compared with the leased jobs whose lease record
names the worker. It never exceeds their number, and it is that number as long as
no pruning has dropped it while the worker held a lease.
-/

import Mathlib.Data.Finset.Card
import Redloop.Queue.Fencing
import Redloop.Queue.LeaseMoves

namespace Redloop

/-! ## Tallies -/

/-- How a stored counter relates to the number of things it counts: it is positive, at
most that number, and that number where it has been exact. An absent counter counts
as zero. -/
structure Tally (count : Option ℤ) (held : ℕ) (exact : Prop) : Prop where
  positive : ∀ value, count = some value → 0 < value
  le : count.getD 0 ≤ held
  eq : exact → count.getD 0 = held

namespace Tally

variable {count : Option ℤ} {held : ℕ} {exact : Prop}

theorem nonneg (htally : Tally count held exact) : 0 ≤ count.getD 0 := by
  cases hcount : count with
  | none => exact le_rfl
  | some value => exact (htally.positive value hcount).le

/-- Counting one more. -/
theorem increment (htally : Tally count held exact) :
    Tally (some (count.getD 0 + 1)) (held + 1) exact := by
  have hnonneg := htally.nonneg
  have hle := htally.le
  refine ⟨fun value hvalue => ?_, ?_, fun hexact => ?_⟩
  · cases hvalue
    omega
  · simpa using hle
  · simpa using htally.eq hexact

/-- Counting one less. A counter that reaches zero is dropped. -/
theorem decrement (htally : Tally count (held + 1) exact) :
    Tally (if count.getD 0 - 1 ≤ 0 then none else some (count.getD 0 - 1)) held exact := by
  have hle := htally.le
  have heq := htally.eq
  split_ifs with hzero
  · refine ⟨by simp, by simp, fun hexact => ?_⟩
    have hcount := heq hexact
    simp only [Option.getD_none]
    omega
  · refine ⟨fun value hvalue => ?_, ?_, fun hexact => ?_⟩
    · cases hvalue
      omega
    · simp only [Option.getD_some]
      omega
    · have hcount := heq hexact
      simp only [Option.getD_some]
      omega

/-- Dropping a counter keeps it exact when there was nothing to count. -/
theorem drop (htally : Tally count held exact) :
    Tally none held (exact ∧ (count.isSome → held = 0)) := by
  refine ⟨by simp, by simp, fun ⟨hexact, hnothing⟩ => ?_⟩
  cases hcount : count with
  | none => simpa [hcount] using htally.eq hexact
  | some value => simp [hnothing (by simp [hcount])]

end Tally

/-- A counter field after one decrement. -/
theorem Hash.lookup_decrement (hash : Hash ℤ) (field other : Bytes) :
    (decrement hash field).lookup other =
      if other = field then
        if hash.counter field - 1 ≤ 0 then none else some (hash.counter field - 1)
      else hash.lookup other := by
  unfold decrement
  by_cases hother : other = field
  · subst hother
    rw [if_pos rfl]
    split_ifs
    · exact Finmap.lookup_erase _ _
    · rw [lookup_incrBy, if_pos rfl, ← sub_eq_add_neg]
  · rw [if_neg hother]
    split_ifs
    · rw [lookup_erase, if_neg hother, lookup_incrBy, if_neg hother]
    · rw [lookup_incrBy, if_neg hother]

/-! ## The jobs a worker holds -/

namespace Store

variable {s s' : Store} {jobs : Bytes → Job} {workerId jobId holder : Bytes} {exact : Prop}

/-- The leased jobs whose lease record names a worker. -/
def heldJobs (s : Store) (workerId : Bytes) : Finset Bytes :=
  s.leased.members.filter fun jobId =>
    (s.leaseMeta.lookup jobId).bind workerFromMeta = some workerId

theorem mem_heldJobs :
    jobId ∈ s.heldJobs workerId ↔ (s.leased.score jobId).isSome ∧
      (s.leaseMeta.lookup jobId).bind workerFromMeta = some workerId := by
  rw [heldJobs, Finset.mem_filter, SortedSet.mem_members]

/-- A new lease is held by its worker. -/
theorem heldJobs_of_granted (workerId : Bytes) {lease : GrantedLease}
    (hnew : s.leased.score lease.jobId = none)
    (hleased : s'.leased = s.leased.add lease.jobId lease.deadline)
    (hmeta : s'.leaseMeta =
      Finmap.insert lease.jobId (packMeta holder lease.leaseToken) s.leaseMeta) :
    lease.jobId ∉ s.heldJobs workerId ∧ s'.heldJobs workerId =
      if workerId = holder then insert lease.jobId (s.heldJobs workerId)
      else s.heldJobs workerId := by
  refine ⟨by simp [mem_heldJobs, hnew], ?_⟩
  ext jobId
  have hheld : jobId ∈ s'.heldJobs workerId ↔
      jobId = lease.jobId ∧ workerId = holder ∨ jobId ∈ s.heldJobs workerId := by
    simp only [mem_heldJobs, hleased, hmeta, SortedSet.score_add, Hash.lookup_insert]
    by_cases hjob : jobId = lease.jobId
    · simp [hjob, hnew, eq_comm]
    · simp [hjob]
  rw [hheld]
  split_ifs with hholder <;> simp [hholder]

/-- A lease that ends is not held any more. -/
theorem heldJobs_of_ended (workerId : Bytes) {leaseToken : Bytes}
    (hrecord : s.leaseMeta.lookup jobId = some (packMeta holder leaseToken))
    (hheld : (s.leased.score jobId).isSome) (hleased : s'.leased = s.leased.erase jobId)
    (hmeta : s'.leaseMeta = Finmap.erase jobId s.leaseMeta) :
    (jobId ∈ s.heldJobs workerId ↔ workerId = holder) ∧
      s'.heldJobs workerId = (s.heldJobs workerId).erase jobId := by
  constructor
  · rw [mem_heldJobs, hrecord, Option.bind_some, workerFromMeta_packMeta]
    simp [hheld, eq_comm]
  · ext other
    rw [Finset.mem_erase]
    simp only [mem_heldJobs, hleased, hmeta, SortedSet.score_erase, Hash.lookup_erase]
    by_cases hother : other = jobId <;> simp [hother]

/-- The counter of a worker is a tally of the jobs it holds. -/
def Tallied (s : Store) (workerId : Bytes) (exact : Prop) : Prop :=
  Tally (s.workersLeases.lookup workerId) (s.heldJobs workerId).card exact

namespace Tallied

/-- Every move of the leases keeps the tallies. -/
theorem move (htallied : s.Tallied workerId exact) {grantee : Option Bytes}
    (hmove : LeaseMove grantee s s') : s'.Tallied workerId exact := by
  cases hmove with
  | kept hleased hmeta hcount =>
      have hheld : s'.heldJobs workerId = s.heldJobs workerId := by
        rw [heldJobs, hleased, hmeta, heldJobs]
      rwa [Tallied, hcount, hheld]
  | @extended jobId deadline hextended hleased hmeta hcount =>
      have hheld : s'.heldJobs workerId = s.heldJobs workerId := by
        ext other
        rw [mem_heldJobs, hleased, hmeta, SortedSet.score_add, mem_heldJobs]
        by_cases hother : other = jobId <;> simp [hother, hextended]
      rwa [Tallied, hcount, hheld]
  | @granted holder lease hgrantee hnew hleased hmeta hcount =>
      obtain ⟨hfresh, hheld⟩ := heldJobs_of_granted workerId hnew hleased hmeta
      rw [Tallied, hcount, Hash.lookup_incrBy, hheld]
      split_ifs with hholder
      · rw [Finset.card_insert_of_notMem hfresh, ← hholder]
        exact htallied.increment
      · exact htallied
  | @ended jobId holder leaseToken hrecord hended hleased hmeta hcount =>
      obtain ⟨hmem, hheld⟩ :=
        heldJobs_of_ended workerId hrecord hended hleased hmeta
      rw [Tallied, hcount, Hash.lookup_decrement, hheld]
      by_cases hholder : workerId = holder
      · rw [if_pos hholder, ← hholder]
        apply Tally.decrement
        rw [Finset.card_erase_add_one (hmem.mpr hholder)]
        exact htallied
      · rw [if_neg hholder, Finset.erase_eq_of_notMem (mt hmem.mp hholder)]
        exact htallied

theorem moves (htallied : s.Tallied workerId exact) {grantee : Option Bytes}
    (hmoves : LeaseMoves grantee s s') : s'.Tallied workerId exact := by
  induction hmoves with
  | refl => exact htallied
  | tail _ hmove ih => exact ih.move hmove

/-- A pruning keeps a counter exact unless it drops it while the worker holds a job. -/
theorem workersCleanup (htallied : s.Tallied workerId exact) (workerIds : List Bytes) :
    (s.workersCleanup workerIds).Tallied workerId
      (exact ∧ (workerId ∈ workerIds → (s.workersLeases.lookup workerId).isSome →
        s.heldJobs workerId = ∅)) := by
  have hcount : (s.workersCleanup workerIds).workersLeases.lookup workerId =
      if workerId ∈ workerIds then none else s.workersLeases.lookup workerId :=
    Hash.lookup_foldl_erase _ _ _
  have hheld : (s.workersCleanup workerIds).heldJobs workerId = s.heldJobs workerId := rfl
  rw [Tallied, hcount, hheld]
  rw [Tallied] at htallied
  by_cases hmem : workerId ∈ workerIds
  · simpa [hmem] using htallied.drop
  · simpa [hmem] using htallied

/-- What an operation must not do for a counter to stay exact. -/
theorem next (htallied : s.Tallied workerId exact) (hrefines : Refines s jobs) (op : Op) :
    (s.next op).Tallied workerId (exact ∧ ∀ workerIds, op = .workersCleanup workerIds →
      workerId ∈ workerIds → (s.workersLeases.lookup workerId).isSome →
        s.heldJobs workerId = ∅) := by
  by_cases hop : ∃ workerIds, op = .workersCleanup workerIds
  · obtain ⟨workerIds, rfl⟩ := hop
    have hcleaned := htallied.workersCleanup workerIds
    exact ⟨hcleaned.positive, hcleaned.le, fun h => hcleaned.eq ⟨h.1, h.2 _ rfl⟩⟩
  · have hmoved := htallied.moves (leaseMoves_next hrefines (not_exists.mp hop))
    exact ⟨hmoved.positive, hmoved.le, fun h => hmoved.eq h.1⟩

end Tallied

/-- A pruning of the run deleted the entry of a worker that still held a lease. -/
def PrunedHolder (ops : List Op) (workerId : Bytes) : Prop :=
  ∃ first workerIds rest, ops = first ++ .workersCleanup workerIds :: rest ∧
    workerId ∈ workerIds ∧ ((empty.run first).workersLeases.lookup workerId).isSome ∧
      (empty.run first).heldJobs workerId ≠ ∅

/-- The counters of every run. -/
theorem tallied_run (ops : List Op) (workerId : Bytes) :
    (empty.run ops).Tallied workerId (¬ PrunedHolder ops workerId) := by
  induction ops using List.reverseRecOn with
  | nil => exact ⟨fun _ hlookup => (by cases hlookup), le_rfl, fun _ => rfl⟩
  | append_singleton ops op ih =>
      obtain ⟨jobs, hrefines⟩ := exists_refines_run ops
      have hnext := ih.next hrefines op
      rw [run_append, run_cons, run_nil]
      refine ⟨hnext.positive, hnext.le, fun hpruned => hnext.eq ⟨?_, ?_⟩⟩
      · rintro ⟨first, workerIds, rest, rfl, hmem⟩
        exact hpruned ⟨first, workerIds, rest ++ [op], by simp, hmem⟩
      · rintro workerIds rfl hmem hstored
        by_contra hheld
        exact hpruned ⟨ops, workerIds, [], rfl, hmem, hstored, hheld⟩

/-- In every run, a stored lease counter is positive and at most the number of leased
jobs whose record names the worker, and it is that number for every worker whose
entry no pruning of the run deleted while it held a lease. -/
theorem lease_counters (ops : List Op) (workerId : Bytes) :
    (∀ count, (empty.run ops).workersLeases.lookup workerId = some count →
      0 < count ∧ count ≤ ((empty.run ops).heldJobs workerId).card) ∧
    (¬ PrunedHolder ops workerId →
      Hash.counter (empty.run ops).workersLeases workerId =
        ((empty.run ops).heldJobs workerId).card) := by
  have htally := tallied_run ops workerId
  refine ⟨fun count hcount => ⟨htally.positive count hcount, ?_⟩, htally.eq⟩
  have hle := htally.le
  rwa [hcount, Option.getD_some] at hle

end Store

end Redloop
