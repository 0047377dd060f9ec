/-
# Refinement of the job machine by the store

The slot of a job collects what the seven per-job structures of the store hold
for it. A store refines an assignment of jobs when every slot is the slot of the
assigned job. This says at once that a job has a single placement, that exactly
the leased jobs have a lease record, and that only leased jobs are marked for a
rerun. Two assignments refined by one store are equal.
-/

import Redloop.Job.Machine

namespace Redloop

/-- What the store holds for one job. -/
@[ext]
structure Slot where
  ready : Option ℤ := none
  scheduled : Option ℤ := none
  leased : Option ℤ := none
  failed : Option ℤ := none
  leaseMeta : Option Bytes := none
  rerun : Bool := false
  failures : Option ℤ := none
  deriving DecidableEq

/-- The slot of a job. -/
def Store.slot (s : Store) (jobId : Bytes) : Slot where
  ready := s.ready.score jobId
  scheduled := s.scheduled.score jobId
  leased := s.leased.score jobId
  failed := s.failed.score jobId
  leaseMeta := s.leaseMeta.lookup jobId
  rerun := jobId ∈ s.rerun
  failures := s.failures.lookup jobId

/-- The slot that stores a job. -/
def Job.toSlot (job : Job) : Slot :=
  match job.placement with
  | .absent => { failures := job.failures }
  | .ready score => { ready := some score, failures := job.failures }
  | .scheduled score => { scheduled := some score, failures := job.failures }
  | .leased deadline workerId leaseToken rerun =>
      { leased := some deadline
        leaseMeta := some (packMeta workerId leaseToken)
        rerun := rerun
        failures := job.failures }
  | .failed score => { failed := some score, failures := job.failures }

@[simp]
theorem Job.toSlot_failures (job : Job) : job.toSlot.failures = job.failures := by
  unfold toSlot
  split <;> rfl

/-- A slot stores at most one job. -/
theorem Job.toSlot_injective : Function.Injective Job.toSlot := by
  rintro ⟨first, firstFailures⟩ ⟨second, secondFailures⟩ heq
  cases first <;> cases second <;> simp_all [toSlot]

/-- Every job of the store is stored in its own slot. -/
structure Refines (s : Store) (jobs : Bytes → Job) : Prop where
  slot_eq : ∀ jobId, s.slot jobId = (jobs jobId).toSlot

namespace Refines

/-- The failure count of the store is that of the job. -/
theorem failures_eq {s : Store} {jobs : Bytes → Job} (hrefines : Refines s jobs)
    (jobId : Bytes) : s.failures.lookup jobId = (jobs jobId).failures :=
  (congrArg Slot.failures (hrefines.slot_eq jobId)).trans (Job.toSlot_failures _)

/-- The empty namespace stores no job. -/
theorem empty : Refines Store.empty fun _ => Job.absent := ⟨fun _ => rfl⟩

/-- A store refines one assignment of jobs only. -/
theorem unique {s : Store} {first second : Bytes → Job} (hfirst : Refines s first)
    (hsecond : Refines s second) : first = second := by
  funext jobId
  exact Job.toSlot_injective ((hfirst.slot_eq jobId).symm.trans (hsecond.slot_eq jobId))

end Refines

/-- The result of an operation on a single job realizes an outcome of the job
machine: a refusal changes nothing, and success changes this job alone. -/
def Realizes (s : Store) (result : Store × Reply) (jobId : Bytes) : Option Job → Prop
  | none => result.1 = s ∧ result.2.isOk = false
  | some job =>
      result.1.slot jobId = job.toSlot ∧ result.2.isOk = true ∧
        ∀ other, other ≠ jobId → result.1.slot other = s.slot other

namespace Store

/-- The lease check decides whether the caller is the holder of the job's lease. -/
theorem holdsLease_iff {s : Store} {jobId workerId leaseToken : Bytes} {job : Job}
    (hslot : s.slot jobId = job.toSlot) :
    s.HoldsLease jobId workerId leaseToken ↔ job.LeasedTo workerId leaseToken := by
  obtain ⟨placement, failures⟩ := job
  cases placement <;>
    simp_all [Slot.ext_iff, slot, Job.toSlot, HoldsLease, Job.LeasedTo]

/-- The state the scripts find is the placement of the job. -/
theorem currentState_eq {s : Store} {jobId : Bytes} {job : Job}
    (hslot : s.slot jobId = job.toSlot) :
    s.currentState jobId =
      match job.placement with
      | .absent => (none, 0)
      | .ready score => (some .ready, score)
      | .scheduled score => (some .scheduled, score)
      | .leased deadline _ _ _ => (some .leased, deadline)
      | .failed score => (some .failed, score) := by
  obtain ⟨placement, failures⟩ := job
  cases placement <;> simp_all [Slot.ext_iff, slot, Job.toSlot, currentState]

/-- A job is known to the store exactly when it is placed. -/
theorem known_iff {s : Store} {jobId : Bytes} {job : Job}
    (hslot : s.slot jobId = job.toSlot) : s.Known jobId ↔ job.IsPlaced := by
  obtain ⟨placement, failures⟩ := job
  cases placement <;> simp_all [Slot.ext_iff, slot, Job.toSlot, Known, Job.IsPlaced]

end Store

end Redloop
