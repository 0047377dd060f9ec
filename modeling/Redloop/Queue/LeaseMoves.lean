/-
# Moves of leases

The leases of a namespace are kept in three structures: the leased set, the lease
records and the lease counters of the workers. Every operation but the delete
transaction of a pruning changes them by a sequence of four moves, and only a reserve
that is not refused grants leases. What holds of every move holds of every operation.
-/

import Mathlib.Logic.Relation
import Redloop.Job.Batch
import Redloop.Queue.Registry

namespace Redloop

namespace Store

variable {grantee : Option Bytes} {s s' : Store} {jobs : Bytes → Job} {jobId : Bytes}

/-- One move on the leases: keep them, extend one, grant one to the grantee or end one. -/
inductive LeaseMove (grantee : Option Bytes) (s s' : Store) : Prop
  | kept (hleased : s'.leased = s.leased) (hmeta : s'.leaseMeta = s.leaseMeta)
      (hcount : s'.workersLeases = s.workersLeases)
  | extended {jobId : Bytes} {deadline : ℤ} (hheld : (s.leased.score jobId).isSome)
      (hleased : s'.leased = s.leased.add jobId deadline)
      (hmeta : s'.leaseMeta = s.leaseMeta) (hcount : s'.workersLeases = s.workersLeases)
  | granted {workerId : Bytes} {lease : GrantedLease} (hgrantee : grantee = some workerId)
      (hnew : s.leased.score lease.jobId = none)
      (hleased : s'.leased = s.leased.add lease.jobId lease.deadline)
      (hmeta : s'.leaseMeta =
        Finmap.insert lease.jobId (packMeta workerId lease.leaseToken) s.leaseMeta)
      (hcount : s'.workersLeases = Hash.incrBy s.workersLeases workerId 1)
  | ended {jobId workerId leaseToken : Bytes}
      (hrecord : s.leaseMeta.lookup jobId = some (packMeta workerId leaseToken))
      (hheld : (s.leased.score jobId).isSome) (hleased : s'.leased = s.leased.erase jobId)
      (hmeta : s'.leaseMeta = Finmap.erase jobId s.leaseMeta)
      (hcount : s'.workersLeases = Hash.decrement s.workersLeases workerId)

/-- A sequence of moves. -/
abbrev LeaseMoves (grantee : Option Bytes) : Store → Store → Prop :=
  Relation.ReflTransGen (LeaseMove grantee)

namespace LeaseMoves

/-- An operation that leaves the leases alone. -/
theorem of_eq (hleased : s'.leased = s.leased) (hmeta : s'.leaseMeta = s.leaseMeta)
    (hcount : s'.workersLeases = s.workersLeases) : LeaseMoves grantee s s' :=
  .single (.kept hleased hmeta hcount)

/-- A script that ends the lease of its holder and then leaves the leases alone. -/
theorem of_dropLease {workerId leaseToken : Bytes}
    (hholds : s.HoldsLease jobId workerId leaseToken)
    (hrest : LeaseMoves grantee (s.dropLease jobId workerId) s') : LeaseMoves grantee s s' :=
  .head (.ended hholds.1 hholds.2 rfl rfl rfl) hrest

/-- Consuming a rerun marker leaves the leases alone. -/
theorem rerunIfMarked (hleased : s'.leased = s.leased) (hmeta : s'.leaseMeta = s.leaseMeta)
    (hcount : s'.workersLeases = s.workersLeases) (jobId : Bytes) (nowUs : ℤ) :
    LeaseMoves grantee s (s'.rerunIfMarked jobId nowUs) := by
  unfold Store.rerunIfMarked
  split_ifs
  · exact of_eq hleased hmeta hcount
  · exact of_eq hleased hmeta hcount

theorem removeWaiting (s : Store) (state : JobState) (jobId : Bytes) :
    LeaseMoves grantee s (s.removeWaiting state jobId) := by
  cases state <;> exact of_eq rfl rfl rfl

/-! ## Scripts -/

theorem enqueueOrReschedule (s : Store) (op : EnqueueOp) (jobId : Bytes) (now requested : ℤ)
    (mode : ReplaceMode) :
    LeaseMoves grantee s (s.enqueueOrReschedule op jobId now requested mode).1 := by
  obtain ⟨_, _, _, _, _, heq⟩ := s.enqueueOrReschedule_frame op jobId now requested mode
  rw [heq]
  exact of_eq rfl rfl rfl

/-- A force command reads the holder from the lease record. -/
theorem forceLeased (hrefines : Refines s jobs) {state : JobState}
    (hstate : (s.currentState jobId).1 = some state) {command : Store → Store}
    (hcommand : ∀ s, LeaseMoves grantee s (command s)) :
    LeaseMoves grantee s (s.forceLeased jobId state command).1 := by
  unfold Store.forceLeased
  split_ifs with hleased
  · exact .refl
  · rw [not_not] at hleased
    subst hleased
    have hslot := hrefines.slot_eq jobId
    rw [currentState_eq hslot] at hstate
    cases hplacement : (jobs jobId).placement with
    | leased deadline workerId leaseToken rerun =>
        simp only [Slot.ext_iff, slot, Job.toSlot, hplacement] at hslot
        have hrecord : s.leaseMeta.lookup jobId = some (packMeta workerId leaseToken) :=
          hslot.2.2.2.2.1
        have hheld : (s.leased.score jobId).isSome := by
          rw [hslot.2.2.1]
          rfl
        simp only [hrecord, workerFromMeta_packMeta]
        exact of_dropLease ⟨hrecord, hheld⟩ (hcommand _)
    | _ => simp [hplacement] at hstate

theorem operatorTransition (hrefines : Refines s jobs) (op : OperatorOp) (jobId : Bytes)
    (now : ℤ) : LeaseMoves grantee s (s.operatorTransition op jobId now).1 := by
  unfold Store.operatorTransition
  dsimp only
  split
  · exact .refl
  · next state hstate =>
      cases op with
      | cancel => cases state <;> exact of_eq rfl rfl rfl
      | requeue => cases state <;> exact of_eq rfl rfl rfl
      | retryNow => cases state <;> exact of_eq rfl rfl rfl
      | forceRetry => cases state <;> exact of_eq rfl rfl rfl
      | forceAck =>
          refine forceLeased hrefines hstate fun s => rerunIfMarked ?_ ?_ ?_ _ _
          all_goals rfl
      | forceFail => exact forceLeased hrefines hstate fun s => of_eq rfl rfl rfl

/-- The loop of the reserve script grants leases to its worker. -/
theorem reserveLoop (args : ReserveArgs) (rounds : ℕ) (hrefines : Refines s jobs)
    (granted : List GrantedLease) :
    LeaseMoves (some args.workerId) s (reserveLoop args rounds s granted).1 := by
  induction rounds generalizing s jobs granted with
  | zero => exact .refl
  | succ rounds ih =>
      unfold Store.reserveLoop
      simp only [dropDuplicates_eq_self hrefines]
      split
      · exact .refl
      · next source jobId hchosen =>
          have hremoved :=
            refines_removeWaiting hrefines (waiting_of_chooseCandidate hrefines hchosen)
          refine .trans (removeWaiting s source jobId) ?_
          split
          · exact .refl
          · next token hsome =>
              have hnew : (s.removeWaiting source jobId).leased.score jobId = none := by
                have hslot := congrArg Slot.leased (hremoved.slot_eq jobId)
                rwa [Function.update_self] at hslot
              exact .head (.granted rfl hnew rfl rfl rfl)
                (ih (refines_grantLease args.workerId token args.deadline hremoved) _)

theorem reserveJobs (hrefines : Refines s jobs) (args : ReserveArgs) :
    LeaseMoves (some args.workerId) s (s.reserveJobs args).1 := by
  have hregistered : Refines (s.registerWorker args) jobs := hrefines.congr fun _ => rfl
  have hkept : LeaseMoves (some args.workerId) s (s.registerWorker args) := of_eq rfl rfl rfl
  exact hkept.trans (reserveLoop args args.capacity hregistered [])

/-- A reserve grants leases to its worker unless it is refused. -/
theorem reserve (hrefines : Refines s jobs) (args : ReserveArgs) :
    LeaseMoves (if s.registry.Refuses args.retryPolicyKey then none else some args.workerId) s
      (s.reserve args).1 := by
  have hpolicy : s.registry.retryPolicy = s.cfg.lookup (utf8 "retry_policy") := rfl
  unfold Store.reserve
  cases hpinned : s.cfg.lookup (utf8 "retry_policy") with
  | none =>
      have hrefined : Refines
          { s with
            cfg := Finmap.insert (utf8 "retry_policy") args.retryPolicyKey
              (Finmap.insert (utf8 "version") (utf8 "1") s.cfg) } jobs :=
        hrefines.congr fun _ => rfl
      simp only [Registry.Refuses, hpolicy, hpinned, reduceCtorEq, false_and, exists_false,
        if_false]
      refine .head (.kept ?_ ?_ ?_) (reserveJobs hrefined args)
      all_goals rfl
  | some policy =>
      simp only [Registry.Refuses, hpolicy, hpinned, Option.some.injEq, exists_eq_left']
      split_ifs
      · exact .refl
      · exact reserveJobs hrefines args

/-- The loop of the reap script ends leases. -/
theorem reapLoop (nowUs : ℤ) (limit : ℕ) (hrefines : Refines s jobs) (reaped : ℕ) :
    LeaseMoves grantee s (reapLoop nowUs limit s reaped).1 := by
  induction limit generalizing s jobs reaped with
  | zero => exact .refl
  | succ limit ih =>
      unfold Store.reapLoop
      split
      · exact .refl
      · next candidate hfirst =>
          obtain ⟨hscore, hexpired, _⟩ := SortedSet.head?_rangeByScore_eq_some_iff.mp hfirst
          obtain ⟨job, hreap, hreaped⟩ :=
            refines_reapJob hrefines hscore (of_decide_eq_true hexpired)
          obtain ⟨_, holder, leaseToken, _, hplacement, _, _⟩ := Job.reap_eq_some_iff.mp hreap
          have hrecord := congrArg Slot.leaseMeta (hrefines.slot_eq (ofLex candidate).2)
          simp only [slot, Job.toSlot, hplacement] at hrecord
          refine .trans ?_ (ih hreaped _)
          simp only [reapJob, hrecord, Option.bind_some, workerFromMeta_packMeta]
          exact .single (.ended hrecord (by rw [hscore]; rfl) rfl rfl rfl)

end LeaseMoves

end Store

/-! ## All operations -/

/-- The configuration with which an operation registers its worker: that of a reserve
that is executed and not refused. -/
def Op.registration (op : Op) (s : Store) : Option WorkerConfig :=
  match op with
  | reserve config availableCapacity _ _ =>
      if availableCapacity ≠ 0 ∧ ¬ s.registry.Refuses config.retryPolicyKey then some config
      else none
  | _ => none

namespace Store

variable {s : Store} {jobs : Bytes → Job}

/-- Every operation but a pruning moves leases, and grants them to the worker it
registers. -/
theorem leaseMoves_next (hrefines : Refines s jobs) {op : Op}
    (hop : ∀ workerIds, op ≠ .workersCleanup workerIds) :
    LeaseMoves ((op.registration s).map WorkerConfig.workerId) s (s.next op) := by
  cases op with
  | enqueue request now => exact .enqueueOrReschedule _ _ _ _ _ _
  | reschedule jobId scheduleAt now => exact .enqueueOrReschedule _ _ _ _ _ _
  | operator op jobId now => exact .operatorTransition hrefines _ _ _
  | reserve config availableCapacity now leaseTokens =>
      by_cases hcapacity : availableCapacity = 0
      · exact .of_eq (by simp [next, exec, hcapacity]) (by simp [next, exec, hcapacity])
          (by simp [next, exec, hcapacity])
      · have hmoves := LeaseMoves.reserve hrefines
          (reserveArgs config availableCapacity now leaseTokens)
        simp only [next, exec, Op.registration, hcapacity, if_false, ne_eq, not_false_eq_true,
          true_and, ite_not, apply_ite (Option.map WorkerConfig.workerId), Option.map_none,
          Option.map_some]
        exact hmoves
  | heartbeat workerId jobId leaseToken now leaseDuration =>
      dsimp only [next, exec, heartbeat]
      split_ifs with hholds
      · exact .single (.extended hholds.2 rfl rfl rfl)
      · exact .refl
  | ack workerId jobId leaseToken now =>
      dsimp only [next, exec, ack]
      split_ifs with hholds
      · refine .of_dropLease hholds (.rerunIfMarked ?_ ?_ ?_ _ _)
        all_goals rfl
      · exact .refl
  | completeAndReschedule workerId jobId leaseToken scheduleAt now =>
      dsimp only [next, exec, completeAndReschedule]
      split_ifs with hholds
      · refine .of_dropLease hholds (.rerunIfMarked ?_ ?_ ?_ _ _)
        all_goals rfl
      · exact .of_dropLease hholds (.of_eq rfl rfl rfl)
      · exact .of_dropLease hholds (.of_eq rfl rfl rfl)
      · exact .refl
  | failOrRetry request =>
      dsimp only [next, exec, failOrRetry]
      split_ifs with hholds
      · exact .of_dropLease hholds (.of_eq rfl rfl rfl)
      · exact .of_dropLease hholds (.of_eq rfl rfl rfl)
      · exact .of_dropLease hholds (.of_eq rfl rfl rfl)
      · exact .refl
  | reapExpired now limit =>
      dsimp only [next, exec]
      split_ifs
      · exact .refl
      · exact .reapLoop _ _ hrefines _
  | purgeFailedRead selector => exact .refl
  | purgeFailedDelete jobIds => exact .of_eq rfl rfl rfl
  | workersCleanup workerIds => exact absurd rfl (hop workerIds)

end Store

end Redloop
