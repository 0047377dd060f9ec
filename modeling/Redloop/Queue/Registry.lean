/-
# The registry of a namespace

A namespace keeps its retry policy and, for each worker, when it was last seen and
how it is configured. Only a reserve that passes its policy check, a heartbeat that
holds its lease and the delete transaction of a pruning write to this registry. The
scripts that move jobs are described by the structures they replace, which says at
once what they keep.
-/

import Redloop.Store.Exec

namespace Redloop

namespace Store

/-! ## Enqueue -/

theorem clearFailed_frame (s : Store) (jobId : Bytes) (wasFailed : Prop) [Decidable wasFailed] :
    ∃ failures failed rerun, (if wasFailed then s.clearFailed jobId else s) =
      { s with failures := failures, failed := failed, rerun := rerun } := by
  split_ifs
  · exact ⟨_, _, _, rfl⟩
  · exact ⟨_, _, _, rfl⟩

theorem addTarget_frame (s : Store) (target : Target) (jobId : Bytes) :
    ∃ ready scheduled, s.addTarget target jobId =
      { s with ready := ready, scheduled := scheduled } := by
  unfold addTarget
  split
  · exact ⟨_, _, rfl⟩
  · exact ⟨_, _, rfl⟩

theorem removeWaiting_frame (s : Store) (state : JobState) (jobId : Bytes) :
    ∃ ready scheduled, s.removeWaiting state jobId =
      { s with ready := ready, scheduled := scheduled } := by
  cases state <;> exact ⟨_, _, rfl⟩

theorem moveWaiting_frame (s : Store) (state : JobState) (target : Target) (jobId : Bytes) :
    ∃ ready scheduled rerun, s.moveWaiting state target jobId =
      { s with ready := ready, scheduled := scheduled, rerun := rerun } := by
  obtain ⟨_, _, hremoved⟩ := s.removeWaiting_frame state jobId
  obtain ⟨_, _, hadded⟩ := ((s.removeWaiting state jobId).clearRerun jobId).addTarget_frame
    target jobId
  rw [moveWaiting, hadded, hremoved]
  exact ⟨_, _, _, rfl⟩

theorem reschedule_frame (s : Store) (jobId : Bytes) (nowUs requestedUs : ℤ)
    (mode : ReplaceMode) :
    ∃ ready scheduled rerun, (s.reschedule jobId nowUs requestedUs mode).1 =
      { s with ready := ready, scheduled := scheduled, rerun := rerun } := by
  unfold reschedule
  split
  · exact ⟨_, _, _, rfl⟩
  · dsimp only
    split_ifs
    · exact ⟨_, _, _, rfl⟩
    · exact ⟨_, _, _, rfl⟩
    · exact moveWaiting_frame _ _ _ _
    · exact ⟨_, _, _, rfl⟩

theorem enqueueImmediate_frame (s : Store) (jobId : Bytes) (nowUs : ℤ) (state : Option JobState)
    (wasFailed : Bool) :
    ∃ ready scheduled rerun, (s.enqueueImmediate jobId nowUs state wasFailed).1 =
      { s with ready := ready, scheduled := scheduled, rerun := rerun } := by
  unfold enqueueImmediate
  split
  · exact ⟨_, _, _, rfl⟩
  · split_ifs
    · exact ⟨_, _, _, rfl⟩
    · exact ⟨_, _, _, rfl⟩
  · exact ⟨_, _, _, rfl⟩
  · exact ⟨_, _, _, rfl⟩

theorem enqueueScheduled_frame (s : Store) (jobId : Bytes) (nowUs requestedUs : ℤ)
    (mode : ReplaceMode) (state : Option JobState) (score : ℤ) (wasFailed : Bool) :
    ∃ ready scheduled rerun,
      (s.enqueueScheduled jobId nowUs requestedUs mode state score wasFailed).1 =
        { s with ready := ready, scheduled := scheduled, rerun := rerun } := by
  unfold enqueueScheduled
  dsimp only
  split
  · exact ⟨_, _, _, rfl⟩
  · obtain ⟨_, _, hadded⟩ := (s.clearRerun jobId).addTarget_frame
      (normalizeTarget requestedUs nowUs) jobId
    rw [hadded]
    exact ⟨_, _, _, rfl⟩
  · split_ifs
    · exact ⟨_, _, _, rfl⟩
    · exact moveWaiting_frame _ _ _ _
    · exact ⟨_, _, _, rfl⟩

/-- Enqueues and reschedules keep the leases, the workers and the configuration. -/
theorem enqueueOrReschedule_frame (s : Store) (op : EnqueueOp) (jobId : Bytes)
    (now requested : ℤ) (mode : ReplaceMode) :
    ∃ failures ready scheduled failed rerun,
      (s.enqueueOrReschedule op jobId now requested mode).1 =
        { s with
          failures := failures
          ready := ready
          scheduled := scheduled
          failed := failed
          rerun := rerun } := by
  cases op with
  | reschedule =>
      obtain ⟨_, _, _, heq⟩ := s.reschedule_frame jobId (Double.ofInt now)
        (Double.ofInt requested) mode
      exact ⟨_, _, _, _, _, heq⟩
  | enqueueImmediate =>
      unfold enqueueOrReschedule
      obtain ⟨_, _, _, hcleared⟩ := s.clearFailed_frame jobId
        ((s.currentState jobId).1 = some .failed)
      dsimp only
      rw [hcleared]
      obtain ⟨_, _, _, heq⟩ := enqueueImmediate_frame _ jobId (Double.ofInt now) _ _
      rw [heq]
      exact ⟨_, _, _, _, _, rfl⟩
  | enqueueScheduled =>
      unfold enqueueOrReschedule
      obtain ⟨_, _, _, hcleared⟩ := s.clearFailed_frame jobId
        ((s.currentState jobId).1 = some .failed)
      dsimp only
      rw [hcleared]
      obtain ⟨_, _, _, heq⟩ := enqueueScheduled_frame _ jobId (Double.ofInt now)
        (Double.ofInt requested) mode _ _ _
      rw [heq]
      exact ⟨_, _, _, _, _, rfl⟩

end Store

/-! ## The registry -/

/-- What a namespace keeps about its policy and its workers. -/
structure Registry where
  cfg : Hash Bytes
  workersLastSeen : ZSet
  workersConfig : Hash Bytes

/-- The registry part of a store. -/
def Store.registry (s : Store) : Registry := ⟨s.cfg, s.workersLastSeen, s.workersConfig⟩

namespace Registry

/-- The key of the retry policy of the namespace. -/
def retryPolicy (registry : Registry) : Option Bytes := registry.cfg.lookup (utf8 "retry_policy")

/-- A reserve that passes its policy check pins a missing policy and registers its
worker. -/
def register (registry : Registry) (args : ReserveArgs) : Registry where
  cfg :=
    match registry.retryPolicy with
    | none =>
        Finmap.insert (utf8 "retry_policy") args.retryPolicyKey
          (Finmap.insert (utf8 "version") (utf8 "1") registry.cfg)
    | some _ => registry.cfg
  workersLastSeen := registry.workersLastSeen.add args.workerId args.nowUs
  workersConfig := Finmap.insert args.workerId args.workerConfigRecord registry.workersConfig

/-- A heartbeat that holds its lease notes when its worker was seen. -/
def see (registry : Registry) (workerId : Bytes) (nowUs : ℤ) : Registry :=
  { registry with workersLastSeen := registry.workersLastSeen.add workerId nowUs }

/-- A pruning forgets workers. -/
def forget (registry : Registry) (workerIds : List Bytes) : Registry :=
  { registry with
    workersLastSeen := workerIds.foldl SortedSet.erase registry.workersLastSeen
    workersConfig := workerIds.foldl (fun hash workerId => Finmap.erase workerId hash)
      registry.workersConfig }

/-- A worker with this policy key is refused. -/
def Refuses (registry : Registry) (retryPolicyKey : Bytes) : Prop :=
  ∃ policy, registry.retryPolicy = some policy ∧ policy ≠ retryPolicyKey

instance (registry : Registry) (retryPolicyKey : Bytes) :
    Decidable (registry.Refuses retryPolicyKey) :=
  decidable_of_iff (registry.retryPolicy.any (· ≠ retryPolicyKey)) (by
    simp [Refuses, Option.any_eq_true])

end Registry

namespace Store

variable {s : Store}

theorem registry_dropDuplicates (nowUs : ℤ) (rounds : ℕ) (s : Store) :
    (dropDuplicates nowUs rounds s).registry = s.registry := by
  induction rounds generalizing s with
  | zero => rfl
  | succ rounds ih =>
      unfold dropDuplicates
      split
      · rfl
      · dsimp only
        split_ifs
        · exact ih _
        · rfl

theorem registry_removeWaiting (s : Store) (state : JobState) (jobId : Bytes) :
    (s.removeWaiting state jobId).registry = s.registry := by
  cases state <;> rfl

theorem registry_reserveLoop (args : ReserveArgs) (rounds : ℕ) (s : Store)
    (granted : List GrantedLease) :
    (reserveLoop args rounds s granted).1.registry = s.registry := by
  induction rounds generalizing s granted with
  | zero => rfl
  | succ rounds ih =>
      unfold reserveLoop
      dsimp only
      split
      · exact registry_dropDuplicates _ _ _
      · split
        · exact (registry_removeWaiting _ _ _).trans (registry_dropDuplicates _ _ _)
        · exact (ih _ _).trans
            ((registry_removeWaiting _ _ _).trans (registry_dropDuplicates _ _ _))

theorem registry_reapLoop (nowUs : ℤ) (limit : ℕ) (s : Store) (reaped : ℕ) :
    (reapLoop nowUs limit s reaped).1.registry = s.registry := by
  induction limit generalizing s reaped with
  | zero => rfl
  | succ limit ih =>
      unfold reapLoop
      split
      · rfl
      · refine (ih _ _).trans ?_
        unfold reapJob
        dsimp only
        split <;> rfl

/-- The rerun step of an ack keeps the registry. -/
theorem registry_rerunIfMarked (s : Store) (jobId : Bytes) (nowUs : ℤ) :
    (s.rerunIfMarked jobId nowUs).registry = s.registry := by
  unfold rerunIfMarked
  split_ifs <;> rfl

theorem registry_enqueueOrReschedule (s : Store) (op : EnqueueOp) (jobId : Bytes)
    (now requested : ℤ) (mode : ReplaceMode) :
    (s.enqueueOrReschedule op jobId now requested mode).1.registry = s.registry := by
  obtain ⟨_, _, _, _, _, heq⟩ := s.enqueueOrReschedule_frame op jobId now requested mode
  rw [heq]
  rfl

theorem registry_forceLeased (s : Store) (jobId : Bytes) (state : JobState)
    {command : Store → Store} (hcommand : ∀ s, (command s).registry = s.registry) :
    (s.forceLeased jobId state command).1.registry = s.registry := by
  unfold forceLeased
  split_ifs
  · rfl
  · split
    · rfl
    · split
      · rfl
      · exact hcommand _

theorem registry_operatorTransition (s : Store) (op : OperatorOp) (jobId : Bytes) (now : ℤ) :
    (s.operatorTransition op jobId now).1.registry = s.registry := by
  unfold operatorTransition
  dsimp only
  split
  · rfl
  · next state _ =>
      cases op with
      | cancel => cases state <;> rfl
      | requeue => cases state <;> rfl
      | retryNow => cases state <;> rfl
      | forceRetry => cases state <;> rfl
      | forceAck => exact registry_forceLeased _ _ _ fun _ => registry_rerunIfMarked _ _ _
      | forceFail => exact registry_forceLeased _ _ _ fun _ => rfl

/-- A reserve is refused or registers its worker. -/
theorem registry_reserve (s : Store) (args : ReserveArgs) :
    (s.reserve args).1.registry =
      if s.registry.Refuses args.retryPolicyKey then s.registry
      else s.registry.register args := by
  have hjobs (s : Store) : (s.reserveJobs args).1.registry = (s.registerWorker args).registry :=
    registry_reserveLoop _ _ _ _
  have hpolicy : s.registry.retryPolicy = s.cfg.lookup (utf8 "retry_policy") := rfl
  unfold reserve
  cases hpinned : s.cfg.lookup (utf8 "retry_policy") with
  | none =>
      simp only [Registry.Refuses, Registry.register, hpolicy, hpinned, reduceCtorEq, false_and,
        exists_false, if_false]
      exact hjobs _
  | some policy =>
      simp only [Registry.Refuses, Registry.register, hpolicy, hpinned, Option.some.injEq,
        exists_eq_left']
      split_ifs
      · rfl
      · exact hjobs _

/-- What one operation does to the registry. -/
theorem registry_next (s : Store) (op : Op) :
    (s.next op).registry =
      match op with
      | .reserve config availableCapacity now leaseTokens =>
          if availableCapacity = 0 ∨ s.registry.Refuses config.retryPolicyKey then s.registry
          else s.registry.register (reserveArgs config availableCapacity now leaseTokens)
      | .heartbeat workerId jobId leaseToken now _ =>
          if s.HoldsLease jobId workerId leaseToken then
            s.registry.see workerId (Double.ofInt (micros now))
          else s.registry
      | .workersCleanup workerIds => s.registry.forget workerIds
      | _ => s.registry := by
  cases op with
  | enqueue request now => exact registry_enqueueOrReschedule _ _ _ _ _ _
  | reschedule jobId scheduleAt now => exact registry_enqueueOrReschedule _ _ _ _ _ _
  | operator op jobId now => exact registry_operatorTransition _ _ _ _
  | reserve config availableCapacity now leaseTokens =>
      dsimp only [next, exec]
      by_cases hcapacity : availableCapacity = 0
      · simp [hcapacity]
      · simp only [hcapacity, if_false, false_or]
        exact registry_reserve _ _
  | heartbeat workerId jobId leaseToken now leaseDuration =>
      dsimp only [next, exec, heartbeat]
      split_ifs <;> rfl
  | ack workerId jobId leaseToken now =>
      dsimp only [next, exec, ack]
      split_ifs
      · exact registry_rerunIfMarked _ _ _
      · rfl
  | completeAndReschedule workerId jobId leaseToken scheduleAt now =>
      dsimp only [next, exec, completeAndReschedule]
      split_ifs <;> first | rfl | exact registry_rerunIfMarked _ _ _
  | failOrRetry request =>
      dsimp only [next, exec, failOrRetry]
      split_ifs <;> rfl
  | reapExpired now limit =>
      dsimp only [next, exec]
      split_ifs
      · rfl
      · exact registry_reapLoop _ _ _ _
  | purgeFailedRead selector => rfl
  | purgeFailedDelete jobIds => rfl
  | workersCleanup workerIds => rfl

end Store

end Redloop
