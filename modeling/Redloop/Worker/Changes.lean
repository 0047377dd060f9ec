/-
# What a step changes

Frames of the worker loop: how a step can change the active attempts, when it
leaves a completed attempt where it is, which results it knows, and which store
call it makes.
-/

import Redloop.Worker.Attempts

namespace Redloop

/-- A completion was applied, or its lease is gone. -/
def Resolves (reply : Except Error Unit) : Prop :=
  reply = .ok () ∨ ∃ jobId, reply = .error (.leaseMismatch jobId)

/-- A phase outside the select and the heartbeat round. -/
def Phase.IsOutside : Phase → Prop
  | .selecting _ => False
  | .heartbeating _ _ _ => False
  | _ => True

namespace Worker

variable {w w' : Worker} {now : Timestamp} {event : Event} {effects : List Effect}
  {key : LeaseAttemptKey}

/-! ## Active attempts -/

/-- The ways a step can change the active attempts and start handlers. -/
inductive ActiveChange (w w' : Worker) (effects : List Effect) : Event → Prop
  | kept {event : Event} (hactive : w'.active = w.active) (hspawns : spawns effects = []) :
      ActiveChange w w' effects event
  | spawned {event : Event} {select : Select} (hphase : w.phase = .selecting select)
      (hactive : w'.active = event.granted.foldl .addReserved w.active)
      (hspawns : spawns effects = event.granted) : ActiveChange w w' effects event
  | resolved {completed : CompletedLease} {rest : List LeaseAttemptKey}
      {reply : Except Error Unit} (hphase : w.phase = .completing completed rest)
      (hreply : Resolves reply)
      (hactive : w'.active = Finmap.erase completed.attemptKey w.active)
      (hspawns : spawns effects = []) : ActiveChange w w' effects (.resume reply)
  | lost {sentAt : Timestamp} {key : LeaseAttemptKey} {rest : List LeaseAttemptKey}
      {jobId : Bytes} (hphase : w.phase = .heartbeating sentAt key rest)
      (hactive : w'.active = w.active.disableHeartbeat key) (hspawns : spawns effects = []) :
      ActiveChange w w' effects (.resume (.error (.leaseMismatch jobId)))

/-- Resolving an attempt neither changes the active attempts nor starts a handler. -/
theorem resolvePendingCompleted_active (w : Worker) (now : Timestamp)
    (order : List LeaseAttemptKey) :
    (w.resolvePendingCompleted now order).1.active = w.active ∧
      spawns (w.resolvePendingCompleted now order).2 = [] := by
  rcases w.resolvePendingCompleted_cases now order with heq | ⟨_, _, _, _, heq⟩ <;>
    rw [heq] <;> exact ⟨rfl, rfl⟩

theorem heartbeatActive_active (w : Worker) (now : Timestamp) (order : List LeaseAttemptKey) :
    (w.heartbeatActive now order).1.active = w.active ∧
      spawns (w.heartbeatActive now order).2 = [] := by
  cases order <;> exact ⟨rfl, rfl⟩

theorem joinNext_active (w : Worker) : w.joinNext.active = w.active := by
  unfold joinNext
  split
  · rfl
  · split <;> rfl

/-- Every reaction changes the active attempts in one of the ways. -/
theorem Reacts.activeChange (hreacts : w.Reacts now event w' effects) :
    w.ActiveChange w' effects event := by
  cases hreacts with
  | turn =>
      obtain ⟨hactive, hspawns⟩ := resolvePendingCompleted_active _ _ _
      exact .kept hactive hspawns
  | enter =>
      refine .kept rfl ?_
      unfold Worker.enter spawns
      dsimp only
      split_ifs <;> rfl
  | join => exact .kept (joinNext_active w) rfl
  | heartbeatTick =>
      obtain ⟨hactive, hspawns⟩ := heartbeatActive_active _ _ _
      exact .kept hactive hspawns
  | reserve hphase hbranch henabled hready =>
      unfold resumeReserve
      split
      · next batch =>
          have hgranted := Event.granted_of_reserved hready
          have hspawned : spawns (batch.jobs.map Effect.spawn) = batch.jobs := by
            simp [spawns, List.filterMap_map, Function.comp_def, Effect.spawn?]
          dsimp only
          split_ifs with hjobs
          · refine .spawned hphase ?_ (hgranted ▸ hspawned)
            rw [foldl_spawnJob, hgranted]
          · exact .kept rfl rfl
      · split_ifs <;> exact .kept rfl rfl
  | wait =>
      unfold startSelect
      split
      · exact .kept rfl rfl
      · refine .kept rfl ?_
        dsimp only
        split_ifs <;> rfl
  | completion hphase =>
      unfold resumeCompletion
      split
      · obtain ⟨hactive, hspawns⟩ := resolvePendingCompleted_active _ _ _
        exact .resolved hphase (Or.inl rfl) hactive hspawns
      · obtain ⟨hactive, hspawns⟩ := resolvePendingCompleted_active _ _ _
        exact .resolved hphase (Or.inr ⟨_, rfl⟩) hactive hspawns
      · split_ifs <;> exact .kept rfl rfl
  | heartbeat hphase =>
      unfold resumeHeartbeat
      split
      · obtain ⟨hactive, hspawns⟩ := heartbeatActive_active _ _ _
        exact .kept hactive hspawns
      · obtain ⟨hactive, hspawns⟩ := heartbeatActive_active _ _ _
        exact .lost hphase hactive hspawns
      · split_ifs <;> exact .kept rfl rfl
  | reap hphase =>
      refine .kept ?_ rfl
      unfold resumeReap
      split
      · rfl
      · split_ifs <;> rfl
  | _ => exact .kept rfl rfl

/-! ## Results -/

/-- A handler's result that the worker holds: its task is not joined, it is
completed, or it is being resolved. -/
def HoldsResult (w : Worker) (completed : CompletedLease) : Prop :=
  completed.task ∈ w.joinSet.finished ∨
    w.pendingCompleted.get completed.attemptKey = some completed ∨
      ∃ rest, w.phase = .completing completed rest

/-- Recording a returned handler records its result. -/
theorem recordJoinResult_eq_ok {pending pending' : PendingCompleted} {task : FinishedTask}
    (hrecord : recordJoinResult pending task = .ok pending') :
    ∃ completed : CompletedLease, completed.task = task ∧ pending' = pending.add completed := by
  obtain ⟨⟨jobId, leaseToken⟩, result⟩ := task
  cases result with
  | none => cases hrecord
  | some result =>
      cases hrecord
      exact ⟨⟨jobId, leaseToken, result⟩, rfl, rfl⟩

/-- Draining records the results of the finished tasks. -/
theorem get_drainJoinedJobs {finished : List FinishedTask} {pending pending' : PendingCompleted}
    {completed : CompletedLease} (hdrain : drainJoinedJobs pending finished = .ok pending')
    (hget : pending'.get key = some completed) :
    completed.task ∈ finished ∨ pending.get key = some completed := by
  induction finished generalizing pending with
  | nil =>
      cases hdrain
      exact Or.inr hget
  | cons task rest ih =>
      rw [drainJoinedJobs, List.foldlM_cons] at hdrain
      obtain ⟨recorded, hrecord, hrest⟩ := bind_eq_ok_iff.mp hdrain
      obtain ⟨first, rfl, rfl⟩ := recordJoinResult_eq_ok hrecord
      rcases ih hrest with hmem | hrecorded
      · exact Or.inl (List.mem_cons_of_mem _ hmem)
      · rw [PendingCompleted.get_add] at hrecorded
        split_ifs at hrecorded
        · cases hrecorded
          exact Or.inl List.mem_cons_self
        · exact Or.inr hrecorded

/-- Resolving finds no new results. -/
theorem HoldsResult.of_resolvePendingCompleted {completed : CompletedLease}
    {order : List LeaseAttemptKey}
    (hholds : (w.resolvePendingCompleted now order).1.HoldsResult completed) :
    completed.task ∈ w.joinSet.finished ∨
      w.pendingCompleted.get completed.attemptKey = some completed := by
  rcases w.resolvePendingCompleted_cases now order with
    heq | ⟨key, taken, rest, hget, heq⟩
  · rw [heq] at hholds
    rcases hholds with hfinished | hpending | ⟨_, hphase⟩
    · exact Or.inl hfinished
    · exact Or.inr hpending
    · cases hphase
  · rw [heq] at hholds
    rcases hholds with hfinished | hpending | ⟨_, hphase⟩
    · exact Or.inl hfinished
    · rw [PendingCompleted.get_erase] at hpending
      split_ifs at hpending
      exact Or.inr hpending
    · cases hphase
      rw [(PendingCompleted.of_get_eq_some hget).1]
      exact Or.inr hget

/-- The worker keeps its finished tasks and its completed attempts, and starts to
resolve none. -/
structure KeepsResults (w w' : Worker) : Prop where
  finished : w'.joinSet.finished = w.joinSet.finished
  pending : w'.pendingCompleted = w.pendingCompleted
  phase : ∀ completed rest, w'.phase = .completing completed rest →
    w.phase = .completing completed rest

/-- The ways a step can change the results that a worker holds. -/
inductive ResultChange (w : Worker) (now : Timestamp) : Event → Worker → Prop
  | kept {event : Event} {w' : Worker} (hkeeps : KeepsResults w w') : ResultChange w now event w'
  | finish {task : FinishedTask} (hmem : task.lease ∈ w.joinSet.running) :
      ResultChange w now (.finish task) { w with joinSet := w.joinSet.finish task }
  | turn {order : List LeaseAttemptKey} {pending : PendingCompleted} (hphase : w.phase = .top)
      (hdrain : drainJoinedJobs w.pendingCompleted w.joinSet.finished = .ok pending) :
      ResultChange w now (.turn order) (w.turn now pending order).1
  | join {select : Select} {ready : Ready} {completed : CompletedLease}
      {rest : List FinishedTask} (hphase : w.phase = .selecting select)
      (hfinished : w.joinSet.finished = completed.task :: rest) :
      ResultChange w now (.poll ready)
        { w with
          joinSet := { w.joinSet with finished := rest }
          pendingCompleted := w.pendingCompleted.add completed
          phase := .top }
  | completion {completed : CompletedLease} {rest : List LeaseAttemptKey}
      {reply : Except Error Unit} (hphase : w.phase = .completing completed rest) :
      ResultChange w now (.resume reply) (w.resumeCompletion now completed rest reply).1

theorem keepsResults_heartbeatActive (w : Worker) (now : Timestamp)
    (order : List LeaseAttemptKey) :
    w.KeepsResults (w.heartbeatActive now order).1 := by
  cases order <;> exact ⟨rfl, rfl, fun _ _ hphase => by cases hphase⟩

theorem keepsResults_resumeReserve (w : Worker) (reserved : Except Error ReserveBatch) :
    w.KeepsResults (w.resumeReserve now reserved).1 := by
  unfold resumeReserve
  split
  · dsimp only
    split_ifs
    · rw [foldl_spawnJob]
      exact ⟨rfl, rfl, fun _ _ hphase => by cases hphase⟩
    · exact ⟨rfl, rfl, fun _ _ hphase => by cases hphase⟩
  · split_ifs <;> exact ⟨rfl, rfl, fun _ _ hphase => by cases hphase⟩

theorem keepsResults_startSelect (w : Worker) (select : Select) :
    w.KeepsResults (w.startSelect select).1 := by
  unfold startSelect
  split
  · exact ⟨rfl, rfl, fun _ _ hphase => hphase⟩
  · exact ⟨rfl, rfl, fun _ _ hphase => by cases hphase⟩

theorem keepsResults_resumeHeartbeat (w : Worker) (sentAt : Timestamp)
    (rest : List LeaseAttemptKey) (reply : Except Error Unit) :
    w.KeepsResults (w.resumeHeartbeat sentAt key rest reply).1 := by
  unfold resumeHeartbeat
  split
  · exact keepsResults_heartbeatActive w _ rest
  · obtain ⟨hfinished, hpending, hphase⟩ := keepsResults_heartbeatActive
      { w with active := w.active.disableHeartbeat key } sentAt rest
    exact ⟨hfinished, hpending, hphase⟩
  · split_ifs <;> exact ⟨rfl, rfl, fun _ _ hphase => by cases hphase⟩

theorem keepsResults_resumeReap (w : Worker) (reply : Except Error Unit) :
    w.KeepsResults (w.resumeReap reply) := by
  unfold resumeReap
  split
  · exact ⟨rfl, rfl, fun _ _ hphase => by cases hphase⟩
  · split_ifs <;> exact ⟨rfl, rfl, fun _ _ hphase => by cases hphase⟩

/-- Every reaction changes the results in one of the ways. -/
theorem Reacts.resultChange (hreacts : w.Reacts now event w' effects) :
    w.ResultChange now event w' := by
  cases hreacts with
  | finish _ hmem => exact .finish hmem
  | turn hphase hdrain _ => exact .turn hphase hdrain
  | join hphase hbranch hfinished =>
      unfold joinNext
      split
      · contradiction
      · next task rest htasks =>
          split
          · exact .kept ⟨rfl, rfl, fun _ _ hphase => by cases hphase⟩
          · next pending hrecord =>
              obtain ⟨completed, rfl, rfl⟩ := recordJoinResult_eq_ok hrecord
              exact .join hphase htasks
  | completion hphase => exact .completion hphase
  | heartbeatTick hphase hbranch horder =>
      obtain ⟨hfinished, hpending, hkept⟩ := keepsResults_heartbeatActive
        { w with heartbeatTick := w.heartbeatTick.tick } now _
      exact .kept ⟨hfinished, hpending, hkept⟩
  | reserve => exact .kept (keepsResults_resumeReserve _ _)
  | wait => exact .kept (keepsResults_startSelect _ _)
  | heartbeat => exact .kept (keepsResults_resumeHeartbeat _ _ _ _)
  | reap => exact .kept (keepsResults_resumeReap _ _)
  | _ => exact .kept ⟨rfl, rfl, fun _ _ hphase => by cases hphase⟩

/-- A worker knows the results of its handlers and no others. -/
theorem Reacts.holdsResult (hreacts : w.Reacts now event w' effects) {completed : CompletedLease}
    (hholds : w'.HoldsResult completed) :
    w.HoldsResult completed ∨ event = .finish completed.task := by
  cases hreacts.resultChange with
  | kept hkeeps =>
      left
      rcases hholds with hfinished | hget | ⟨rest, hphase⟩
      · exact Or.inl (hkeeps.finished ▸ hfinished)
      · exact Or.inr (Or.inl (hkeeps.pending ▸ hget))
      · exact Or.inr (Or.inr ⟨rest, hkeeps.phase _ _ hphase⟩)
  | finish hmem =>
      rcases hholds with hfinished | hget | hphase
      · rcases List.mem_append.mp hfinished with hbefore | hnew
        · exact Or.inl (Or.inl hbefore)
        · rw [List.mem_singleton] at hnew
          exact Or.inr (by rw [hnew])
      · exact Or.inl (Or.inr (Or.inl hget))
      · exact Or.inl (Or.inr (Or.inr hphase))
  | turn hphase hdrain =>
      left
      rcases hholds.of_resolvePendingCompleted with hfinished | hget
      · cases hfinished
      · rcases get_drainJoinedJobs hdrain hget with hfinished | hbefore
        · exact Or.inl hfinished
        · exact Or.inr (Or.inl hbefore)
  | join hphase hfinished =>
      left
      rcases hholds with hrest | hget | ⟨_, hcompleting⟩
      · exact Or.inl (hfinished ▸ List.mem_cons_of_mem _ hrest)
      · rw [PendingCompleted.get_add] at hget
        split_ifs at hget
        · cases hget
          exact Or.inl (hfinished ▸ List.mem_cons_self)
        · exact Or.inr (Or.inl hget)
      · cases hcompleting
  | completion hphase =>
      left
      have hdropped {rest : List LeaseAttemptKey} {resolved : CompletedLease} :
          ({ w with active := Finmap.erase resolved.attemptKey w.active }.resolvePendingCompleted
            now rest).1.HoldsResult completed → w.HoldsResult completed := by
        intro hresolved
        rcases hresolved.of_resolvePendingCompleted with hfinished | hget
        · exact Or.inl hfinished
        · exact Or.inr (Or.inl hget)
      unfold resumeCompletion at hholds
      split at hholds
      · exact hdropped hholds
      · exact hdropped hholds
      · split_ifs at hholds
        · rcases hholds with hfinished | hget | ⟨_, hcompleting⟩
          · exact Or.inl hfinished
          · rw [PendingCompleted.get_add] at hget
            split_ifs at hget
            · cases hget
              exact Or.inr (Or.inr ⟨_, hphase⟩)
            · exact Or.inr (Or.inl hget)
          · cases hcompleting
        · rcases hholds with hfinished | hget | ⟨_, hcompleting⟩
          · exact Or.inl hfinished
          · exact Or.inr (Or.inl hget)
          · cases hcompleting

/-- Draining leaves the attempts of other tasks alone. -/
theorem get_drainJoinedJobs_of_ne {finished : List FinishedTask}
    {pending pending' : PendingCompleted} (hdrain : drainJoinedJobs pending finished = .ok pending')
    (hne : ∀ task ∈ finished, task.attemptKey ≠ key) : pending'.get key = pending.get key := by
  induction finished generalizing pending with
  | nil =>
      cases hdrain
      rfl
  | cons task rest ih =>
      rw [drainJoinedJobs, List.foldlM_cons] at hdrain
      obtain ⟨recorded, hrecord, hrest⟩ := bind_eq_ok_iff.mp hdrain
      obtain ⟨completed, rfl, rfl⟩ := recordJoinResult_eq_ok hrecord
      have hother : completed.attemptKey ≠ key := hne completed.task List.mem_cons_self
      rw [ih hrest fun other hmem => hne other (List.mem_cons_of_mem _ hmem),
        PendingCompleted.get_add, if_neg hother.symm]

/-- Resolving takes out one attempt alone. -/
theorem get_resolvePendingCompleted {order : List LeaseAttemptKey}
    (hkey : key ∉ (w.resolvePendingCompleted now order).1.resolving) :
    (w.resolvePendingCompleted now order).1.pendingCompleted.get key =
      w.pendingCompleted.get key := by
  rcases w.resolvePendingCompleted_cases now order with heq | ⟨taken, completed, rest, hget, heq⟩
  · rw [heq]
  · rw [heq] at hkey ⊢
    rw [PendingCompleted.get_erase, if_neg]
    rintro rfl
    exact hkey (Multiset.mem_singleton.mpr (PendingCompleted.of_get_eq_some hget).1.symm)

/-- An attempt that is neither joined nor resolved by a step keeps its entry among
the completed attempts. -/
theorem Reacts.get_pendingCompleted (hreacts : w.Reacts now event w' effects)
    (hfinished : ∀ task ∈ w.joinSet.finished, task.attemptKey ≠ key)
    (hbefore : key ∉ w.resolving) (hafter : key ∉ w'.resolving) :
    w'.pendingCompleted.get key = w.pendingCompleted.get key := by
  cases hreacts.resultChange with
  | kept hkeeps => rw [hkeeps.pending]
  | finish hmem => rfl
  | turn hphase hdrain =>
      exact (get_resolvePendingCompleted hafter).trans (get_drainJoinedJobs_of_ne hdrain hfinished)
  | @join _ _ completed _ hphase htasks =>
      have hother : completed.attemptKey ≠ key :=
        hfinished completed.task (htasks ▸ List.mem_cons_self)
      rw [PendingCompleted.get_add, if_neg hother.symm]
  | completion hphase =>
      unfold resumeCompletion at hafter ⊢
      split at hafter
      · exact get_resolvePendingCompleted hafter
      · exact get_resolvePendingCompleted hafter
      · dsimp only
        split_ifs
        · rw [PendingCompleted.get_add, if_neg]
          rintro rfl
          exact hbefore (by simp [resolving, hphase])
        · rfl

/-! ## Store calls -/

/-- The worker waits for the reply to a store call. -/
def Awaits (w : Worker) (op : Op) : Prop :=
  match w.phase with
  | .completing completed _ => ∃ now, op = resolveCompleted w.config now completed
  | .heartbeating now key _ =>
      op = .heartbeat w.config.workerId key.jobId key.leaseToken now w.config.leaseDuration
  | .reaping => ∃ now, op = .reapExpired now w.config.concurrency.toNat
  | .selecting select =>
      select.startedAt.isSome ∧ w.ReserveEnabled select.capacity ∧ op = w.reserveOp select
  | _ => False

/-- The worker makes a store call it waits for, stays where it is, or waits for no
reply. -/
def CallsOrIdles (w w' : Worker) (effects : List Effect) : Prop :=
  (∃ op, calls effects = [op] ∧ w'.Awaits op) ∨
    calls effects = [] ∧
      (w'.phase = w.phase ∧ (∀ op, w'.Awaits op ↔ w.Awaits op) ∨ ∀ op, ¬ w'.Awaits op)

theorem CallsOrIdles.resolvePendingCompleted (w w' : Worker) (order : List LeaseAttemptKey) :
    w.CallsOrIdles (w'.resolvePendingCompleted now order).1
      (w'.resolvePendingCompleted now order).2 := by
  rcases w'.resolvePendingCompleted_cases now order with heq | ⟨_, completed, rest, _, heq⟩
  · rw [heq]
    exact Or.inr ⟨rfl, Or.inr fun _ => id⟩
  · rw [heq]
    exact Or.inl ⟨_, rfl, now, rfl⟩

theorem CallsOrIdles.heartbeatActive (w w' : Worker) (order : List LeaseAttemptKey) :
    w.CallsOrIdles (w'.heartbeatActive now order).1 (w'.heartbeatActive now order).2 := by
  cases order with
  | nil => exact Or.inr ⟨rfl, Or.inr fun _ => id⟩
  | cons key rest => exact Or.inl ⟨_, rfl, rfl⟩

/-- Every reaction makes at most one store call, and then waits for its reply. -/
theorem Reacts.callsOrIdles (hreacts : w.Reacts now event w' effects) :
    w.CallsOrIdles w' effects := by
  cases hreacts with
  | finish => exact Or.inr ⟨rfl, Or.inl ⟨rfl, fun _ => Iff.rfl⟩⟩
  | turn => exact .resolvePendingCompleted _ _ _
  | enter =>
      refine Or.inr ⟨?_, Or.inr fun op hawaits => Bool.noConfusion hawaits.1⟩
      unfold Worker.enter calls
      dsimp only
      split_ifs <;> rfl
  | join =>
      refine Or.inr ⟨rfl, Or.inr fun op => ?_⟩
      unfold joinNext
      split
      · exact id
      · split <;> exact id
  | heartbeatTick => exact .heartbeatActive _ _ _
  | reapTick => exact Or.inl ⟨_, rfl, now, rfl⟩
  | reserve _ hbranch _ hready =>
      unfold resumeReserve
      split
      · next batch =>
          have hcalls : calls (batch.jobs.map Effect.spawn) = [] := by
            simp [calls, List.filterMap_map, Function.comp_def, Effect.call?]
          dsimp only
          split_ifs
          · rw [foldl_spawnJob]
            exact Or.inr ⟨hcalls, Or.inr fun _ => id⟩
          · exact Or.inr ⟨rfl, Or.inr fun _ => id⟩
      · split_ifs <;> exact Or.inr ⟨rfl, Or.inr fun _ => id⟩
  | wait hphase hbranch =>
      unfold startSelect
      split
      · exact Or.inr ⟨rfl, Or.inl ⟨rfl, fun _ => Iff.rfl⟩⟩
      · next select _ _ =>
          dsimp only
          split_ifs with henabled
          · exact Or.inl ⟨_, rfl, rfl, henabled, rfl⟩
          · exact Or.inr ⟨rfl, Or.inr fun op hawaits => henabled hawaits.2.1⟩
  | completion =>
      unfold resumeCompletion
      split
      · exact .resolvePendingCompleted _ _ _
      · exact .resolvePendingCompleted _ _ _
      · split_ifs <;> exact Or.inr ⟨rfl, Or.inr fun _ => id⟩
  | heartbeat =>
      unfold resumeHeartbeat
      split
      · exact .heartbeatActive _ _ _
      · exact .heartbeatActive _ _ _
      · split_ifs <;> exact Or.inr ⟨rfl, Or.inr fun _ => id⟩
  | reap =>
      refine Or.inr ⟨rfl, Or.inr fun op => ?_⟩
      unfold resumeReap
      split
      · exact id
      · split_ifs <;> exact id
  | _ => exact Or.inr ⟨rfl, Or.inr fun _ => id⟩

/-! ## Selects and heartbeat rounds -/

/-- The ways a step can leave the worker in a select or in a heartbeat round. -/
inductive PhaseChange (w : Worker) (now : Timestamp) (w' : Worker) : Event → Prop
  | kept {event : Event} (hphase : w'.phase = w.phase) (hactive : w'.active = w.active) :
      PhaseChange w now w' event
  | outside {event : Event} (houtside : w'.phase.IsOutside) : PhaseChange w now w' event
  | entered {leaseTokens : List Bytes} (hbefore : w.phase = .entering)
      (hphase : w'.phase = .selecting (w.newSelect now leaseTokens))
      (hactive : w'.active = w.active) : PhaseChange w now w' (.enter leaseTokens)
  | started {ready : Ready} {select : Select} (hbefore : w.phase = .selecting select)
      (hphase : w'.phase = .selecting { select with startedAt := some w.instant })
      (hactive : w'.active = w.active) : PhaseChange w now w' (.poll ready)
  | round {ready : Ready} {key : LeaseAttemptKey} {rest : List LeaseAttemptKey}
      (horder : Enumerates (key :: rest) w.active.heartbeatKeys)
      (hphase : w'.phase = .heartbeating now key rest) (hactive : w'.active = w.active) :
      PhaseChange w now w' (.poll ready)
  | heartbeat {reply : Except Error Unit} {sentAt : Timestamp} {previous key : LeaseAttemptKey}
      {rest : List LeaseAttemptKey}
      (hbefore : w.phase = .heartbeating sentAt previous (key :: rest))
      (hphase : w'.phase = .heartbeating sentAt key rest)
      (hkeys : w'.active.keys = w.active.keys) : PhaseChange w now w' (.resume reply)

theorem PhaseChange.resolvePendingCompleted (w w' : Worker) (sentAt : Timestamp)
    (order : List LeaseAttemptKey) :
    w.PhaseChange now (w'.resolvePendingCompleted sentAt order).1 event := by
  rcases w'.resolvePendingCompleted_cases sentAt order with heq | ⟨_, _, _, _, heq⟩ <;>
    rw [heq] <;> exact .outside trivial

/-- Every reaction leaves the worker in a select or in a round in one of the ways. -/
theorem Reacts.phaseChange (hreacts : w.Reacts now event w' effects) :
    w.PhaseChange now w' event := by
  cases hreacts with
  | finish => exact .kept rfl rfl
  | drainFailed => exact .outside trivial
  | turn => exact .resolvePendingCompleted _ _ _ _
  | enter hphase _ => exact .entered hphase rfl rfl
  | join =>
      unfold joinNext
      split
      · exact .outside trivial
      · split
        · exact .outside trivial
        · exact .outside trivial
  | @heartbeatTick _ ready _ _ horder =>
      cases hkeys : ready.heartbeatOrder with
      | nil => exact .outside trivial
      | cons key rest => exact .round (hkeys ▸ horder) rfl rfl
  | reapTick => exact .outside trivial
  | runtimeSleep => exact .outside trivial
  | reserve =>
      unfold resumeReserve
      split
      · dsimp only
        split_ifs
        · rw [foldl_spawnJob]
          exact .outside trivial
        · exact .outside trivial
      · split_ifs
        · exact .outside trivial
        · exact .outside trivial
  | pollSleep => exact .outside trivial
  | wait hphase _ =>
      unfold startSelect
      split
      · exact .kept rfl rfl
      · exact .started hphase rfl rfl
  | completion =>
      unfold resumeCompletion
      split
      · exact .resolvePendingCompleted _ _ _ _
      · exact .resolvePendingCompleted _ _ _ _
      · split_ifs
        · exact .outside trivial
        · exact .outside trivial
  | @heartbeat sentAt key rest reply hphase =>
      unfold resumeHeartbeat
      split
      · cases rest with
        | nil => exact .outside trivial
        | cons next rest => exact .heartbeat hphase rfl rfl
      · cases rest with
        | nil => exact .outside trivial
        | cons next rest => exact .heartbeat hphase rfl ActiveLeases.keys_disableHeartbeat
      · split_ifs
        · exact .outside trivial
        · exact .outside trivial
  | reap =>
      unfold resumeReap
      split
      · exact .outside trivial
      · split_ifs
        · exact .outside trivial
        · exact .outside trivial

end Worker

end Redloop
