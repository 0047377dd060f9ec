/-
# Handlers, tokens and calls

What a step does to the running handlers, that a select has a token for each job it
asks for, and what the store calls of a worker say about it: they name the worker by
its configuration, and an ack is sent only for a handler that completed.
-/

import Redloop.Queue.Placement
import Redloop.Worker.Changes

namespace Redloop

/-- The operations that a worker of the configuration sends. -/
def Op.SentBy (op : Op) (config : WorkerConfig) : Prop :=
  match op with
  | reserve reserving _ _ _ => reserving = config
  | heartbeat workerId _ _ _ _ => workerId = config.workerId
  | ack workerId _ _ _ => workerId = config.workerId
  | completeAndReschedule workerId _ _ _ _ => workerId = config.workerId
  | failOrRetry request => request.workerId = config.workerId
  | reapExpired _ _ => True
  | _ => False

/-- A granted job is in the batch that a poll reports. -/
theorem Event.mem_granted {event : Event} {lease : ReservedJob} (hmem : lease ∈ event.granted) :
    ∃ ready batch, event = .poll ready ∧ ready.reserved = some (.ok batch) ∧
      lease ∈ batch.jobs := by
  unfold granted at hmem
  split at hmem
  · exact ⟨_, _, rfl, rfl, hmem⟩
  · cases hmem

namespace Worker

variable {w w' : Worker} {now : Timestamp} {event : Event} {effects : List Effect} {op : Op}

/-! ## Running handlers -/

/-- The ways a step can change the running handlers. -/
inductive RunningChange (w w' : Worker) (effects : List Effect) : Event → Prop
  | kept {event : Event} (hrunning : w'.joinSet.running = w.joinSet.running)
      (hspawns : spawns effects = []) : RunningChange w w' effects event
  | spawned {event : Event}
      (hrunning : w'.joinSet.running = w.joinSet.running ++ spawns effects)
      (hspawns : spawns effects = event.granted) : RunningChange w w' effects event
  | finished {task : FinishedTask} (hmem : task.lease ∈ w.joinSet.running)
      (hrunning : w'.joinSet.running = w.joinSet.running.erase task.lease)
      (hspawns : spawns effects = []) : RunningChange w w' effects (.finish task)

theorem RunningChange.resolvePendingCompleted (w w' : Worker) (order : List LeaseAttemptKey)
    (hrunning : w'.joinSet.running = w.joinSet.running) :
    w.RunningChange (w'.resolvePendingCompleted now order).1
      (w'.resolvePendingCompleted now order).2 event := by
  rcases w'.resolvePendingCompleted_cases now order with heq | ⟨_, _, _, _, heq⟩ <;>
    rw [heq] <;> exact .kept hrunning rfl

theorem RunningChange.heartbeatActive (w w' : Worker) (order : List LeaseAttemptKey)
    (hrunning : w'.joinSet.running = w.joinSet.running) :
    w.RunningChange (w'.heartbeatActive now order).1 (w'.heartbeatActive now order).2 event := by
  cases order <;> exact .kept hrunning rfl

/-- Every reaction changes the running handlers in one of the ways. -/
theorem Reacts.runningChange (hreacts : w.Reacts now event w' effects) :
    w.RunningChange w' effects event := by
  cases hreacts with
  | finish _ hmem => exact .finished hmem rfl rfl
  | turn =>
      apply RunningChange.resolvePendingCompleted
      rfl
  | enter =>
      refine .kept rfl ?_
      unfold Worker.enter spawns
      dsimp only
      split_ifs <;> rfl
  | join =>
      unfold joinNext
      split
      · exact .kept rfl rfl
      · split <;> exact .kept rfl rfl
  | heartbeatTick =>
      apply RunningChange.heartbeatActive
      rfl
  | reserve hphase hbranch henabled hready =>
      unfold resumeReserve
      split
      · next batch =>
          have hgranted := Event.granted_of_reserved hready
          have hspawns : spawns (batch.jobs.map Effect.spawn) = batch.jobs := by
            simp [spawns, List.filterMap_map, Function.comp_def, Effect.spawn?]
          dsimp only
          split_ifs
          · rw [foldl_spawnJob]
            exact .spawned (by rw [hspawns]) (by rw [hspawns, hgranted])
          · exact .kept rfl rfl
      · split_ifs <;> exact .kept rfl rfl
  | wait =>
      unfold startSelect
      split
      · exact .kept rfl rfl
      · refine .kept rfl ?_
        dsimp only
        split_ifs <;> rfl
  | completion =>
      unfold resumeCompletion
      split
      · apply RunningChange.resolvePendingCompleted
        rfl
      · apply RunningChange.resolvePendingCompleted
        rfl
      · split_ifs <;> exact .kept rfl rfl
  | heartbeat =>
      unfold resumeHeartbeat
      split
      · apply RunningChange.heartbeatActive
        rfl
      · apply RunningChange.heartbeatActive
        rfl
      · split_ifs <;> exact .kept rfl rfl
  | reap =>
      refine .kept ?_ rfl
      unfold resumeReap
      split
      · rfl
      · split_ifs <;> rfl
  | _ => exact .kept rfl rfl

/-! ## Tokens -/

/-- A select has as many tokens as it asks for jobs. -/
def Stocked (w : Worker) : Prop :=
  ∀ select, w.phase = .selecting select → select.leaseTokens.length = select.capacity

theorem Reacts.stocked (hreacts : w.Reacts now event w' effects) (hstocked : w.Stocked) :
    w'.Stocked := by
  intro select hphase
  cases hreacts.phaseChange with
  | kept hsame _ => exact hstocked select (hsame ▸ hphase)
  | outside houtside =>
      rw [hphase] at houtside
      exact houtside.elim
  | entered _ hafter _ =>
      rw [hphase] at hafter
      cases hafter
      cases hreacts with
      | enter _ htokens => exact htokens
  | started hbefore hafter _ =>
      rw [hphase] at hafter
      cases hafter
      exact (hstocked _ hbefore :)
  | round _ hafter _ =>
      rw [hphase] at hafter
      cases hafter
  | heartbeat _ hafter _ =>
      rw [hphase] at hafter
      cases hafter

/-! ## Store calls -/

/-- A worker sends its calls under its own name. -/
theorem Awaits.sentBy (hawaits : w.Awaits op) : op.SentBy w.config := by
  unfold Awaits at hawaits
  split at hawaits
  · obtain ⟨_, rfl⟩ := hawaits
    unfold resolveCompleted
    split <;> rfl
  · rw [hawaits]
    rfl
  · obtain ⟨_, rfl⟩ := hawaits
    exact trivial
  · obtain ⟨_, _, rfl⟩ := hawaits
    rfl
  · exact hawaits.elim

/-- A worker that is stocked has the tokens for its calls. -/
theorem Awaits.hasTokens (hawaits : w.Awaits op) (hstocked : w.Stocked) : op.HasTokens := by
  unfold Awaits at hawaits
  split at hawaits
  · obtain ⟨_, rfl⟩ := hawaits
    unfold resolveCompleted
    split <;> exact trivial
  · rw [hawaits]
    exact trivial
  · obtain ⟨_, rfl⟩ := hawaits
    exact trivial
  · next select hphase =>
      obtain ⟨_, _, rfl⟩ := hawaits
      exact (hstocked select hphase).ge
  · exact hawaits.elim

/-- A worker that waits for an ack holds the result of a handler that completed. -/
theorem Awaits.of_ack {workerId jobId leaseToken : Bytes} {sentAt : Timestamp}
    (hawaits : w.Awaits (.ack workerId jobId leaseToken sentAt)) :
    w.HoldsResult ⟨jobId, leaseToken, .ok .complete⟩ := by
  unfold Awaits at hawaits
  split at hawaits
  · next completed rest hphase =>
      obtain ⟨completedJob, completedToken, result⟩ := completed
      obtain ⟨_, hop⟩ := hawaits
      unfold resolveCompleted at hop
      split at hop
      · next hresult =>
          cases hop
          cases hresult
          exact Or.inr (Or.inr ⟨rest, hphase⟩)
      · cases hop
      · cases hop
      · cases hop
  · cases hawaits
  · obtain ⟨_, hop⟩ := hawaits
    cases hop
  · cases hawaits.2.2
  · exact hawaits.elim

/-- A worker that waits for a reserve is in a select in which the reserve takes part. -/
theorem Awaits.of_reserve {config : WorkerConfig} {availableCapacity : ℕ} {sentAt : Timestamp}
    {leaseTokens : List Bytes}
    (hawaits : w.Awaits (.reserve config availableCapacity sentAt leaseTokens)) :
    ∃ select, w.phase = .selecting select ∧ w.ReserveEnabled select.capacity := by
  unfold Awaits at hawaits
  split at hawaits
  · obtain ⟨_, hop⟩ := hawaits
    unfold resolveCompleted at hop
    split at hop <;> cases hop
  · cases hawaits
  · obtain ⟨_, hop⟩ := hawaits
    cases hop
  · next select hphase => exact ⟨select, hphase, hawaits.2.1⟩
  · exact hawaits.elim

end Worker

end Redloop
