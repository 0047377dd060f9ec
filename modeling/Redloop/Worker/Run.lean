/-
# The worker loop

One worker as a machine that takes a step at every event it observes. A loop
iteration drains the finished handlers, resolves the completed attempts one store
call after the other, and enters a biased select over six branches. A store call
that is a branch body is awaited to its end; the reserve call is itself a branch
future, so it is sent at the first poll that reaches it and dropped when another
branch fires. Handlers finish at any time. Every event carries what the clocks
read, and timers are never early.
-/

import Redloop.Worker.Leases

namespace Redloop

/-! ## State -/

/-- A handler task that has ended: it returned, or it panicked. -/
structure FinishedTask where
  lease : ReservedJob
  result : Option HandlerResult
  deriving DecidableEq

/-- The handler tasks that are not joined: those that run, and those that have
ended, in the order in which they ended. -/
structure JoinSet where
  running : List ReservedJob
  finished : List FinishedTask
  deriving DecidableEq

namespace JoinSet

def empty : JoinSet := ⟨[], []⟩

def spawn (joinSet : JoinSet) (lease : ReservedJob) : JoinSet :=
  { joinSet with running := joinSet.running ++ [lease] }

/-- A running task ends. -/
def finish (joinSet : JoinSet) (task : FinishedTask) : JoinSet :=
  ⟨joinSet.running.erase task.lease, joinSet.finished ++ [task]⟩

end JoinSet

/-- A periodic timer that catches up with missed ticks one by one. -/
structure Interval where
  next : Instant
  period : Duration
  deriving DecidableEq

/-- A tick that fired is followed by the next one. -/
def Interval.tick (interval : Interval) : Interval :=
  { interval with next := interval.next + interval.period.val }

/-- The branch futures of one select. They start at its first poll that no
branch ends. -/
structure Select where
  capacity : ℕ
  reserveNow : Timestamp
  leaseTokens : List Bytes
  runtimeSleepFor : Duration
  sleepFor : Duration
  startedAt : Option Instant
  deriving DecidableEq

/-- Where the worker is in its loop. -/
inductive Phase
  | top
  | completing (completed : CompletedLease) (rest : List LeaseAttemptKey)
  | entering
  | selecting (select : Select)
  | heartbeating (now : Timestamp) (key : LeaseAttemptKey) (rest : List LeaseAttemptKey)
  | reaping
  | returned (error : Error)
  deriving DecidableEq

/-- A worker: its configuration, the variables of its loop, and where it is. -/
structure Worker where
  namespaceName : Bytes
  config : WorkerConfig
  heartbeatTick : Interval
  reapTick : Interval
  joinSet : JoinSet
  active : ActiveLeases
  pendingCompleted : PendingCompleted
  pollDelay : Duration
  nextScheduleAt : Option Timestamp
  reserveSleep : Option (Duration × Bool)
  runtimeBackoffUntil : Option Instant
  phase : Phase
  instant : Instant

/-- What a worker does besides changing its own state. -/
inductive Effect
  | call (op : Op)
  | spawn (lease : ReservedJob)
  | pollSleep (duration : Duration)
  | runtimeSleep (duration : Duration)
  deriving DecidableEq

/-- The store call an effect makes. -/
def Effect.call? : Effect → Option Op
  | call op => some op
  | _ => none

/-- The handler an effect starts. -/
def Effect.spawn? : Effect → Option ReservedJob
  | spawn lease => some lease
  | _ => none

/-- The store calls that the effects of a step make. -/
def calls (effects : List Effect) : List Op := effects.filterMap Effect.call?

/-- The handlers that the effects of a step start. -/
def spawns (effects : List Effect) : List ReservedJob := effects.filterMap Effect.spawn?

/-- What the branches of a select report when they are polled, and the order in
which a heartbeat round would visit the active attempts. -/
structure Ready where
  heartbeatTick : Bool := false
  reapTick : Bool := false
  runtimeSleep : Bool := false
  reserved : Option (Except Error ReserveBatch) := none
  pollSleep : Bool := false
  heartbeatOrder : List LeaseAttemptKey := []

/-- What a worker observes. -/
inductive Event
  | finish (task : FinishedTask)
  | turn (order : List LeaseAttemptKey)
  | enter (leaseTokens : List Bytes)
  | poll (ready : Ready)
  | resume (reply : Except Error Unit)

namespace Worker

/-- The variables of the loop before its first iteration. The first ticks are
immediate. -/
def initial (namespaceName : Bytes) (config : WorkerConfig) (instant : Instant) : Worker where
  namespaceName := namespaceName
  config := config
  heartbeatTick := ⟨instant, config.heartbeatInterval⟩
  reapTick := ⟨instant, config.reapInterval⟩
  joinSet := .empty
  active := ∅
  pendingCompleted := ∅
  pollDelay := config.pollIntervalMin
  nextScheduleAt := none
  reserveSleep := none
  runtimeBackoffUntil := none
  phase := .top
  instant := instant

/-- A worker starts with a valid configuration. -/
def start (namespaceName : Bytes) (config : WorkerConfig) (instant : Instant) :
    Except Error Worker := do
  config.validate
  pure (initial namespaceName config instant)

/-- The worker stops with an error. -/
def fail (w : Worker) (error : Error) : Worker := { w with phase := .returned error }

/-- The loop continues from its top. -/
def toTop (w : Worker) : Worker := { w with phase := .top }

/-- Back off after a recoverable error. -/
def backOff (w : Worker) : Worker :=
  { w with
    runtimeBackoffUntil := some (runtimeBackoffDeadline w.instant w.config.pollIntervalMin) }

/-! ## Joining and resolving -/

/-- Record the end of a handler. A panic stops the worker. -/
def recordJoinResult (pending : PendingCompleted) (task : FinishedTask) :
    Except Error PendingCompleted :=
  match task.result with
  | some result => .ok (pending.add ⟨task.lease.jobId, task.lease.leaseToken, result⟩)
  | none => .error .workerTaskJoin

/-- Record the handlers that have ended, in order. -/
def drainJoinedJobs (pending : PendingCompleted) (finished : List FinishedTask) :
    Except Error PendingCompleted :=
  finished.foldlM recordJoinResult pending

/-- Resolve the next of the given attempts that is pending. The attempt is taken
out of the map while its store call is awaited. -/
def resolvePendingCompleted (w : Worker) (now : Timestamp) :
    List LeaseAttemptKey → Worker × List Effect
  | [] => ({ w with phase := .entering }, [])
  | key :: rest =>
      match w.pendingCompleted.get key with
      | none => w.resolvePendingCompleted now rest
      | some completed =>
          ({ w with
              pendingCompleted := Finmap.erase key w.pendingCompleted
              phase := .completing completed rest },
            [.call (resolveCompleted w.config now completed)])

/-- The top of the loop after the drain: end an elapsed backoff and, outside a
backoff, start to resolve the completed attempts. -/
def turn (w : Worker) (now : Timestamp) (pending : PendingCompleted)
    (order : List LeaseAttemptKey) : Worker × List Effect :=
  let drained :=
    { w with
      joinSet := { w.joinSet with finished := [] }
      pendingCompleted := pending
      runtimeBackoffUntil :=
        if runtimeBackoffReady w.instant w.runtimeBackoffUntil then none
        else w.runtimeBackoffUntil }
  drained.resolvePendingCompleted now (if drained.runtimeBackoffUntil.isNone then order else [])

/-- The reply to the store call of a completed attempt. -/
def resumeCompletion (w : Worker) (now : Timestamp) (completed : CompletedLease)
    (rest : List LeaseAttemptKey) (reply : Except Error Unit) : Worker × List Effect :=
  let dropped := { w with active := Finmap.erase completed.attemptKey w.active }
  match reply with
  | .ok () => dropped.resolvePendingCompleted now rest
  | .error (.leaseMismatch _) => dropped.resolvePendingCompleted now rest
  | .error error =>
      if error.isRecoverableWorkerRuntime then
        ({ w.backOff with
            pendingCompleted := w.pendingCompleted.add completed
            phase := .entering }, [])
      else (w.fail error, [])

/-! ## Entering the select -/

/-- The capacity left for a reserve. -/
def capacity (w : Worker) : ℕ := w.config.concurrency.toNat - w.active.len

/-- Whether the branch of the poll sleep takes part in a select. -/
def PollSleepEnabled (w : Worker) (capacity : ℕ) : Prop :=
  0 < capacity ∧ w.reserveSleep.isSome

/-- Whether the reserve branch takes part in a select. -/
def ReserveEnabled (w : Worker) (capacity : ℕ) : Prop :=
  0 < capacity ∧ w.reserveSleep.isNone ∧ w.runtimeBackoffUntil.isNone

instance (w : Worker) (capacity : ℕ) : Decidable (w.PollSleepEnabled capacity) :=
  inferInstanceAs (Decidable (_ ∧ _))

instance (w : Worker) (capacity : ℕ) : Decidable (w.ReserveEnabled capacity) :=
  inferInstanceAs (Decidable (_ ∧ _))

/-- The futures of the next select. A pending reserve sleep keeps its duration. -/
def newSelect (w : Worker) (now : Timestamp) (leaseTokens : List Bytes) : Select where
  capacity := w.capacity
  reserveNow := now
  leaseTokens := leaseTokens
  runtimeSleepFor := runtimeBackoffRemaining w.instant w.runtimeBackoffUntil
  sleepFor := (w.reserveSleep.map Prod.fst).getD (sleepDuration now w.pollDelay w.nextScheduleAt)
  startedAt := none

/-- Enter a select with fresh futures. -/
def enter (w : Worker) (now : Timestamp) (leaseTokens : List Bytes) : Worker × List Effect :=
  let select := w.newSelect now leaseTokens
  ({ w with phase := .selecting select },
    (if w.runtimeBackoffUntil.isSome then [.runtimeSleep select.runtimeSleepFor] else []) ++
      if w.PollSleepEnabled select.capacity then [.pollSleep select.sleepFor] else [])

/-! ## The branches of the select -/

/-- The branches of the select, in their order. -/
inductive Branch
  | join
  | heartbeat
  | reap
  | runtimeSleep
  | reserve (reserved : Except Error ReserveBatch)
  | pollSleep

/-- The first branch that takes part and is ready. -/
def branch (w : Worker) (select : Select) (ready : Ready) : Option Branch :=
  if w.joinSet.finished ≠ [] then some .join
  else if w.active.len ≠ 0 ∧ ready.heartbeatTick then some .heartbeat
  else if w.runtimeBackoffUntil.isNone ∧ ready.reapTick then some .reap
  else if w.runtimeBackoffUntil.isSome ∧ ready.runtimeSleep then some .runtimeSleep
  else if w.ReserveEnabled select.capacity then ready.reserved.map .reserve
  else if w.PollSleepEnabled select.capacity ∧ ready.pollSleep then some .pollSleep
  else none

/-- Join the handler that ended first. -/
def joinNext (w : Worker) : Worker :=
  match w.joinSet.finished with
  | [] => w.toTop
  | task :: rest =>
      match recordJoinResult w.pendingCompleted task with
      | .error error => w.fail error
      | .ok pending =>
          { w with
            joinSet := { w.joinSet with finished := rest }
            pendingCompleted := pending
            phase := .top }

/-- Heartbeat the given attempts, one store call after the other. -/
def heartbeatActive (w : Worker) (now : Timestamp) : List LeaseAttemptKey → Worker × List Effect
  | [] => (w.toTop, [])
  | key :: rest =>
      ({ w with phase := .heartbeating now key rest },
        [.call (.heartbeat w.config.workerId key.jobId key.leaseToken now
          w.config.leaseDuration)])

/-- The reply to a heartbeat. A lost lease is not heartbeated again. -/
def resumeHeartbeat (w : Worker) (now : Timestamp) (key : LeaseAttemptKey)
    (rest : List LeaseAttemptKey) (reply : Except Error Unit) : Worker × List Effect :=
  match reply with
  | .ok () => w.heartbeatActive now rest
  | .error (.leaseMismatch _) =>
      { w with active := w.active.disableHeartbeat key }.heartbeatActive now rest
  | .error error =>
      if error.isRecoverableWorkerRuntime then (w.backOff.toTop, []) else (w.fail error, [])

/-- The reply to a reap. -/
def resumeReap (w : Worker) (reply : Except Error Unit) : Worker :=
  match reply with
  | .ok () => w.toTop
  | .error error => if error.isRecoverableWorkerRuntime then w.backOff.toTop else w.fail error

/-- Start the handler of a reserved job. -/
def spawnJob (w : Worker) (lease : ReservedJob) : Worker :=
  { w with
    joinSet := w.joinSet.spawn lease
    active := w.active.addReserved lease }

/-- The reply to a reserve. -/
def resumeReserve (w : Worker) (now : Timestamp) (reserved : Except Error ReserveBatch) :
    Worker × List Effect :=
  match reserved with
  | .ok batch =>
      let scheduled := { w with nextScheduleAt := batch.nextScheduleAt }
      if batch.jobs ≠ [] then
        (batch.jobs.foldl spawnJob
            { scheduled with pollDelay := w.config.pollIntervalMin, phase := .top },
          batch.jobs.map .spawn)
      else
        ({ scheduled with
            reserveSleep := some (sleepDuration now w.pollDelay batch.nextScheduleAt, true)
            phase := .top }, [])
  | .error error =>
      if error.isRecoverableWorkerRuntime then
        ({ w with
            reserveSleep := some (w.pollDelay, false)
            pollDelay := nextPollDelay w.pollDelay w.config.pollIntervalMax
            phase := .top }, [])
      else (w.fail error, [])

/-- The poll sleep has ended. -/
def wakePollSleep (w : Worker) : Worker :=
  { w with
    reserveSleep := none
    pollDelay :=
      if w.reserveSleep.any Prod.snd then nextPollDelay w.pollDelay w.config.pollIntervalMax
      else w.pollDelay
    phase := .top }

/-- Run the branch that the select chose. -/
def fire (w : Worker) (now : Timestamp) (ready : Ready) : Branch → Worker × List Effect
  | .join => (w.joinNext, [])
  | .heartbeat =>
      { w with heartbeatTick := w.heartbeatTick.tick }.heartbeatActive now ready.heartbeatOrder
  | .reap =>
      ({ w with reapTick := w.reapTick.tick, phase := .reaping },
        [.call (.reapExpired now w.config.concurrency.toNat)])
  | .runtimeSleep => ({ w with runtimeBackoffUntil := none, phase := .top }, [])
  | .reserve reserved => w.resumeReserve now reserved
  | .pollSleep => (w.wakePollSleep, [])

/-- The reserve call of a select. -/
def reserveOp (w : Worker) (select : Select) : Op :=
  .reserve w.config select.capacity select.reserveNow select.leaseTokens

/-- The first poll that no branch ends starts the sleeps and sends the reserve. -/
def startSelect (w : Worker) (select : Select) : Worker × List Effect :=
  match select.startedAt with
  | some _ => (w, [])
  | none =>
      ({ w with phase := .selecting { select with startedAt := some w.instant } },
        if w.ReserveEnabled select.capacity then [.call (w.reserveOp select)] else [])

/-- Poll a select: run the branch that is chosen, or wait. -/
def poll (w : Worker) (now : Timestamp) (select : Select) (ready : Ready) :
    Worker × List Effect :=
  match w.branch select ready with
  | some branch => w.fire now ready branch
  | none => w.startSelect select

/-- What can be reported by the branches at an instant: a timer fires no earlier
than it is due, and a heartbeat round visits the attempts that are heartbeated. -/
def Admits (w : Worker) (select : Select) (ready : Ready) : Prop :=
  let startedAt := select.startedAt.getD w.instant
  (ready.heartbeatTick → w.heartbeatTick.next ≤ w.instant) ∧
    (ready.reapTick → w.reapTick.next ≤ w.instant) ∧
    (ready.runtimeSleep → startedAt + select.runtimeSleepFor.val ≤ w.instant) ∧
    (ready.pollSleep → startedAt + select.sleepFor.val ≤ w.instant) ∧
    (ready.heartbeatTick → Enumerates ready.heartbeatOrder w.active.heartbeatKeys)

instance (w : Worker) (select : Select) (ready : Ready) : Decidable (w.Admits select ready) :=
  inferInstanceAs (Decidable (_ ∧ _))

/-! ## Steps -/

/-- The step at an event, when the event can happen. -/
def react (w : Worker) (now : Timestamp) (event : Event) : Option (Worker × List Effect) :=
  match event, w.phase with
  | .finish _, .returned _ => none
  | .finish task, _ =>
      if task.lease ∈ w.joinSet.running then some ({ w with joinSet := w.joinSet.finish task }, [])
      else none
  | .turn order, .top =>
      match drainJoinedJobs w.pendingCompleted w.joinSet.finished with
      | .error error => some (w.fail error, [])
      | .ok pending =>
          if Enumerates order pending.keys then some (w.turn now pending order) else none
  | .enter leaseTokens, .entering =>
      if leaseTokens.length = w.capacity then some (w.enter now leaseTokens) else none
  | .poll ready, .selecting select =>
      if w.Admits select ready then some (w.poll now select ready) else none
  | .resume reply, .completing completed rest => some (w.resumeCompletion now completed rest reply)
  | .resume reply, .heartbeating now key rest => some (w.resumeHeartbeat now key rest reply)
  | .resume reply, .reaping => some (w.resumeReap reply, [])
  | _, _ => none

/-- The step at an event, at a moment that is not before the previous one. -/
def step (w : Worker) (moment : Moment) (event : Event) : Option (Worker × List Effect) :=
  if w.instant ≤ moment.instant then { w with instant := moment.instant }.react moment.now event
  else none

end Worker

end Redloop
