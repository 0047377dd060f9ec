/-
# What a worker step can do

Runs of the worker loop, and one inversion of its step: every step is one of the
reactions listed here, with the next state spelled out. Facts about the loop are
derived from these cases and from one lemma about each helper that iterates.
-/

import Redloop.Data.Trace
import Redloop.Worker.Run

namespace Redloop

namespace Worker

variable {w w' : Worker} {now : Timestamp} {moment : Moment} {event : Event}
  {effects : List Effect}

/-- The worker after an event. -/
def next (w : Worker) (label : Moment × Event) : Option Worker :=
  (w.step label.1 label.2).map Prod.fst

/-- The worker after a sequence of events. -/
def run (w : Worker) (labels : List (Moment × Event)) : Option Worker := runTrace next w labels

/-- The worker has not stopped with an error. -/
def Runs (w : Worker) : Prop := ∀ error, w.phase ≠ .returned error

/-- The reactions of the worker to an event. -/
inductive Reacts (w : Worker) (now : Timestamp) : Event → Worker → List Effect → Prop
  | finish {task : FinishedTask} (hruns : w.Runs) (hmem : task.lease ∈ w.joinSet.running) :
      Reacts w now (.finish task) { w with joinSet := w.joinSet.finish task } []
  | drainFailed {order : List LeaseAttemptKey} {error : Error} (hphase : w.phase = .top)
      (hdrain : drainJoinedJobs w.pendingCompleted w.joinSet.finished = .error error) :
      Reacts w now (.turn order) (w.fail error) []
  | turn {order : List LeaseAttemptKey} {pending : PendingCompleted} (hphase : w.phase = .top)
      (hdrain : drainJoinedJobs w.pendingCompleted w.joinSet.finished = .ok pending)
      (horder : Enumerates order pending.keys) :
      Reacts w now (.turn order) (w.turn now pending order).1 (w.turn now pending order).2
  | enter {leaseTokens : List Bytes} (hphase : w.phase = .entering)
      (htokens : leaseTokens.length = w.capacity) :
      Reacts w now (.enter leaseTokens) (w.enter now leaseTokens).1 (w.enter now leaseTokens).2
  | join {select : Select} {ready : Ready} (hphase : w.phase = .selecting select)
      (hbranch : w.branch select ready = some .join) (hfinished : w.joinSet.finished ≠ []) :
      Reacts w now (.poll ready) w.joinNext []
  | heartbeatTick {select : Select} {ready : Ready} (hphase : w.phase = .selecting select)
      (hbranch : w.branch select ready = some .heartbeat)
      (horder : Enumerates ready.heartbeatOrder w.active.heartbeatKeys) :
      Reacts w now (.poll ready)
        ({ w with heartbeatTick := w.heartbeatTick.tick }.heartbeatActive now
          ready.heartbeatOrder).1
        ({ w with heartbeatTick := w.heartbeatTick.tick }.heartbeatActive now
          ready.heartbeatOrder).2
  | reapTick {select : Select} {ready : Ready} (hphase : w.phase = .selecting select)
      (hbranch : w.branch select ready = some .reap) :
      Reacts w now (.poll ready) { w with reapTick := w.reapTick.tick, phase := .reaping }
        [.call (.reapExpired now w.config.concurrency.toNat)]
  | runtimeSleep {select : Select} {ready : Ready} (hphase : w.phase = .selecting select)
      (hbranch : w.branch select ready = some .runtimeSleep)
      (hbackoff : w.runtimeBackoffUntil.isSome) :
      Reacts w now (.poll ready) { w with runtimeBackoffUntil := none, phase := .top } []
  | reserve {select : Select} {ready : Ready} {reserved : Except Error ReserveBatch}
      (hphase : w.phase = .selecting select)
      (hbranch : w.branch select ready = some (.reserve reserved))
      (henabled : w.ReserveEnabled select.capacity) (hready : ready.reserved = some reserved) :
      Reacts w now (.poll ready) (w.resumeReserve now reserved).1 (w.resumeReserve now reserved).2
  | pollSleep {select : Select} {ready : Ready} (hphase : w.phase = .selecting select)
      (hbranch : w.branch select ready = some .pollSleep)
      (henabled : w.PollSleepEnabled select.capacity) :
      Reacts w now (.poll ready) w.wakePollSleep []
  | wait {select : Select} {ready : Ready} (hphase : w.phase = .selecting select)
      (hbranch : w.branch select ready = none) :
      Reacts w now (.poll ready) (w.startSelect select).1 (w.startSelect select).2
  | completion {completed : CompletedLease} {rest : List LeaseAttemptKey}
      {reply : Except Error Unit} (hphase : w.phase = .completing completed rest) :
      Reacts w now (.resume reply) (w.resumeCompletion now completed rest reply).1
        (w.resumeCompletion now completed rest reply).2
  | heartbeat {sentAt : Timestamp} {key : LeaseAttemptKey} {rest : List LeaseAttemptKey}
      {reply : Except Error Unit} (hphase : w.phase = .heartbeating sentAt key rest) :
      Reacts w now (.resume reply) (w.resumeHeartbeat sentAt key rest reply).1
        (w.resumeHeartbeat sentAt key rest reply).2
  | reap {reply : Except Error Unit} (hphase : w.phase = .reaping) :
      Reacts w now (.resume reply) (w.resumeReap reply) []

/-- A branch fires only when it takes part and is ready. -/
theorem reacts_of_branch {select : Select} {ready : Ready} {branch : Branch}
    (hphase : w.phase = .selecting select) (hadmits : w.Admits select ready)
    (hbranch : w.branch select ready = some branch) :
    w.Reacts now (.poll ready) (w.fire now ready branch).1 (w.fire now ready branch).2 := by
  have hchosen := hbranch
  unfold Worker.branch at hchosen
  split_ifs at hchosen with hfinished hheartbeat hreap hbackoff hreserve hsleep
  · cases hchosen
    exact .join hphase hbranch hfinished
  · cases hchosen
    exact .heartbeatTick hphase hbranch (hadmits.2.2.2.2 hheartbeat.2)
  · cases hchosen
    exact .reapTick hphase hbranch
  · cases hchosen
    exact .runtimeSleep hphase hbranch hbackoff.1
  · obtain ⟨reserved, hready, rfl⟩ := Option.map_eq_some_iff.mp hchosen
    exact .reserve hphase hbranch hreserve hready
  · cases hchosen
    exact .pollSleep hphase hbranch hsleep.1

/-- Every step of the worker is one of the reactions. -/
theorem reacts_of_react {result : Worker × List Effect}
    (hreact : w.react now event = some result) : w.Reacts now event result.1 result.2 := by
  unfold react at hreact
  split at hreact
  · cases hreact
  · next task phase hphase =>
      split_ifs at hreact with hmem
      cases hreact
      exact .finish hphase hmem
  · next order hphase =>
      split at hreact
      · next error hdrain =>
          cases hreact
          exact .drainFailed hphase hdrain
      · next pending hdrain =>
          split_ifs at hreact with horder
          cases hreact
          exact .turn hphase hdrain horder
  · next leaseTokens hphase =>
      split_ifs at hreact with htokens
      cases hreact
      exact .enter hphase htokens
  · next ready select hphase =>
      split_ifs at hreact with hadmits
      cases hreact
      cases hbranch : w.branch select ready with
      | none =>
          rw [poll, hbranch]
          exact .wait hphase hbranch
      | some branch =>
          rw [poll, hbranch]
          exact reacts_of_branch hphase hadmits hbranch
  · next reply completed rest hphase =>
      cases hreact
      exact .completion hphase
  · next reply sentAt key rest hphase =>
      cases hreact
      exact .heartbeat hphase
  · next reply hphase =>
      cases hreact
      exact .reap hphase
  · cases hreact

/-- A step sets the clock and reacts. -/
theorem step_eq_some (hstep : w.step moment event = some (w', effects)) :
    w.instant ≤ moment.instant ∧
      { w with instant := moment.instant }.Reacts moment.now event w' effects := by
  unfold step at hstep
  split_ifs at hstep with hle
  exact ⟨hle, reacts_of_react hstep⟩

/-! ## Helpers that iterate -/

/-- Resolving takes one pending attempt out of the map or ends. -/
theorem resolvePendingCompleted_cases (w : Worker) (now : Timestamp)
    (order : List LeaseAttemptKey) :
    w.resolvePendingCompleted now order = ({ w with phase := .entering }, []) ∨
      ∃ key completed rest, w.pendingCompleted.get key = some completed ∧
        w.resolvePendingCompleted now order =
          ({ w with
              pendingCompleted := Finmap.erase key w.pendingCompleted
              phase := .completing completed rest },
            [.call (resolveCompleted w.config now completed)]) := by
  induction order with
  | nil => exact Or.inl rfl
  | cons key rest ih =>
      rw [resolvePendingCompleted]
      cases hget : w.pendingCompleted.get key with
      | none => exact ih
      | some completed => exact Or.inr ⟨key, completed, rest, hget, rfl⟩

/-- A heartbeat round is over or sends the next heartbeat. -/
theorem heartbeatActive_cases (w : Worker) (now : Timestamp) (order : List LeaseAttemptKey) :
    w.heartbeatActive now order = (w.toTop, []) ∨
      ∃ key ∈ order, ∃ rest, order = key :: rest ∧ w.heartbeatActive now order =
        ({ w with phase := .heartbeating now key rest },
          [.call (.heartbeat w.config.workerId key.jobId key.leaseToken now
            w.config.leaseDuration)]) := by
  cases order with
  | nil => exact Or.inl rfl
  | cons key rest => exact Or.inr ⟨key, List.mem_cons_self, rest, rfl, rfl⟩

/-- Resolving changes only the completed attempts and the phase. -/
theorem resolvePendingCompleted_frame (w : Worker) (now : Timestamp)
    (order : List LeaseAttemptKey) : ∃ pending phase,
      (w.resolvePendingCompleted now order).1 =
        { w with pendingCompleted := pending, phase := phase } := by
  rcases w.resolvePendingCompleted_cases now order with heq | ⟨_, _, _, _, heq⟩ <;>
    exact ⟨_, _, congrArg Prod.fst heq⟩

/-- A heartbeat round changes only the phase. -/
theorem heartbeatActive_frame (w : Worker) (now : Timestamp) (order : List LeaseAttemptKey) :
    ∃ phase, (w.heartbeatActive now order).1 = { w with phase := phase } := by
  cases order <;> exact ⟨_, rfl⟩

/-- Spawning handlers changes only the join set and the active attempts. -/
theorem foldl_spawnJob (w : Worker) (jobs : List ReservedJob) :
    jobs.foldl spawnJob w =
      { w with
        joinSet := { w.joinSet with running := w.joinSet.running ++ jobs }
        active := jobs.foldl ActiveLeases.addReserved w.active } := by
  induction jobs generalizing w with
  | nil => simp
  | cons job rest ih =>
      rw [List.foldl_cons, List.foldl_cons, ih]
      simp [spawnJob, JoinSet.spawn]

/-! ## What never changes -/

/-- A worker that has stopped takes no step. -/
theorem Reacts.runs (hreacts : w.Reacts now event w' effects) : w.Runs := by
  intro error hreturned
  cases hreacts <;> simp_all [Runs]

/-- The configuration never changes, and the clock moves before the reaction. -/
theorem Reacts.config_eq (hreacts : w.Reacts now event w' effects) :
    w'.config = w.config ∧ w'.instant = w.instant := by
  cases hreacts with
  | turn =>
      obtain ⟨_, _, heq⟩ := resolvePendingCompleted_frame _ _ _
      rw [Worker.turn, heq]
      exact ⟨rfl, rfl⟩
  | join =>
      unfold joinNext
      split
      · exact ⟨rfl, rfl⟩
      · split <;> exact ⟨rfl, rfl⟩
  | heartbeatTick =>
      obtain ⟨_, heq⟩ := heartbeatActive_frame _ _ _
      rw [heq]
      exact ⟨rfl, rfl⟩
  | reserve =>
      unfold resumeReserve
      split
      · dsimp only
        split_ifs
        · rw [foldl_spawnJob]
          exact ⟨rfl, rfl⟩
        · exact ⟨rfl, rfl⟩
      · split_ifs <;> exact ⟨rfl, rfl⟩
  | wait =>
      unfold startSelect
      split <;> exact ⟨rfl, rfl⟩
  | completion =>
      unfold resumeCompletion
      split
      · obtain ⟨_, _, heq⟩ := resolvePendingCompleted_frame _ _ _
        rw [heq]
        exact ⟨rfl, rfl⟩
      · obtain ⟨_, _, heq⟩ := resolvePendingCompleted_frame _ _ _
        rw [heq]
        exact ⟨rfl, rfl⟩
      · split_ifs <;> exact ⟨rfl, rfl⟩
  | heartbeat =>
      unfold resumeHeartbeat
      split
      · obtain ⟨_, heq⟩ := heartbeatActive_frame _ _ _
        rw [heq]
        exact ⟨rfl, rfl⟩
      · obtain ⟨_, heq⟩ := heartbeatActive_frame _ _ _
        rw [heq]
        exact ⟨rfl, rfl⟩
      · split_ifs <;> exact ⟨rfl, rfl⟩
  | reap =>
      unfold resumeReap
      split
      · exact ⟨rfl, rfl⟩
      · split_ifs <;> exact ⟨rfl, rfl⟩
  | _ => exact ⟨rfl, rfl⟩

end Worker

/-- The moment of the given number of milliseconds after the start of a sample run. -/
def Moment.ofMillis (millis : ℕ) (hle : millis ≤ 1000000 := by decide) : Moment :=
  ⟨millis * 1000000, .ofSeconds millis (by omega)⟩

/-- The worker of the sample configuration. -/
def sampleWorker : Worker := .initial "jobs" sampleConfig 0

theorem sampleWorker_start : Worker.start "jobs" sampleConfig 0 = .ok sampleWorker := by
  have hvalid : sampleConfig.validate = .ok () := by decide
  rw [Worker.start, hvalid]
  rfl

/-- The sample worker reserves a job and starts its handler. -/
def sampleWorkerRun : List (Moment × Event) :=
  [(.ofMillis 0, .turn []), (.ofMillis 1, .enter ["token"]), (.ofMillis 2, .poll {}),
    (.ofMillis 3, .poll { reserved := some (.ok ⟨[⟨"job", "token"⟩], none⟩) })]

end Redloop
