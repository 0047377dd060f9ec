/-
# The worker processes of the system

Every entry of the history has its cause before it: a handler was started because a
reserve of its worker granted the lease, it ended because it was started, and an ack
was executed because the handler of its lease had completed. Behind it stands what
each process knows: its running handlers were started, the results it holds are of
handlers that ended, and the call it waits for is the one it sent.
-/

import Redloop.System.Calls
import Redloop.Worker.Handlers

namespace Redloop

/-- A worker waits for a reply when it waits for the reply to some call. -/
theorem Worker.awaitsReply_iff {w : Worker} : w.AwaitsReply ↔ ∃ op, w.Awaits op := by
  unfold AwaitsReply Awaits
  cases hphase : w.phase with
  | completing completed rest =>
      exact iff_of_true trivial ⟨resolveCompleted w.config (.ofSeconds 0) completed, _, rfl⟩
  | heartbeating now key rest => exact iff_of_true trivial ⟨_, rfl⟩
  | reaping =>
      exact iff_of_true trivial ⟨.reapExpired (.ofSeconds 0) w.config.concurrency.toNat, _, rfl⟩
  | selecting select =>
      constructor
      · rintro ⟨hstarted, henabled⟩
        exact ⟨_, hstarted, henabled, rfl⟩
      · rintro ⟨_, hstarted, henabled, _⟩
        exact ⟨hstarted, henabled⟩
  | _ => simp

/-- What is recorded has its cause before it. -/
def Caused (before : List Entry) : Entry → Prop
  | .executed _ sender (.ack _ jobId leaseToken _) _ =>
      ∃ pid, sender = some pid ∧
        .finished pid ⟨⟨jobId, leaseToken⟩, some (.ok .complete)⟩ ∈ before
  | .executed _ _ _ _ => True
  | .spawned pid lease =>
      ∃ id config availableCapacity now leaseTokens reply,
        .executed id (some pid) (.reserve config availableCapacity now leaseTokens) reply ∈ before ∧
          (lease.jobId, lease.leaseToken) ∈ reply.leases
  | .finished pid task => .spawned pid task.lease ∈ before
  | .answered _ _ => True

/-- A cause stays one when more is recorded. -/
theorem Caused.append {before : List Entry} {entry : Entry} (hcaused : Caused before entry)
    (more : List Entry) : Caused (before ++ more) entry := by
  cases entry with
  | executed id sender op reply =>
      cases op with
      | ack =>
          obtain ⟨pid, hsender, hmem⟩ := hcaused
          exact ⟨pid, hsender, List.mem_append_left _ hmem⟩
      | _ => trivial
  | spawned pid lease =>
      obtain ⟨id, config, availableCapacity, now, leaseTokens, reply, hmem, hlease⟩ := hcaused
      exact ⟨id, config, availableCapacity, now, leaseTokens, reply,
        List.mem_append_left _ hmem, hlease⟩
  | finished pid task => exact List.mem_append_left _ hcaused
  | answered pid key => trivial

/-! ## What is recorded when a worker observes an event -/

theorem mem_entriesOf_finish {pid : ℕ} {phase : Phase} {task : FinishedTask}
    {effects : List Effect} :
    Entry.finished pid task ∈ entriesOf pid phase (.finish task) effects :=
  List.mem_append_left _ List.mem_cons_self

theorem mem_entriesOf_spawned {pid : ℕ} {phase : Phase} {event : Event} {effects : List Effect}
    {lease : ReservedJob} (hmem : lease ∈ spawns effects) :
    Entry.spawned pid lease ∈ entriesOf pid phase event effects :=
  List.mem_append_right _ (List.mem_append_right _ (List.mem_map_of_mem hmem))

theorem mem_entriesOf_answered {pid : ℕ} {phase : Phase} {event : Event} {effects : List Effect}
    {key : LeaseAttemptKey} (hkey : resolvedKey phase event = some key) :
    Entry.answered pid key ∈ entriesOf pid phase event effects :=
  List.mem_append_right _ (List.mem_append_left _ (List.mem_map_of_mem (by simp [hkey])))

/-- The entries of an event are those of its handlers. -/
theorem entriesOf_cases {pid : ℕ} {phase : Phase} {event : Event} {effects : List Effect}
    {entry : Entry} (hmem : entry ∈ entriesOf pid phase event effects) :
    (∃ task, event = .finish task ∧ entry = .finished pid task) ∨
      (∃ key, entry = .answered pid key) ∨
        ∃ lease ∈ spawns effects, entry = .spawned pid lease := by
  unfold entriesOf at hmem
  rw [List.mem_append, List.mem_append, List.mem_map, List.mem_map] at hmem
  rcases hmem with hfinished | ⟨key, _, rfl⟩ | ⟨lease, hlease, rfl⟩
  · split at hfinished
    · next task =>
        cases List.mem_singleton.mp hfinished
        exact Or.inl ⟨task, rfl, rfl⟩
    · cases hfinished
  · exact Or.inr (Or.inl ⟨key, rfl⟩)
  · exact Or.inr (Or.inr ⟨lease, hlease, rfl⟩)

/-- What a client reads as reserved is in the reply to a reserve. -/
theorem Call.exists_reserve_of_batch? {call : Call} {batch : ReserveBatch}
    (hbatch : call.batch? = some (.ok batch)) :
    ∃ config availableCapacity now leaseTokens reply,
      call.op = .reserve config availableCapacity now leaseTokens ∧ call.reply = some reply ∧
        parseReserveResponse config.workerId reply = .ok batch := by
  unfold batch? at hbatch
  split at hbatch
  · next config availableCapacity now leaseTokens reply hop hreply =>
      exact ⟨config, availableCapacity, now, leaseTokens, reply, hop, hreply,
        Option.some.inj hbatch⟩
  · cases hbatch

namespace System

variable {s s' : System} {action : Action} {pid : ℕ} {process : Process}

/-! ## What stays -/

/-- A later state: more is recorded, calls ask for what they asked for, and processes
keep their configuration. -/
structure Extends (s s' : System) : Prop where
  history : ∀ entry ∈ s.history, entry ∈ s'.history
  sent : ∀ (id : ℕ) (call : Call), s.sent[id]? = some call →
    ∃ reply, s'.sent[id]? = some ⟨call.sender, call.op, reply⟩
  processes : ∀ (pid : ℕ) (process : Process), s.processes[pid]? = some process →
    ∃ process', s'.processes[pid]? = some process' ∧
      process'.worker.config = process.worker.config

/-- A process that replaces one with the same configuration. -/
theorem exists_process_set {process' : Process} (hprocess : s.processes[pid]? = some process)
    (hconfig : process'.worker.config = process.worker.config) (other : ℕ) (old : Process)
    (hold : s.processes[other]? = some old) :
    ∃ kept, (s.processes.set pid process')[other]? = some kept ∧
      kept.worker.config = old.worker.config := by
  obtain ⟨hpid, _⟩ := List.getElem?_eq_some_iff.mp hprocess
  rw [List.getElem?_set]
  split_ifs with hother
  · subst hother
    rw [hprocess] at hold
    cases hold
    exact ⟨process', rfl, hconfig⟩
  · exact ⟨old, hold, rfl⟩

theorem getElem?_append_of_eq_some {α : Type} {items more : List α} {index : ℕ} {item : α}
    (hitem : items[index]? = some item) : (items ++ more)[index]? = some item := by
  obtain ⟨hindex, _⟩ := List.getElem?_eq_some_iff.mp hitem
  rw [List.getElem?_append_left hindex, hitem]

theorem getElem?_set_cases {α : Type} {items : List α} {index other : ℕ} {item found : α}
    (hfound : (items.set index item)[other]? = some found) :
    (index = other ∧ item = found) ∨ items[other]? = some found := by
  rw [List.getElem?_set] at hfound
  split_ifs at hfound with hindex hlength
  · exact Or.inl ⟨hindex, Option.some.inj hfound⟩
  · exact Or.inr hfound

/-- Every step leads to a later state. -/
theorem Steps.extends (hsteps : s.Steps action s') : s.Extends s' := by
  cases hsteps with
  | submit =>
      refine ⟨fun _ hmem => hmem, fun id call hcall => ?_, fun _ process hprocess => ?_⟩
      · exact ⟨call.reply, getElem?_append_of_eq_some hcall⟩
      · exact ⟨process, hprocess, rfl⟩
  | start =>
      refine ⟨fun _ hmem => hmem, fun id call hcall => ?_, fun _ process hprocess => ?_⟩
      · exact ⟨call.reply, hcall⟩
      · exact ⟨process, getElem?_append_of_eq_some hprocess, rfl⟩
  | crash hprocess =>
      refine ⟨fun _ hmem => hmem, fun id call hcall => ⟨call.reply, hcall⟩, ?_⟩
      apply exists_process_set hprocess
      rfl
  | @execute executed call hcall _ =>
      refine ⟨fun _ => List.mem_append_left _, fun id old hold => ?_, fun _ process hprocess => ?_⟩
      · obtain ⟨hid, _⟩ := List.getElem?_eq_some_iff.mp hcall
        show ∃ reply, (s.sent.set executed (call.execute s.store))[id]? = _
        rw [List.getElem?_set]
        split_ifs with hother
        · subst hother
          rw [hcall] at hold
          cases hold
          exact ⟨_, rfl⟩
        · exact ⟨old.reply, hold⟩
      · exact ⟨process, hprocess, rfl⟩
  | lose =>
      refine ⟨fun _ hmem => hmem, fun id call hcall => ?_, fun _ process hprocess => ?_⟩
      · exact ⟨call.reply, hcall⟩
      · exact ⟨process, hprocess, rfl⟩
  | observe hprocess _ hstep _ _ =>
      refine ⟨fun _ => List.mem_append_left _, fun id call hcall => ?_, ?_⟩
      · exact ⟨call.reply, getElem?_append_of_eq_some hcall⟩
      · apply exists_process_set hprocess
        exact (Worker.step_eq_some hstep).2.config_eq.1

/-! ## What calls and processes know -/

/-- A call is one that its sender makes: a client makes those of clients, a worker those
under its own name, and an ack only after the handler of its lease has completed. -/
structure CallSound (s : System) (sender : Option ℕ) (op : Op) : Prop where
  hasTokens : op.HasTokens
  client : sender = none → op.IsClient
  sentBy : ∀ pid, sender = some pid →
    ∃ process, s.processes[pid]? = some process ∧ op.SentBy process.worker.config
  acked : ∀ workerId jobId leaseToken now, op = .ack workerId jobId leaseToken now →
    ∃ pid, sender = some pid ∧
      .finished pid ⟨⟨jobId, leaseToken⟩, some (.ok .complete)⟩ ∈ s.history

theorem CallSound.extends {sender : Option ℕ} {op : Op} (hsound : s.CallSound sender op)
    (hextends : s.Extends s') : s'.CallSound sender op where
  hasTokens := hsound.hasTokens
  client := hsound.client
  sentBy pid hsender := by
    obtain ⟨process, hprocess, hsent⟩ := hsound.sentBy pid hsender
    obtain ⟨process', hprocess', hconfig⟩ := hextends.processes pid process hprocess
    exact ⟨process', hprocess', hconfig ▸ hsent⟩
  acked workerId jobId leaseToken now hop := by
    obtain ⟨pid, hsender, hmem⟩ := hsound.acked workerId jobId leaseToken now hop
    exact ⟨pid, hsender, hextends.history _ hmem⟩

/-- The calls of a client. -/
theorem callSound_of_isClient {op : Op} (hclient : op.IsClient) : s.CallSound none op where
  hasTokens := by
    cases op with
    | reserve => exact hclient.elim
    | _ => trivial
  client _ := hclient
  sentBy _ hsender := by cases hsender
  acked _ _ _ _ hop := by
    rw [hop] at hclient
    exact hclient.elim

/-- What a process knows is recorded, and it waits for a call that it sent. -/
structure ProcessSound (s : System) (pid : ℕ) (process : Process) : Prop where
  running : ∀ lease ∈ process.worker.joinSet.running, .spawned pid lease ∈ s.history
  results : ∀ completed, process.worker.HoldsResult completed →
    .finished pid completed.task ∈ s.history
  stocked : process.worker.Stocked
  awaits : ∀ id, process.awaiting = some id → ∃ call, s.sent[id]? = some call ∧
    call.sender = some pid ∧ process.worker.Awaits call.op

theorem ProcessSound.extends (hsound : s.ProcessSound pid process) (hextends : s.Extends s') :
    s'.ProcessSound pid process where
  running lease hmem := hextends.history _ (hsound.running lease hmem)
  results completed hholds := hextends.history _ (hsound.results completed hholds)
  stocked := hsound.stocked
  awaits id hid := by
    obtain ⟨call, hcall, hsender, hawaits⟩ := hsound.awaits id hid
    obtain ⟨reply, hkept⟩ := hextends.sent id call hcall
    exact ⟨_, hkept, hsender, hawaits⟩

/-- A worker starts without handlers, results and calls. -/
theorem processSound_of_start {namespaceName : Bytes} {config : WorkerConfig} {instant : Instant}
    {worker : Worker} (hstart : Worker.start namespaceName config instant = .ok worker) :
    s.ProcessSound pid ⟨worker, none, true⟩ := by
  obtain ⟨_, _, hstart⟩ := bind_eq_ok_iff.mp hstart
  cases hstart
  refine ⟨fun _ hmem => ?_, ?_, fun _ hphase => ?_, fun _ hid => ?_⟩
  · cases hmem
  · rintro completed (hfinished | hget | ⟨_, hphase⟩)
    · cases hfinished
    · cases hget
    · cases hphase
  · cases hphase
  · cases hid

/-- The calls and the processes of the system are sound, and its history is caused. -/
structure Sound (s : System) : Prop where
  recorded : s.Recorded
  calls : ∀ call ∈ s.sent, s.CallSound call.sender call.op
  processes : ∀ pid process, s.processes[pid]? = some process → s.ProcessSound pid process
  caused : Justified Caused s.history

theorem sound_initial (namespaceName : Bytes) : (initial namespaceName).Sound where
  recorded := recorded_initial namespaceName
  calls := by simp [initial]
  processes := by simp [initial]
  caused := .nil

/-! ## Observing an event -/

section Observe

variable {moment : Moment} {event : Event} {worker : Worker} {effects : List Effect}

/-- What an event reports as reserved was read from the reply to the awaited call. -/
theorem Delivers.reserved {ready : Ready} {batch : ReserveBatch}
    (hdelivers : s.Delivers process (.poll ready)) (hready : ready.reserved = some (.ok batch)) :
    ∃ id call, process.awaiting = some id ∧ id ∉ s.lost ∧ s.sent[id]? = some call ∧
      call.batch? = some (.ok batch) := by
  unfold Delivers at hdelivers
  dsimp only at hdelivers
  rw [hready] at hdelivers
  cases hid : process.awaiting with
  | none =>
      rw [hid] at hdelivers
      exact hdelivers.elim
  | some id =>
      rw [hid] at hdelivers
      rcases hdelivers with hread | hfailed
      · obtain ⟨call, harriving, hbatch⟩ := Option.bind_eq_some_iff.mp hread
        unfold arriving at harriving
        split_ifs at harriving with hlost
        exact ⟨id, call, rfl, hlost, harriving, hbatch⟩
      · exact hfailed.elim

/-- The lease of a handler that is started was granted by a reserve of its worker. -/
theorem Sound.caused_spawned (hsound : s.Sound) (hprocess : s.processes[pid]? = some process)
    (hdelivers : s.Delivers process event) {lease : ReservedJob} (hlease : lease ∈ event.granted) :
    Caused s.history (.spawned pid lease) := by
  obtain ⟨ready, batch, rfl, hready, hmem⟩ := Event.mem_granted hlease
  obtain ⟨id, call, hid, _, hcall, hbatch⟩ := hdelivers.reserved hready
  obtain ⟨config, availableCapacity, now, leaseTokens, reply, hop, hreply, hparse⟩ :=
    Call.exists_reserve_of_batch? hbatch
  obtain ⟨awaited, hawaited, hsender, _⟩ := (hsound.processes pid process hprocess).awaits id hid
  rw [hcall] at hawaited
  cases hawaited
  refine ⟨id, config, availableCapacity, now, leaseTokens, reply, ?_, ?_⟩
  · rw [hsound.recorded.executed_iff, hcall, ← hop, ← hsender, ← hreply]
  · rw [leases_of_parseReserveResponse hparse]
    exact List.mem_map_of_mem hmem

/-- What a worker observes has its cause in the history. -/
theorem Sound.caused_entriesOf (hsound : s.Sound) (hprocess : s.processes[pid]? = some process)
    (hdelivers : s.Delivers process event)
    (hreacts : { process.worker with instant := moment.instant }.Reacts moment.now event worker
      effects) {entry : Entry} (hentry : entry ∈ entriesOf pid process.worker.phase event effects) :
    Caused s.history entry := by
  rcases entriesOf_cases hentry with ⟨task, rfl, rfl⟩ | ⟨key, rfl⟩ | ⟨lease, hlease, rfl⟩
  · cases hreacts with
    | finish _ hmem => exact (hsound.processes pid process hprocess).running _ hmem
  · trivial
  · cases hreacts.runningChange with
    | kept _ hspawns => simp [hspawns] at hlease
    | spawned _ hspawns =>
        exact hsound.caused_spawned hprocess hdelivers (hspawns ▸ hlease)
    | finished _ _ hspawns => simp [hspawns] at hlease

/-- After an event the process knows what is recorded, and waits for a call it sent. -/
theorem ProcessSound.observed (hsound : s.ProcessSound pid process)
    (hextends : s.Extends (s.observed pid process event worker effects))
    (hreacts : { process.worker with instant := moment.instant }.Reacts moment.now event worker
      effects) :
    (s.observed pid process event worker effects).ProcessSound pid
      { process with
        worker := worker
        awaiting :=
          if calls effects ≠ [] then some s.sent.length
          else if worker.AwaitsReply then process.awaiting
          else none } where
  running lease hmem := by
    have hbefore := fun lease hlease => hextends.history _ (hsound.running lease hlease)
    cases hreacts.runningChange with
    | kept hrunning _ => exact hbefore lease (hrunning ▸ hmem)
    | spawned hrunning _ =>
        rw [hrunning] at hmem
        rcases List.mem_append.mp hmem with hold | hnew
        · exact hbefore lease hold
        · exact List.mem_append_right _ (mem_entriesOf_spawned hnew)
    | finished _ hrunning _ =>
        rw [hrunning] at hmem
        exact hbefore lease (List.mem_of_mem_erase hmem)
  results completed hholds := by
    rcases hreacts.holdsResult hholds with hold | rfl
    · exact hextends.history _ (hsound.results completed hold)
    · exact List.mem_append_right _ mem_entriesOf_finish
  stocked := hreacts.stocked hsound.stocked
  awaits id hid := by
    rcases hreacts.callsOrIdles with ⟨op, hcalls, hawaits⟩ | ⟨hcalls, hkept⟩
    · rw [if_pos (by simp [hcalls])] at hid
      cases hid
      refine ⟨.send (some pid) op, ?_, rfl, hawaits⟩
      simp [System.observed, hcalls]
    · rw [if_neg (by simp [hcalls]), Option.ite_none_right_eq_some] at hid
      obtain ⟨hreply, hid⟩ := hid
      obtain ⟨call, hcall, hsender, hawaits⟩ := hsound.awaits id hid
      obtain ⟨reply, hsent⟩ := hextends.sent id call hcall
      rcases hkept with ⟨_, hsame⟩ | hnone
      · exact ⟨_, hsent, hsender, (hsame _).mpr hawaits⟩
      · obtain ⟨op, hop⟩ := Worker.awaitsReply_iff.mp hreply
        exact absurd hop (hnone op)

end Observe

/-- The call that an event makes is one that its worker makes. -/
theorem ProcessSound.callSound {call : Call}
    (hsound : s'.ProcessSound pid process) (hprocess : s'.processes[pid]? = some process)
    (hsender : call.sender = some pid) (hawaits : process.worker.Awaits call.op) :
    s'.CallSound call.sender call.op where
  hasTokens := hawaits.hasTokens hsound.stocked
  client hnone := by
    rw [hsender] at hnone
    cases hnone
  sentBy other hother := by
    rw [hsender] at hother
    cases hother
    exact ⟨process, hprocess, hawaits.sentBy⟩
  acked workerId jobId leaseToken now hop := by
    rw [hop] at hawaits
    exact ⟨pid, hsender, hsound.results _ hawaits.of_ack⟩

/-- The system is sound in every step. -/
theorem Sound.step (hsound : s.Sound) (hsteps : s.Steps action s') : s'.Sound := by
  have hextends := hsteps.extends
  have hcalls (call : Call) (hcall : call ∈ s.sent) : s'.CallSound call.sender call.op :=
    (hsound.calls call hcall).extends hextends
  have hprocesses (pid : ℕ) (process : Process) (hprocess : s.processes[pid]? = some process) :
      s'.ProcessSound pid process := (hsound.processes pid process hprocess).extends hextends
  have hrecorded := hsound.recorded.step hsteps
  cases hsteps with
  | submit hclient =>
      refine ⟨hrecorded, fun call hcall => ?_, hprocesses, hsound.caused⟩
      rcases List.mem_append.mp hcall with hold | hnew
      · exact hcalls call hold
      · cases List.mem_singleton.mp hnew
        exact callSound_of_isClient hclient
  | start hstart =>
      refine ⟨hrecorded, hcalls, fun pid process hprocess => ?_, hsound.caused⟩
      rcases lt_trichotomy pid s.processes.length with hold | rfl | hbeyond
      · rw [List.getElem?_append_left hold] at hprocess
        exact hprocesses pid process hprocess
      · rw [List.getElem?_concat_length] at hprocess
        cases hprocess
        exact processSound_of_start hstart
      · rw [List.getElem?_eq_none (by simp; omega)] at hprocess
        cases hprocess
  | @crash crashed process hcrashed =>
      refine ⟨hrecorded, hcalls, fun pid other hprocess => ?_, hsound.caused⟩
      rcases getElem?_set_cases hprocess with ⟨rfl, rfl⟩ | hold
      · have hbefore := hprocesses crashed process hcrashed
        exact ⟨hbefore.running, hbefore.results, hbefore.stocked, hbefore.awaits⟩
      · exact hprocesses pid other hold
  | @execute id call hcall hreply =>
      refine ⟨hrecorded, fun other hother => ?_, hprocesses, hsound.caused.concat ?_⟩
      · rcases List.mem_or_eq_of_mem_set hother with hold | rfl
        · exact hcalls other hold
        · exact hcalls call (List.mem_of_getElem? hcall)
      · have hacked := (hsound.calls call (List.mem_of_getElem? hcall)).acked
        cases hop : call.op with
        | ack workerId jobId leaseToken now => exact hacked workerId jobId leaseToken now hop
        | _ => trivial
  | lose => exact ⟨hrecorded, hcalls, hprocesses, hsound.caused⟩
  | @observe pid process moment event worker effects hprocess halive hstep hdelivers hfresh =>
      have hreacts := (Worker.step_eq_some hstep).2
      have hobserved := (hsound.processes pid process hprocess).observed hextends hreacts
      refine ⟨hrecorded, fun call hcall => ?_, fun other process' hprocess' => ?_, ?_⟩
      · rcases List.mem_append.mp hcall with hold | hnew
        · exact hcalls call hold
        · obtain ⟨op, hop, rfl⟩ := List.mem_map.mp hnew
          rcases hreacts.callsOrIdles with ⟨sentOp, heffects, hawaits⟩ | ⟨heffects, _⟩
          · rw [heffects, List.mem_singleton] at hop
            subst hop
            refine hobserved.callSound ?_ rfl hawaits
            obtain ⟨hpid, _⟩ := List.getElem?_eq_some_iff.mp hprocess
            simp [observed, hpid]
          · simp [heffects] at hop
      · rcases getElem?_set_cases hprocess' with ⟨rfl, rfl⟩ | hold
        · exact hobserved
        · exact hprocesses other process' hold
      · apply hsound.caused.append
        intro entry hentry more
        exact (hsound.caused_entriesOf hprocess hdelivers hreacts hentry).append more

/-- The system is sound wherever a run ends. -/
theorem sound_run {namespaceName : Bytes} {actions : List Action}
    (hrun : (initial namespaceName).run actions = some s) : s.Sound := by
  apply runTrace_invariant (motive := Sound) (sound_initial namespaceName) _ hrun
  intro middle action next hsound hstep
  exact hsound.step (step_eq_some hstep)

end System

end Redloop
