/-
# The one run of a handler

The handler of a lease is started at most once in the whole system, and a handler that
was started runs or has ended. Every completion of the lease that Redis executes, however
often the call is sent again, reports the result with which that one run has ended.
-/

import Redloop.Queue.Policy
import Redloop.Queue.Tokens
import Redloop.System.Delivery

namespace Redloop

/-! ## Leases of one reserve -/

/-- A reserve lists no job twice, and no more jobs than it was asked for. -/
theorem Store.leases_bounded (s : Store) (config : WorkerConfig) (availableCapacity : ℕ)
    (now : Timestamp) (leaseTokens : List Bytes) :
    let leases := (s.reply (.reserve config availableCapacity now leaseTokens)).leases
    (leases.map Prod.fst).Nodup ∧ leases.length ≤ availableCapacity := by
  by_cases hcapacity : availableCapacity = 0
  · subst hcapacity
    exact ⟨List.nodup_nil, Nat.zero_le _⟩
  · by_cases hrefuses : s.registry.Refuses config.retryPolicyKey
    · rw [reply, exec_reserve_of_refuses hcapacity hrefuses]
      exact ⟨List.nodup_nil, Nat.zero_le _⟩
    · have hjobIds := jobIds_leases hrefuses availableCapacity now leaseTokens
      constructor
      · rw [hjobIds, List.map_take]
        exact (nodup_candidates s _).sublist (List.take_sublist _ _)
      · rw [← List.length_map Prod.fst, hjobIds, List.length_map]
        exact (List.length_take_le _ _).trans (min_le_left _ _)

/-- Only workers complete leases. -/
theorem Op.IsCompletion.not_isClient {op : Op} {workerId jobId leaseToken : Bytes}
    (hcompletion : op.IsCompletion workerId jobId leaseToken) : ¬ op.IsClient := by
  cases op with
  | ack | completeAndReschedule | failOrRetry => exact id
  | _ => exact hcompletion.elim

/-- The completion that a worker makes of a result is one of the lease of the result. -/
theorem isCompletion_resolveCompleted {config : WorkerConfig} {now : Timestamp}
    {completed : CompletedLease} {workerId jobId leaseToken : Bytes} :
    (resolveCompleted config now completed).IsCompletion workerId jobId leaseToken ↔
      config.workerId = workerId ∧ completed.jobId = jobId ∧
        completed.leaseToken = leaseToken := by
  unfold resolveCompleted
  split <;> exact Iff.rfl

/-! ## Handlers in the history -/

/-- The lease whose handler was started. -/
def Entry.started? : Entry → Option ReservedJob
  | spawned _ lease => some lease
  | _ => none

/-- The leases whose handlers were started, in the order of their starts. -/
def started (history : List Entry) : List ReservedJob := history.filterMap Entry.started?

/-- The lease whose handler was started by a process. -/
def Entry.startedBy? (pid : ℕ) : Entry → Option ReservedJob
  | spawned other lease => if other = pid then some lease else none
  | _ => none

/-- The leases whose handlers a process started. -/
def startedBy (pid : ℕ) (history : List Entry) : List ReservedJob :=
  history.filterMap (Entry.startedBy? pid)

/-- The handler that has ended in a process. -/
def Entry.endedBy? (pid : ℕ) : Entry → Option FinishedTask
  | finished other task => if other = pid then some task else none
  | _ => none

/-- The handlers that have ended in a process, with their results. -/
def endedBy (pid : ℕ) (history : List Entry) : List FinishedTask :=
  history.filterMap (Entry.endedBy? pid)

section Handlers

variable {pid : ℕ} {history : List Entry} {lease : ReservedJob} {task : FinishedTask}
  {phase : Phase} {event : Event} {effects : List Effect}

@[simp]
theorem started_append (first second : List Entry) :
    started (first ++ second) = started first ++ started second := List.filterMap_append

@[simp]
theorem startedBy_append (first second : List Entry) :
    startedBy pid (first ++ second) = startedBy pid first ++ startedBy pid second :=
  List.filterMap_append

@[simp]
theorem endedBy_append (first second : List Entry) :
    endedBy pid (first ++ second) = endedBy pid first ++ endedBy pid second :=
  List.filterMap_append

theorem mem_started : lease ∈ started history ↔ ∃ pid, .spawned pid lease ∈ history := by
  constructor
  · intro hmem
    obtain ⟨entry, hentry, hlease⟩ := List.mem_filterMap.mp hmem
    cases entry with
    | spawned pid other =>
        cases hlease
        exact ⟨pid, hentry⟩
    | _ => cases hlease
  · rintro ⟨pid, hmem⟩
    exact List.mem_filterMap.mpr ⟨_, hmem, rfl⟩

theorem mem_startedBy : lease ∈ startedBy pid history ↔ .spawned pid lease ∈ history := by
  constructor
  · intro hmem
    obtain ⟨entry, hentry, hlease⟩ := List.mem_filterMap.mp hmem
    cases entry with
    | spawned other started =>
        obtain ⟨rfl, hsame⟩ := Option.ite_none_right_eq_some.mp hlease
        cases hsame
        exact hentry
    | _ => cases hlease
  · intro hmem
    exact List.mem_filterMap.mpr ⟨_, hmem, if_pos rfl⟩

theorem mem_endedBy : task ∈ endedBy pid history ↔ .finished pid task ∈ history := by
  constructor
  · intro hmem
    obtain ⟨entry, hentry, htask⟩ := List.mem_filterMap.mp hmem
    cases entry with
    | finished other ended =>
        obtain ⟨rfl, hsame⟩ := Option.ite_none_right_eq_some.mp htask
        cases hsame
        exact hentry
    | _ => cases htask
  · intro hmem
    exact List.mem_filterMap.mpr ⟨_, hmem, if_pos rfl⟩

/-- What a process started is a part of what was started. -/
theorem startedBy_sublist (pid : ℕ) (history : List Entry) :
    (startedBy pid history).Sublist (started history) := by
  induction history with
  | nil => exact List.Sublist.slnil
  | cons entry rest ih =>
      cases entry with
      | spawned other lease =>
          rw [startedBy, List.filterMap_cons, Entry.startedBy?]
          split_ifs
          · exact ih.cons_cons lease
          · exact ih.cons lease
      | _ => exact ih

theorem started_entriesOf : started (entriesOf pid phase event effects) = spawns effects := by
  have hmap (leases : List ReservedJob) :
      (leases.map (Entry.spawned pid)).filterMap Entry.started? = leases := by
    rw [List.filterMap_map]
    exact List.filterMap_some
  unfold started entriesOf
  rw [List.filterMap_append, List.filterMap_append, hmap]
  cases event <;> cases resolvedKey phase _ <;> rfl

theorem startedBy_entriesOf :
    startedBy pid (entriesOf pid phase event effects) = spawns effects := by
  have hmap (leases : List ReservedJob) :
      (leases.map (Entry.spawned pid)).filterMap (Entry.startedBy? pid) = leases := by
    rw [List.filterMap_map]
    simp [Function.comp_def, Entry.startedBy?]
  unfold startedBy entriesOf
  rw [List.filterMap_append, List.filterMap_append, hmap]
  cases event <;> cases resolvedKey phase _ <;> rfl

/-- The handler whose end an event reports. -/
def Event.ended? : Event → Option FinishedTask
  | finish task => some task
  | _ => none

theorem endedBy_entriesOf :
    endedBy pid (entriesOf pid phase event effects) = event.ended?.toList := by
  have hmap (leases : List ReservedJob) :
      (leases.map (Entry.spawned pid)).filterMap (Entry.endedBy? pid) = [] := by
    rw [List.filterMap_map]
    exact List.filterMap_eq_nil_iff.mpr fun _ _ => rfl
  unfold endedBy entriesOf
  rw [List.filterMap_append, List.filterMap_append, hmap]
  cases event <;> cases resolvedKey phase _ <;> simp [Entry.endedBy?, Event.ended?]

/-- A process records its own handlers. -/
theorem entriesOf_of_ne {other : ℕ} (hne : other ≠ pid) (phase : Phase) (event : Event)
    (effects : List Effect) :
    startedBy other (entriesOf pid phase event effects) = [] ∧
      endedBy other (entriesOf pid phase event effects) = [] := by
  constructor
  · apply List.eq_nil_iff_forall_not_mem.mpr
    intro lease hmem
    rcases entriesOf_cases (mem_startedBy.mp hmem) with ⟨_, _, heq⟩ | ⟨_, heq⟩ | ⟨_, _, heq⟩ <;>
      cases heq
    exact hne rfl
  · apply List.eq_nil_iff_forall_not_mem.mpr
    intro task hmem
    rcases entriesOf_cases (mem_endedBy.mp hmem) with ⟨_, _, heq⟩ | ⟨_, heq⟩ | ⟨_, _, heq⟩ <;>
      cases heq
    exact hne rfl

end Handlers

/-! ## Steps of a worker -/

namespace Worker

variable {w w' : Worker} {now : Timestamp} {event : Event} {effects : List Effect}

/-- A worker that starts handlers makes no call and waits for no reply. -/
theorem Reacts.spawns_eq_nil_or (hreacts : w.Reacts now event w' effects) :
    spawns effects = [] ∨ calls effects = [] ∧ ¬ w'.AwaitsReply := by
  cases hreacts with
  | reserve =>
      unfold resumeReserve
      split
      · dsimp only
        split_ifs
        · right
          rw [foldl_spawnJob]
          refine ⟨?_, id⟩
          simp [calls, List.filterMap_map, Function.comp_def, Effect.call?]
        · exact Or.inl rfl
      · split_ifs <;> exact Or.inl rfl
  | turn =>
      left
      exact (resolvePendingCompleted_active _ _ _).2
  | enter =>
      left
      unfold Worker.enter spawns
      dsimp only
      split_ifs <;> rfl
  | heartbeatTick =>
      left
      exact (heartbeatActive_active _ _ _).2
  | wait =>
      left
      unfold startSelect
      split
      · rfl
      · dsimp only
        split_ifs <;> rfl
  | completion =>
      left
      unfold resumeCompletion
      split
      · exact (resolvePendingCompleted_active _ _ _).2
      · exact (resolvePendingCompleted_active _ _ _).2
      · split_ifs <;> rfl
  | heartbeat =>
      left
      unfold resumeHeartbeat
      split
      · exact (heartbeatActive_active _ _ _).2
      · exact (heartbeatActive_active _ _ _).2
      · split_ifs <;> rfl
  | _ => exact Or.inl rfl

/-- A worker that waits for a completion holds the result that it reports. -/
theorem Awaits.of_isCompletion {op : Op} {workerId jobId leaseToken : Bytes}
    (hawaits : w.Awaits op) (hcompletion : op.IsCompletion workerId jobId leaseToken) :
    ∃ sentAt completed, op = resolveCompleted w.config sentAt completed ∧
      w.HoldsResult completed := by
  unfold Awaits at hawaits
  split at hawaits
  · next completed rest hphase =>
      obtain ⟨sentAt, rfl⟩ := hawaits
      exact ⟨sentAt, completed, rfl, Or.inr (Or.inr ⟨rest, hphase⟩)⟩
  · rw [hawaits] at hcompletion
    exact hcompletion.elim
  · obtain ⟨_, rfl⟩ := hawaits
    exact hcompletion.elim
  · obtain ⟨_, _, rfl⟩ := hawaits
    exact hcompletion.elim
  · exact hawaits.elim

end Worker

namespace System

variable {s s' : System} {action : Action} {pid : ℕ} {process : Process}

/-! ## Started once -/

namespace Sound

/-- The leases of an executed reserve are under its tokens. -/
theorem mem_leaseTokens (hsound : s.Sound) {id : ℕ} {sender : Option ℕ} {config : WorkerConfig}
    {availableCapacity : ℕ} {now : Timestamp} {leaseTokens : List Bytes} {reply : Reply}
    {jobId token : Bytes}
    (hexecuted : .executed id sender (.reserve config availableCapacity now leaseTokens) reply ∈
      s.history) (hlease : (jobId, token) ∈ reply.leases) : token ∈ leaseTokens := by
  obtain ⟨before, _, _, hanswered⟩ := hsound.recorded.answered.of_mem hexecuted
  rw [AnsweredByStore] at hanswered
  rw [hanswered] at hlease
  exact Store.mem_leaseTokens_of_mem_leases _ hlease

/-- The token of a handler that was started is one of a reserve of its process. -/
theorem exists_token (hsound : s.Sound) {lease : ReservedJob}
    (hspawned : .spawned pid lease ∈ s.history) :
    ∃ (id : ℕ) (call : Call), s.sent[id]? = some call ∧ call.sender = some pid ∧
      lease.leaseToken ∈ call.op.leaseTokens := by
  obtain ⟨before, after, hsplit, hcaused⟩ := hsound.caused.of_mem hspawned
  obtain ⟨id, config, availableCapacity, now, leaseTokens, reply, hexecuted, hlease⟩ := hcaused
  have hmem : .executed id (some pid) (.reserve config availableCapacity now leaseTokens) reply ∈
      s.history := hsplit ▸ List.mem_append_left _ hexecuted
  exact ⟨id, _, (hsound.recorded.executed_iff _ _ _ _).mp hmem, rfl,
    hsound.mem_leaseTokens hmem hlease⟩

/-- Calls that share a token are the same. -/
theorem id_eq_of_token (hsound : s.Sound) {id other : ℕ} {first second : Call} {token : Bytes}
    (hfirst : s.sent[id]? = some first) (hsecond : s.sent[other]? = some second)
    (htoken : token ∈ first.op.leaseTokens) (hother : token ∈ second.op.leaseTokens) :
    id = other := by
  by_contra hne
  have hfirstOp : (s.sent.map Call.op)[id]? = some first.op := by simp [hfirst]
  have hsecondOp : (s.sent.map Call.op)[other]? = some second.op := by simp [hsecond]
  exact hsound.recorded.fresh_sent.not_mem_of_ne hfirstOp hsecondOp hne htoken hother

/-- The handlers of one lease are started by one process. -/
theorem pid_eq (hsound : s.Sound) {other : ℕ} {lease : ReservedJob}
    (hspawned : .spawned pid lease ∈ s.history) (hother : .spawned other lease ∈ s.history) :
    pid = other := by
  obtain ⟨id, call, hcall, hsender, htoken⟩ := hsound.exists_token hspawned
  obtain ⟨otherId, otherCall, hotherCall, hotherSender, hotherToken⟩ := hsound.exists_token hother
  obtain rfl := hsound.id_eq_of_token hcall hotherCall htoken hotherToken
  rw [hcall] at hotherCall
  cases hotherCall
  exact Option.some.inj (hsender.symm.trans hotherSender)

/-- A process that has not started has started no handler. -/
theorem startedBy_eq_nil (hsound : s.Sound) (hpid : s.processes[pid]? = none) :
    startedBy pid s.history = [] := by
  apply List.eq_nil_iff_forall_not_mem.mpr
  intro lease hmem
  obtain ⟨id, call, hcall, hsender, _⟩ := hsound.exists_token (mem_startedBy.mp hmem)
  obtain ⟨process, hprocess, _⟩ :=
    (hsound.calls call (List.mem_of_getElem? hcall)).sentBy pid hsender
  rw [hpid] at hprocess
  cases hprocess

/-- A handler ends after it was started. -/
theorem mem_startedBy_of_endedBy (hsound : s.Sound) {task : FinishedTask}
    (hmem : task ∈ endedBy pid s.history) : task.lease ∈ startedBy pid s.history := by
  obtain ⟨before, after, hsplit, hcaused⟩ := hsound.caused.of_mem (mem_endedBy.mp hmem)
  rw [mem_startedBy, hsplit]
  exact List.mem_append_left _ hcaused

theorem endedBy_eq_nil (hsound : s.Sound) (hpid : s.processes[pid]? = none) :
    endedBy pid s.history = [] := by
  apply List.eq_nil_iff_forall_not_mem.mpr
  intro task hmem
  have hstarted := hsound.mem_startedBy_of_endedBy hmem
  rw [hsound.startedBy_eq_nil hpid] at hstarted
  cases hstarted

end Sound

/-- Every handler was started once. What a process started runs or has ended, and no
handler was started for a lease of a call that a process waits for. -/
structure RunsHandlersOnce (s : System) : Prop where
  once : (started s.history).Nodup
  balanced : ∀ pid process, s.processes[pid]? = some process →
    (startedBy pid s.history).Perm
      ((endedBy pid s.history).map FinishedTask.lease ++ process.worker.joinSet.running)
  unspent : ∀ (pid : ℕ) (process : Process) (id : ℕ) (call : Call),
    s.processes[pid]? = some process → process.awaiting = some id → s.sent[id]? = some call →
      ∀ lease ∈ started s.history, lease.leaseToken ∉ call.op.leaseTokens

theorem runsHandlersOnce_initial (namespaceName : Bytes) :
    (initial namespaceName).RunsHandlersOnce where
  once := List.nodup_nil
  balanced := by simp [initial]
  unspent := by simp [initial]

/-- The call that a process waits for stays what it is. -/
theorem ProcessSound.op_eq (hsound : s.ProcessSound pid process) (hextends : s.Extends s')
    {id : ℕ} {call : Call} (hid : process.awaiting = some id) (hcall : s'.sent[id]? = some call) :
    ∃ old, s.sent[id]? = some old ∧ old.sender = some pid ∧ call.op = old.op := by
  obtain ⟨old, hold, hsender, _⟩ := hsound.awaits id hid
  obtain ⟨reply, hkept⟩ := hextends.sent id old hold
  rw [hcall] at hkept
  cases hkept
  exact ⟨old, hold, hsender, rfl⟩

section Observe

variable {moment : Moment} {event : Event} {worker : Worker} {effects : List Effect}

/-- The jobs that an event reports as granted are different, they are no more than the call
that the process waits for has asked for, and their tokens are those of the call. -/
theorem Sound.granted_awaited (hsound : s.Sound) (hdelivers : s.Delivers process event)
    (hgranted : event.granted ≠ []) :
    ∃ id config availableCapacity now leaseTokens sender reply,
      process.awaiting = some id ∧
      s.sent[id]? =
        some ⟨sender, .reserve config availableCapacity now leaseTokens, some reply⟩ ∧
      (event.granted.map ReservedJob.jobId).Nodup ∧ event.granted.length ≤ availableCapacity ∧
        ∀ lease ∈ event.granted, lease.leaseToken ∈ leaseTokens := by
  obtain ⟨first, hfirst⟩ := List.exists_mem_of_ne_nil _ hgranted
  obtain ⟨ready, batch, rfl, hready, _⟩ := Event.mem_granted hfirst
  obtain ⟨id, call, hid, _, hcall, hbatch⟩ := hdelivers.reserved hready
  obtain ⟨config, availableCapacity, now, leaseTokens, reply, hop, hreply, hparse⟩ :=
    Call.exists_reserve_of_batch? hbatch
  obtain ⟨sender, op, callReply⟩ := call
  cases hop
  cases hreply
  have hexecuted := (hsound.recorded.executed_iff _ _ _ _).mpr hcall
  have hleases := leases_of_parseReserveResponse hparse
  obtain ⟨before, _, _, hanswered⟩ := hsound.recorded.answered.of_mem hexecuted
  rw [AnsweredByStore] at hanswered
  have hbounded := Store.leases_bounded (Store.empty.run (executedOps before)) config
    availableCapacity now leaseTokens
  dsimp only at hbounded
  rw [← hanswered, hleases, List.map_map, List.length_map] at hbounded
  rw [Event.granted_of_reserved hready]
  refine ⟨id, config, availableCapacity, now, leaseTokens, sender, reply, hid, hcall, hbounded.1,
    hbounded.2, fun lease hlease => ?_⟩
  apply hsound.mem_leaseTokens hexecuted
  rw [hleases]
  exact List.mem_map_of_mem hlease

/-- The handlers that are started at once are different, and their tokens are those of the
call that the process waited for. -/
theorem Sound.spawns_awaited (hsound : s.Sound) (hdelivers : s.Delivers process event)
    (hreacts : { process.worker with instant := moment.instant }.Reacts moment.now event worker
      effects) (hspawns : spawns effects ≠ []) :
    (spawns effects).Nodup ∧ ∃ (id : ℕ) (call : Call), process.awaiting = some id ∧
      s.sent[id]? = some call ∧
        ∀ lease ∈ spawns effects, lease.leaseToken ∈ call.op.leaseTokens := by
  cases hreacts.runningChange with
  | kept _ hnone => exact absurd hnone hspawns
  | finished _ _ hnone => exact absurd hnone hspawns
  | spawned _ hgranted =>
      rw [hgranted] at hspawns ⊢
      obtain ⟨id, _, _, _, _, _, _, hid, hcall, hnodup, _, htokens⟩ :=
        hsound.granted_awaited hdelivers hspawns
      exact ⟨hnodup.of_map, id, _, hid, hcall, htokens⟩

/-- An event keeps the balance of the handlers of its process. -/
theorem perm_startedBy_observed
    (hbalanced : (startedBy pid s.history).Perm
      ((endedBy pid s.history).map FinishedTask.lease ++ process.worker.joinSet.running))
    (hreacts : { process.worker with instant := moment.instant }.Reacts moment.now event worker
      effects) :
    (startedBy pid (s.history ++ entriesOf pid process.worker.phase event effects)).Perm
      ((endedBy pid (s.history ++ entriesOf pid process.worker.phase event effects)).map
        FinishedTask.lease ++ worker.joinSet.running) := by
  rw [startedBy_append, endedBy_append, startedBy_entriesOf, endedBy_entriesOf, List.map_append]
  have hchange := hreacts.runningChange
  cases event with
  | finish task =>
      cases hreacts with
      | finish _ hmem =>
          have hmem : task.lease ∈ process.worker.joinSet.running := hmem
          simp only [spawns, List.filterMap_nil, List.append_nil, Event.ended?,
            Option.toList_some, List.map_singleton, List.append_assoc]
          exact hbalanced.trans ((List.perm_cons_erase hmem).append_left _)
  | _ =>
      have hgrows : worker.joinSet.running =
          process.worker.joinSet.running ++ spawns effects := by
        cases hchange with
        | kept hrunning hspawns => rw [hrunning, hspawns, List.append_nil]
        | spawned hrunning _ => exact hrunning
      simp only [hgrows, Event.ended?, Option.toList_none, List.map_nil, List.append_nil]
      rw [← List.append_assoc]
      exact hbalanced.append_right _

/-- What is started at an event was not started before. -/
theorem RunsHandlersOnce.once_observed (honce : s.RunsHandlersOnce) (hsound : s.Sound)
    (hprocess : s.processes[pid]? = some process) (hdelivers : s.Delivers process event)
    (hreacts : { process.worker with instant := moment.instant }.Reacts moment.now event worker
      effects) : (started s.history ++ spawns effects).Nodup := by
  by_cases hspawns : spawns effects = []
  · rw [hspawns, List.append_nil]
    exact honce.once
  · obtain ⟨hnodup, id, call, hid, hcall, htokens⟩ :=
      hsound.spawns_awaited hdelivers hreacts hspawns
    apply honce.once.append hnodup
    intro lease hold hnew
    exact honce.unspent pid process id call hprocess hid hcall lease hold (htokens lease hnew)

/-- After an event, no handler was started for a lease of a call that a process waits for. -/
theorem RunsHandlersOnce.unspent_observed (honce : s.RunsHandlersOnce) (hsound : s.Sound)
    (hprocess : s.processes[pid]? = some process)
    (hextends : s.Extends (s.observed pid process event worker effects))
    (hdelivers : s.Delivers process event) (hfresh : s.Fresh (calls effects))
    (hreacts : { process.worker with instant := moment.instant }.Reacts moment.now event worker
      effects) {other id : ℕ} {waiting : Process} {call : Call}
    (hwaiting : (s.observed pid process event worker effects).processes[other]? = some waiting)
    (hid : waiting.awaiting = some id)
    (hcall : (s.observed pid process event worker effects).sent[id]? = some call)
    {lease : ReservedJob} (hlease : lease ∈ started s.history ++ spawns effects) :
    lease.leaseToken ∉ call.op.leaseTokens := by
  by_cases hother : pid = other
  · -- the process itself waits for a call, so it has started no handler
    subst hother
    obtain ⟨hpid, _⟩ := List.getElem?_eq_some_iff.mp hprocess
    rw [observed, List.getElem?_set_self hpid, Option.some.injEq] at hwaiting
    subst hwaiting
    have hnone : spawns effects = [] := by
      rcases hreacts.spawns_eq_nil_or with hnone | ⟨hcalls, hreply⟩
      · exact hnone
      · simp [hcalls, hreply] at hid
    rw [hnone, List.append_nil] at hlease
    dsimp only at hid
    split_ifs at hid with hcalls hreply
    · cases hid
      obtain ⟨op, heffects, _⟩ := hreacts.callsOrIdles.resolve_right fun hidle => hcalls hidle.1
      have hsent : call.op = op := by
        simp only [observed, heffects, List.map_singleton, List.getElem?_concat_length] at hcall
        cases hcall
        rfl
      obtain ⟨starter, hspawned⟩ := mem_started.mp hlease
      obtain ⟨_, old, hold, _, htoken⟩ := hsound.exists_token hspawned
      rw [hsent]
      intro hmem
      exact hfresh op (heffects ▸ List.mem_singleton_self op) old (List.mem_of_getElem? hold) _
        hmem htoken
    · obtain ⟨old, hold, _, hop⟩ := (hsound.processes pid process hprocess).op_eq hextends hid hcall
      rw [hop]
      exact honce.unspent pid process id old hprocess hid hold lease hlease
  · rw [observed, List.getElem?_set_ne hother] at hwaiting
    obtain ⟨old, hold, hsender, hop⟩ :=
      (hsound.processes other waiting hwaiting).op_eq hextends hid hcall
    rw [hop]
    rcases List.mem_append.mp hlease with hbefore | hnew
    · exact honce.unspent other waiting id old hwaiting hid hold lease hbefore
    · -- the token is one of the call that the observing process waits for
      obtain ⟨_, awaited, answered, hawaited, hanswered, htokens⟩ :=
        hsound.spawns_awaited hdelivers hreacts (List.ne_nil_of_mem hnew)
      obtain ⟨_, hsent, hawaitedSender, _⟩ :=
        (hsound.processes pid process hprocess).awaits awaited hawaited
      intro hmem
      obtain rfl := hsound.id_eq_of_token hold hanswered hmem (htokens lease hnew)
      rw [hold] at hsent
      cases hsent
      exact hother (Option.some.inj (hawaitedSender.symm.trans hsender))

end Observe

theorem getElem?_concat_cases {α : Type} {items : List α} {index : ℕ} {item found : α}
    (hfound : (items ++ [item])[index]? = some found) :
    items[index]? = some found ∨ (index = items.length ∧ item = found) := by
  rcases lt_trichotomy index items.length with hold | rfl | hbeyond
  · rw [List.getElem?_append_left hold] at hfound
    exact Or.inl hfound
  · rw [List.getElem?_concat_length] at hfound
    exact Or.inr ⟨rfl, Option.some.inj hfound⟩
  · rw [List.getElem?_eq_none (by simp; omega)] at hfound
    cases hfound

/-- Handlers are started once in every step. -/
theorem RunsHandlersOnce.step (honce : s.RunsHandlersOnce) (hsound : s.Sound)
    (hsteps : s.Steps action s') : s'.RunsHandlersOnce := by
  have hextends := hsteps.extends
  have hunspent (hstarted : started s'.history = started s.history) (pid : ℕ)
      (process : Process) (id : ℕ) (call : Call) (hprocess : s.processes[pid]? = some process)
      (hid : process.awaiting = some id) (hcall : s'.sent[id]? = some call) :
      ∀ lease ∈ started s'.history, lease.leaseToken ∉ call.op.leaseTokens := by
    obtain ⟨old, hold, _, hop⟩ := (hsound.processes pid process hprocess).op_eq hextends hid hcall
    rw [hop, hstarted]
    exact honce.unspent pid process id old hprocess hid hold
  cases hsteps with
  | submit hclient => exact ⟨honce.once, honce.balanced, hunspent rfl⟩
  | start hstart =>
      obtain ⟨_, _, hworker⟩ := bind_eq_ok_iff.mp hstart
      cases hworker
      have hnone : s.processes[s.processes.length]? = none := List.getElem?_eq_none le_rfl
      refine ⟨honce.once, fun pid process hprocess => ?_,
        fun pid process id call hprocess hid => ?_⟩
      · rcases getElem?_concat_cases hprocess with hold | ⟨rfl, rfl⟩
        · exact honce.balanced pid process hold
        · rw [hsound.startedBy_eq_nil hnone, hsound.endedBy_eq_nil hnone]
          exact List.Perm.nil
      · rcases getElem?_concat_cases hprocess with hold | ⟨rfl, rfl⟩
        · exact hunspent rfl pid process id call hold hid
        · cases hid
  | @crash crashed process hcrashed =>
      refine ⟨honce.once, fun pid other hother => ?_, fun pid other id call hother hid => ?_⟩
      · rcases getElem?_set_cases hother with ⟨rfl, rfl⟩ | hold
        · exact honce.balanced crashed process hcrashed
        · exact honce.balanced pid other hold
      · rcases getElem?_set_cases hother with ⟨rfl, rfl⟩ | hold
        · exact hunspent rfl crashed process id call hcrashed hid
        · exact hunspent rfl pid other id call hold hid
  | @execute executed call hcall hreply =>
      have hstarted (pid : ℕ) : startedBy pid (s.history ++
          [.executed executed call.sender call.op (s.store.reply call.op)]) =
            startedBy pid s.history := by
        rw [startedBy_append]
        exact List.append_nil _
      have hended (pid : ℕ) : endedBy pid (s.history ++
          [.executed executed call.sender call.op (s.store.reply call.op)]) =
            endedBy pid s.history := by
        rw [endedBy_append]
        exact List.append_nil _
      have hall : started (s.history ++
          [.executed executed call.sender call.op (s.store.reply call.op)]) =
            started s.history := by
        rw [started_append]
        exact List.append_nil _
      refine ⟨hall ▸ honce.once, fun pid process hprocess => ?_, hunspent hall⟩
      rw [hstarted, hended]
      exact honce.balanced pid process hprocess
  | lose => exact ⟨honce.once, honce.balanced, hunspent rfl⟩
  | @observe pid process moment event worker effects hprocess halive hstep hdelivers hfresh =>
      have hreacts := (Worker.step_eq_some hstep).2
      have hall : started (s.observed pid process event worker effects).history =
          started s.history ++ spawns effects := by
        rw [observed, started_append, started_entriesOf]
      refine ⟨?_, fun other found hfound => ?_, ?_⟩
      · rw [hall]
        exact honce.once_observed hsound hprocess hdelivers hreacts
      · by_cases hother : pid = other
        · subst hother
          obtain ⟨hpid, _⟩ := List.getElem?_eq_some_iff.mp hprocess
          rw [observed, List.getElem?_set_self hpid, Option.some.injEq] at hfound
          subst hfound
          exact perm_startedBy_observed (honce.balanced pid process hprocess) hreacts
        · rw [observed, List.getElem?_set_ne hother] at hfound
          obtain ⟨hstarted, hended⟩ :=
            entriesOf_of_ne (Ne.symm hother) process.worker.phase event effects
          simp only [observed, startedBy_append, endedBy_append, hstarted, hended,
            List.append_nil]
          exact honce.balanced other found hfound
      · intro other waiting id call hwaiting hid hcall lease hlease
        rw [hall] at hlease
        exact honce.unspent_observed hsound hprocess hextends hdelivers hfresh hreacts hwaiting
          hid hcall hlease

/-- Handlers are started once wherever a run ends. -/
theorem runsHandlersOnce_run {namespaceName : Bytes} {actions : List Action}
    (hrun : (initial namespaceName).run actions = some s) : s.RunsHandlersOnce := by
  suffices hboth : s.Sound ∧ s.RunsHandlersOnce from hboth.2
  apply runTrace_invariant (motive := fun s => s.Sound ∧ s.RunsHandlersOnce) _ _ hrun
  · exact ⟨sound_initial namespaceName, runsHandlersOnce_initial namespaceName⟩
  · rintro middle action next ⟨hsound, honce⟩ hstep
    have hsteps := step_eq_some hstep
    exact ⟨hsound.step hsteps, honce.step hsound hsteps⟩

/-! ## Completions -/

/-- A completion that a process makes: the call of its worker for the result with which a
handler has ended in the process. -/
def Resolves (s : System) (before : List Entry) (sender : Option ℕ) (op : Op) : Prop :=
  ∃ pid process now completed, sender = some pid ∧ s.processes[pid]? = some process ∧
    op = resolveCompleted process.worker.config now completed ∧
      .finished pid completed.task ∈ before

/-- Every completion that was sent resolves the result of a handler. -/
def SendsResults (s : System) : Prop :=
  ∀ call ∈ s.sent, ∀ workerId jobId leaseToken,
    call.op.IsCompletion workerId jobId leaseToken → s.Resolves s.history call.sender call.op

/-- A completion in the history resolves the result of a handler that ended before it. -/
def ResolvedBefore (s : System) (before : List Entry) : Entry → Prop
  | .executed _ sender op _ => ∀ workerId jobId leaseToken,
      op.IsCompletion workerId jobId leaseToken → s.Resolves before sender op
  | _ => True

theorem Resolves.mono {before before' : List Entry} {sender : Option ℕ} {op : Op}
    (hresolves : s.Resolves before sender op) (hextends : s.Extends s')
    (hbefore : ∀ entry ∈ before, entry ∈ before') : s'.Resolves before' sender op := by
  obtain ⟨pid, process, now, completed, hsender, hprocess, hop, hfinished⟩ := hresolves
  obtain ⟨process', hprocess', hconfig⟩ := hextends.processes pid process hprocess
  exact ⟨pid, process', now, completed, hsender, hprocess', hconfig ▸ hop,
    hbefore _ hfinished⟩

theorem ResolvedBefore.extends {before : List Entry} {entry : Entry}
    (hresolved : s.ResolvedBefore before entry) (hextends : s.Extends s') :
    s'.ResolvedBefore before entry := by
  cases entry with
  | executed id sender op reply =>
      intro workerId jobId leaseToken hcompletion
      exact (hresolved workerId jobId leaseToken hcompletion).mono hextends fun _ hmem => hmem
  | _ => trivial

/-- Completions are sent for results in every step. -/
theorem SendsResults.step (hsends : s.SendsResults) (hsound : s.Sound)
    (hsteps : s.Steps action s') : s'.SendsResults := by
  have hextends := hsteps.extends
  have hsound' := hsound.step hsteps
  have hkept (call : Call) (hcall : call ∈ s.sent) (workerId jobId leaseToken : Bytes)
      (hcompletion : call.op.IsCompletion workerId jobId leaseToken) :
      s'.Resolves s'.history call.sender call.op :=
    (hsends call hcall workerId jobId leaseToken hcompletion).mono hextends hextends.history
  intro call hcall workerId jobId leaseToken hcompletion
  cases hsteps with
  | submit hclient =>
      rcases List.mem_append.mp hcall with hold | hnew
      · exact hkept call hold workerId jobId leaseToken hcompletion
      · rw [List.mem_singleton] at hnew
        subst hnew
        exact absurd hclient (Op.IsCompletion.not_isClient hcompletion)
  | start => exact hkept call hcall workerId jobId leaseToken hcompletion
  | crash => exact hkept call hcall workerId jobId leaseToken hcompletion
  | @execute id executed hexecuted hreply =>
      rcases List.mem_or_eq_of_mem_set hcall with hold | rfl
      · exact hkept call hold workerId jobId leaseToken hcompletion
      · exact hkept executed (List.mem_of_getElem? hexecuted) workerId jobId leaseToken hcompletion
  | lose => exact hkept call hcall workerId jobId leaseToken hcompletion
  | @observe pid process moment event worker effects hprocess halive hstep hdelivers hfresh =>
      rcases List.mem_append.mp hcall with hold | hnew
      · exact hkept call hold workerId jobId leaseToken hcompletion
      · obtain ⟨op, hop, rfl⟩ := List.mem_map.mp hnew
        rcases (Worker.step_eq_some hstep).2.callsOrIdles with ⟨sentOp, heffects, hawaits⟩ |
          ⟨heffects, _⟩
        · rw [heffects, List.mem_singleton] at hop
          subst hop
          obtain ⟨now, completed, hresolve, hholds⟩ := hawaits.of_isCompletion hcompletion
          obtain ⟨hpid, _⟩ := List.getElem?_eq_some_iff.mp hprocess
          have hobserved : (s.observed pid process event worker effects).processes[pid]? = _ :=
            List.getElem?_set_self hpid
          exact ⟨pid, _, now, completed, rfl, hobserved, hresolve,
            (hsound'.processes pid _ hobserved).results completed hholds⟩
        · simp [heffects] at hop

/-- The completions that were sent and those that were executed resolve results. -/
structure ReportsResults (s : System) : Prop where
  sent : s.SendsResults
  history : Justified s.ResolvedBefore s.history

theorem ReportsResults.step (hreports : s.ReportsResults) (hsound : s.Sound)
    (hsteps : s.Steps action s') : s'.ReportsResults := by
  refine ⟨hreports.sent.step hsound hsteps, ?_⟩
  have hkept : Justified s'.ResolvedBefore s.history :=
    hreports.history.mono fun _ _ hresolved => hresolved.extends hsteps.extends
  have hextends := hsteps.extends
  cases hsteps with
  | @execute id call hcall hreply =>
      apply hkept.concat
      intro workerId jobId leaseToken hcompletion
      have hresolves := hreports.sent call (List.mem_of_getElem? hcall) workerId jobId leaseToken
        hcompletion
      exact hresolves.mono hextends fun _ hmem => hmem
  | observe =>
      apply hkept.append
      intro entry hentry more
      cases entry with
      | executed => exact absurd hentry not_executed_mem_entriesOf
      | _ => trivial
  | _ => exact hkept

/-- Completions report results wherever a run ends. -/
theorem reportsResults_run {namespaceName : Bytes} {actions : List Action}
    (hrun : (initial namespaceName).run actions = some s) : s.ReportsResults := by
  suffices hboth : s.Sound ∧ s.ReportsResults from hboth.2
  apply runTrace_invariant (motive := fun s => s.Sound ∧ s.ReportsResults) _ _ hrun
  · exact ⟨sound_initial namespaceName, ⟨by simp [SendsResults, initial], .nil⟩⟩
  · rintro middle action next ⟨hsound, hreports⟩ hstep
    have hsteps := step_eq_some hstep
    exact ⟨hsound.step hsteps, hreports.step hsound hsteps⟩

/-- A process ran the handler of a lease: a reserve of it granted the lease, then the handler
was started, and then it ended with the result. -/
def Ran (history : List Entry) (pid : ℕ) (config : WorkerConfig) (completed : CompletedLease) :
    Prop :=
  ∃ id availableCapacity now leaseTokens reply,
    (Op.reserve config availableCapacity now leaseTokens).Grants reply config.workerId
        completed.jobId completed.leaseToken ∧
      [.executed id (some pid) (.reserve config availableCapacity now leaseTokens) reply,
        .spawned pid ⟨completed.jobId, completed.leaseToken⟩,
        .finished pid completed.task].Sublist history

/-- A handler that has ended was granted, started and run before. -/
theorem Sound.ran (hsound : s.Sound) {before after : List Entry}
    (hhistory : s.history = before ++ after) (hprocess : s.processes[pid]? = some process)
    {completed : CompletedLease} (hfinished : .finished pid completed.task ∈ before) :
    Ran before pid process.worker.config completed := by
  have hcaused : Justified Caused before := (hhistory ▸ hsound.caused).of_append
  obtain ⟨beforeFinish, afterFinish, hfinishSplit, hspawned⟩ := hcaused.of_mem hfinished
  obtain ⟨beforeSpawn, afterSpawn, hspawnSplit, hreserved⟩ :=
    (hfinishSplit ▸ hcaused).of_append.of_mem hspawned
  obtain ⟨id, config, availableCapacity, now, leaseTokens, reply, hreserve, hlease⟩ := hreserved
  have hchain := sublist_concat_of_split
    (sublist_concat_of_split (List.singleton_sublist.mpr hreserve) hspawnSplit) hfinishSplit
  have hexecuted : Entry.executed id (some pid)
      (.reserve config availableCapacity now leaseTokens) reply ∈ s.history :=
    hhistory ▸ List.mem_append_left _ (hchain.subset (by simp))
  have hsent := (hsound.recorded.executed_iff _ _ _ _).mp hexecuted
  obtain ⟨sender, hsender, hsentBy⟩ :=
    (hsound.calls _ (List.mem_of_getElem? hsent)).sentBy pid rfl
  rw [hprocess] at hsender
  cases hsender
  obtain rfl : config = process.worker.config := hsentBy
  exact ⟨id, availableCapacity, now, leaseTokens, reply,
    ⟨rfl, hsound.mem_leaseTokens hexecuted hlease, hlease⟩, hchain⟩

/-! ## Results -/

namespace RunsHandlersOnce

/-- What has ended in a process and what runs there was started, each once. -/
theorem nodup_ended (honce : s.RunsHandlersOnce) (hprocess : s.processes[pid]? = some process) :
    ((endedBy pid s.history).map FinishedTask.lease ++ process.worker.joinSet.running).Nodup := by
  apply (honce.balanced pid process hprocess).nodup_iff.mp
  exact honce.once.sublist (startedBy_sublist pid s.history)

/-- A handler ends once, with one result. -/
theorem completed_eq (honce : s.RunsHandlersOnce) (hprocess : s.processes[pid]? = some process)
    {first second : CompletedLease} (hfirst : .finished pid first.task ∈ s.history)
    (hsecond : .finished pid second.task ∈ s.history)
    (hjobId : second.jobId = first.jobId) (htoken : second.leaseToken = first.leaseToken) :
    second = first := by
  have hnodup := (List.nodup_append.mp (honce.nodup_ended hprocess)).1
  have hlease : second.task.lease = first.task.lease := by
    rw [CompletedLease.task, CompletedLease.task, hjobId, htoken]
  have htask : second.task = first.task :=
    List.inj_on_of_nodup_map hnodup (mem_endedBy.mpr hsecond) (mem_endedBy.mpr hfirst) hlease
  obtain ⟨_, _, _⟩ := first
  obtain ⟨_, _, _⟩ := second
  cases htask
  rfl

/-- A handler that runs has not ended. -/
theorem lease_ne (honce : s.RunsHandlersOnce) (hsound : s.Sound)
    (hprocess : s.processes[pid]? = some process) {lease : ReservedJob}
    (hlease : lease ∈ process.worker.joinSet.running) {other : ℕ} {task : FinishedTask}
    (hfinished : .finished other task ∈ s.history) : task.lease ≠ lease := by
  rintro rfl
  have hspawned := mem_startedBy.mp (hsound.mem_startedBy_of_endedBy (mem_endedBy.mpr hfinished))
  obtain rfl := hsound.pid_eq ((hsound.processes pid process hprocess).running _ hlease) hspawned
  have hdisjoint := (List.nodup_append.mp (honce.nodup_ended hprocess)).2.2
  exact hdisjoint _ (List.mem_map_of_mem (mem_endedBy.mpr hfinished)) _ hlease rfl

end RunsHandlersOnce

/-- In every run the handler of a lease is started at most once, whichever process starts
it, and what a process has started is what runs there or has ended there. -/
theorem handlers_run_once {namespaceName : Bytes} {actions : List Action}
    (hrun : (initial namespaceName).run actions = some s) :
    (started s.history).Nodup ∧
      ∀ pid process, s.processes[pid]? = some process →
        (startedBy pid s.history).Perm
            ((endedBy pid s.history).map FinishedTask.lease ++ process.worker.joinSet.running) ∧
          ∀ lease ∈ process.worker.joinSet.running, ∀ other task,
            .finished other task ∈ s.history → task.lease ≠ lease := by
  have honce := runsHandlersOnce_run hrun
  refine ⟨honce.once, fun pid process hprocess => ⟨honce.balanced pid process hprocess, ?_⟩⟩
  intro lease hlease other task hfinished
  exact honce.lease_ne (sound_run hrun) hprocess hlease hfinished

/-- A worker crashes in its handler, and a second worker reaps the lease and is granted the
job, whose handler it starts. -/
def sampleCrashActions : List Action :=
  sampleReserveActions ++
    [.observe 0 (.ofMillis 121) (.poll { reserved := some (.ok ⟨[⟨"job", "token"⟩], none⟩) }),
      .crash 0, .start { sampleConfig with workerId := "other" } 0,
      .observe 1 (.ofMillis 122) (.turn []), .observe 1 (.ofMillis 122) (.enter ["next"]),
      .observe 1 (.ofMillis 122) (.poll { reapTick := true }), .execute 2,
      .observe 1 (.ofMillis 123) (.resume (.ok ())), .observe 1 (.ofMillis 123) (.turn []),
      .observe 1 (.ofMillis 123) (.enter ["later"]), .observe 1 (.ofMillis 123) (.poll {}),
      .execute 3,
      .observe 1 (.ofMillis 124) (.poll { reserved := some (.ok ⟨[⟨"job", "later"⟩], none⟩) })]

/-- The handlers of the crashed worker and of the second one are started for two leases. -/
theorem handlers_run_once_sample :
    ∃ s, (initial "jobs").run sampleCrashActions = some s ∧
      started s.history = [⟨"job", "token"⟩, ⟨"job", "later"⟩] ∧ (started s.history).Nodup := by
  have hends : ((initial "jobs").run sampleCrashActions).any fun s =>
      started s.history = [⟨"job", "token"⟩, ⟨"job", "later"⟩] := by decide
  obtain ⟨s, hrun, hfacts⟩ := Option.any_eq_true _ _ |>.mp hends
  exact ⟨s, hrun, of_decide_eq_true hfacts, (handlers_run_once hrun).1⟩

/-- Every completion that Redis executes was sent by the process that the lease was granted
to, after it has run the handler of the lease, and is the call of its worker for the result
with which that handler has ended. Every other completion of the lease is the same call but
for its time. -/
theorem completions_report_results {namespaceName : Bytes} {actions : List Action}
    (hrun : (initial namespaceName).run actions = some s) {before after : List Entry} {id : ℕ}
    {sender : Option ℕ} {op : Op} {reply : Reply} {workerId jobId leaseToken : Bytes}
    (hhistory : s.history = before ++ .executed id sender op reply :: after)
    (hcompletion : op.IsCompletion workerId jobId leaseToken) :
    ∃ pid config now result, sender = some pid ∧ config.workerId = workerId ∧
      op = resolveCompleted config now ⟨jobId, leaseToken, result⟩ ∧
      Ran before pid config ⟨jobId, leaseToken, result⟩ ∧
      ∀ otherId otherSender otherOp otherReply otherWorkerId,
        .executed otherId otherSender otherOp otherReply ∈ s.history →
          otherOp.IsCompletion otherWorkerId jobId leaseToken →
            otherSender = some pid ∧
              ∃ sentAt, otherOp = resolveCompleted config sentAt ⟨jobId, leaseToken, result⟩ := by
  have hsound := sound_run hrun
  have honce := runsHandlersOnce_run hrun
  have hreports := reportsResults_run hrun
  obtain ⟨pid, process, now, completed, hsender, hprocess, rfl, hfinished⟩ :=
    hreports.history before _ after hhistory workerId jobId leaseToken hcompletion
  obtain ⟨hworker, rfl, rfl⟩ := isCompletion_resolveCompleted.mp hcompletion
  have hmem : .finished pid completed.task ∈ s.history :=
    hhistory ▸ List.mem_append_left _ hfinished
  refine ⟨pid, process.worker.config, now, completed.result, hsender, hworker, rfl,
    hsound.ran hhistory hprocess hfinished, ?_⟩
  intro otherId otherSender otherOp otherReply otherWorkerId hother hotherCompletion
  obtain ⟨earlier, later, hsplit, hresolved⟩ := hreports.history.of_mem hother
  obtain ⟨otherPid, otherProcess, sentAt, otherCompleted, hotherSender, hotherProcess, rfl,
    hotherFinished⟩ := hresolved otherWorkerId _ _ hotherCompletion
  obtain ⟨_, hjobId, htoken⟩ := isCompletion_resolveCompleted.mp hotherCompletion
  have hotherMem : .finished otherPid otherCompleted.task ∈ s.history :=
    hsplit ▸ List.mem_append_left _ hotherFinished
  have hspawned := mem_startedBy.mp (hsound.mem_startedBy_of_endedBy (mem_endedBy.mpr hmem))
  have hotherSpawned :=
    mem_startedBy.mp (hsound.mem_startedBy_of_endedBy (mem_endedBy.mpr hotherMem))
  have hlease : otherCompleted.task.lease = completed.task.lease := by
    rw [CompletedLease.task, CompletedLease.task, hjobId, htoken]
  rw [hlease] at hotherSpawned
  obtain rfl := hsound.pid_eq hspawned hotherSpawned
  rw [hprocess] at hotherProcess
  cases hotherProcess
  obtain rfl := honce.completed_eq hprocess hmem hotherMem hjobId htoken
  exact ⟨hotherSender, sentAt, rfl⟩

/-- The ack of the sample run follows the run of the handler. -/
theorem completions_report_results_sample :
    ∃ s before, (initial "jobs").run sampleAckActions = some s ∧
      s.history = before ++ [.executed 2 (some 0)
        (.ack sampleConfig.workerId "job" "token" (Moment.ofMillis 16).now) ["ok"]] ∧
      ∃ pid config result, Ran before pid config ⟨"job", "token", result⟩ := by
  have hends : ((initial "jobs").run sampleAckActions).any fun s =>
      s.history.getLast? = some (.executed 2 (some 0)
        (.ack sampleConfig.workerId "job" "token" (Moment.ofMillis 16).now) ["ok"]) := by decide
  obtain ⟨s, hrun, hfacts⟩ := Option.any_eq_true _ _ |>.mp hends
  obtain ⟨before, hhistory⟩ := List.getLast?_eq_some_iff.mp (of_decide_eq_true hfacts)
  obtain ⟨pid, config, _, result, _, _, _, hran, _⟩ :=
    completions_report_results hrun hhistory ⟨rfl, rfl, rfl⟩
  exact ⟨s, before, hrun, hhistory, pid, config, result, hran⟩

end System

end Redloop
