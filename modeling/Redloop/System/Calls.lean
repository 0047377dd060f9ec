/-
# The calls of the system and the store

One inversion of the steps of the system, and what its history says about the store:
it lists the calls that Redis executed with their replies, each answer is that of the
store at its time, and the store is where the executed operations lead. The calls
carry fresh tokens, so the executed operations do.
-/

import Redloop.Data.History
import Redloop.System.Model

namespace Redloop

/-- Operations at different places of a run with fresh tokens share none. -/
theorem FreshTokens.not_mem_of_ne {ops : List Op} (hfresh : FreshTokens ops) {i j : ℕ}
    {first second : Op} (hfirst : ops[i]? = some first) (hsecond : ops[j]? = some second)
    (hne : i ≠ j) {token : Bytes} (htoken : token ∈ first.leaseTokens) :
    token ∉ second.leaseTokens := by
  obtain ⟨hi, rfl⟩ := List.getElem?_eq_some_iff.mp hfirst
  obtain ⟨hj, rfl⟩ := List.getElem?_eq_some_iff.mp hsecond
  have hpairs := List.pairwise_iff_getElem.mp hfresh
  rcases lt_or_gt_of_ne hne with hlt | hgt
  · exact hpairs i j hi hj hlt token htoken
  · intro hmem
    exact hpairs j i hj hi hgt token hmem htoken

/-- A run stays fresh when an operation with other tokens follows. -/
theorem FreshTokens.concat {ops : List Op} {op : Op} (hfresh : FreshTokens ops)
    (hop : ∀ other ∈ ops, ∀ token ∈ other.leaseTokens, token ∉ op.leaseTokens) :
    FreshTokens (ops ++ [op]) := by
  apply List.pairwise_append.mpr
  refine ⟨hfresh, List.pairwise_singleton _ _, ?_⟩
  intro other hother last hlast
  cases List.mem_singleton.mp hlast
  exact hop other hother

/-- Clients carry no tokens. -/
theorem Op.IsClient.leaseTokens_eq {op : Op} (hclient : op.IsClient) : op.leaseTokens = [] := by
  cases op with
  | reserve => exact hclient.elim
  | _ => rfl

@[simp]
theorem executedOps_append (first second : List Entry) :
    executedOps (first ++ second) = executedOps first ++ executedOps second :=
  List.filterMap_append

/-- What a worker observes executes no call. -/
@[simp]
theorem executedOps_entriesOf (pid : ℕ) (phase : Phase) (event : Event) (effects : List Effect) :
    executedOps (entriesOf pid phase event effects) = [] := by
  unfold executedOps entriesOf
  apply List.filterMap_eq_nil_iff.mpr
  intro entry hmem
  rw [List.mem_append, List.mem_append, List.mem_map, List.mem_map] at hmem
  rcases hmem with hfinished | ⟨_, _, rfl⟩ | ⟨_, _, rfl⟩
  · split at hfinished
    · cases List.mem_singleton.mp hfinished
      rfl
    · cases hfinished
  · rfl
  · rfl

theorem not_executed_mem_entriesOf {pid : ℕ} {phase : Phase} {event : Event}
    {effects : List Effect} {id : ℕ} {sender : Option ℕ} {op : Op} {reply : Reply} :
    Entry.executed id sender op reply ∉ entriesOf pid phase event effects := by
  intro hmem
  have hop : op ∈ executedOps (entriesOf pid phase event effects) :=
    List.mem_filterMap.mpr ⟨_, hmem, rfl⟩
  rw [executedOps_entriesOf] at hop
  cases hop

namespace System

variable {s s' : System} {action : Action}

/-- The ways the system takes a step. -/
inductive Steps (s : System) : Action → System → Prop
  | submit {op : Op} (hclient : op.IsClient) :
      Steps s (.submit op) { s with sent := s.sent ++ [.send none op] }
  | start {config : WorkerConfig} {instant : Instant} {worker : Worker}
      (hstart : Worker.start s.namespaceName config instant = .ok worker) :
      Steps s (.start config instant)
        { s with processes := s.processes ++ [⟨worker, none, true⟩] }
  | crash {pid : ℕ} {process : Process} (hprocess : s.processes[pid]? = some process) :
      Steps s (.crash pid)
        { s with processes := s.processes.set pid { process with alive := false } }
  | execute {id : ℕ} {call : Call} (hcall : s.sent[id]? = some call)
      (hreply : call.reply = none) :
      Steps s (.execute id)
        { s with
          store := s.store.next call.op
          sent := s.sent.set id (call.execute s.store)
          history := s.history ++ [.executed id call.sender call.op (s.store.reply call.op)] }
  | lose {id : ℕ} (hid : id < s.sent.length) : Steps s (.lose id) { s with lost := id :: s.lost }
  | observe {pid : ℕ} {process : Process} {moment : Moment} {event : Event} {worker : Worker}
      {effects : List Effect} (hprocess : s.processes[pid]? = some process)
      (halive : process.alive) (hstep : process.worker.step moment event = some (worker, effects))
      (hdelivers : s.Delivers process event) (hfresh : s.Fresh (calls effects)) :
      Steps s (.observe pid moment event) (s.observed pid process event worker effects)

/-- Every step of the system is one of them. -/
theorem step_eq_some (hstep : s.step action = some s') : s.Steps action s' := by
  cases action with
  | submit op =>
      simp only [step, Option.ite_none_right_eq_some, Option.some.injEq] at hstep
      obtain ⟨hclient, rfl⟩ := hstep
      exact .submit hclient
  | start config instant =>
      unfold step at hstep
      dsimp only at hstep
      split at hstep
      · next worker hstart =>
          cases hstep
          exact .start hstart
      · cases hstep
  | crash pid =>
      unfold step at hstep
      dsimp only at hstep
      split at hstep
      · next process hprocess =>
          cases hstep
          exact .crash hprocess
      · cases hstep
  | execute id =>
      unfold step at hstep
      dsimp only at hstep
      split at hstep
      · next call hcall =>
          split_ifs at hstep with hreply
          cases hstep
          exact .execute hcall hreply
      · cases hstep
  | lose id =>
      simp only [step, Option.ite_none_right_eq_some, Option.some.injEq] at hstep
      obtain ⟨hid, rfl⟩ := hstep
      exact .lose hid
  | observe pid moment event =>
      unfold step at hstep
      dsimp only at hstep
      split at hstep
      · next process hprocess =>
          unfold observe at hstep
          split at hstep
          · cases hstep
          · next worker effects heffects =>
              split_ifs at hstep with hguard
              cases hstep
              exact .observe hprocess hguard.1 heffects hguard.2.1 hguard.2.2
      · cases hstep

/-! ## What the history says -/

/-- An executed entry of a history splits the operations where it stands. -/
theorem exists_split_of_executedOps {history : List Entry} {before after : List Op} {op : Op}
    (hops : executedOps history = before ++ op :: after) :
    ∃ middle id sender reply last, history = middle ++ .executed id sender op reply :: last ∧
      executedOps middle = before := by
  obtain ⟨middle, tail, rfl, hmiddle, htail⟩ := List.filterMap_eq_append_iff.mp hops
  obtain ⟨skipped, entry, last, rfl, hskipped, hop, _⟩ := List.filterMap_eq_cons_iff.mp htail
  cases entry with
  | executed id sender executed reply =>
      cases hop
      refine ⟨middle ++ skipped, id, sender, reply, last, by simp, ?_⟩
      have hnone : executedOps skipped = [] := List.filterMap_eq_nil_iff.mpr hskipped
      rw [executedOps_append, hnone, List.append_nil]
      exact hmiddle
  | _ => cases hop

/-- An execution was answered by the store at its time. -/
def AnsweredByStore (before : List Entry) : Entry → Prop
  | .executed _ _ op reply => reply = (Store.empty.run (executedOps before)).reply op
  | _ => True

/-- The history records the executed calls, and the store is where they lead. -/
structure Recorded (s : System) : Prop where
  store_eq : s.store = Store.empty.run (executedOps s.history)
  executed_iff : ∀ id sender op reply, .executed id sender op reply ∈ s.history ↔
    s.sent[id]? = some ⟨sender, op, some reply⟩
  fresh_sent : FreshTokens (s.sent.map Call.op)
  fresh : FreshTokens (executedOps s.history)
  answered : Justified AnsweredByStore s.history

theorem recorded_initial (namespaceName : Bytes) : (initial namespaceName).Recorded where
  store_eq := rfl
  executed_iff := by simp [initial]
  fresh_sent := List.Pairwise.nil
  fresh := List.Pairwise.nil
  answered := .nil

namespace Recorded

/-- New calls are not executed. -/
theorem executed_iff_append (hrecorded : s.Recorded) (senders : Option ℕ) (ops : List Op)
    (id : ℕ) (sender : Option ℕ) (op : Op) (reply : Reply) :
    .executed id sender op reply ∈ s.history ↔
      (s.sent ++ ops.map (Call.send senders))[id]? = some ⟨sender, op, some reply⟩ := by
  rw [hrecorded.executed_iff]
  by_cases hid : id < s.sent.length
  · rw [List.getElem?_append_left hid]
  · rw [List.getElem?_append_right (not_lt.mp hid), List.getElem?_eq_none (not_lt.mp hid),
      List.getElem?_map]
    cases ops[id - s.sent.length]? <;> simp [Call.send]

/-- A call that is not executed shares no token with the executed operations. -/
theorem not_mem_of_executed (hrecorded : s.Recorded) {id : ℕ} {call : Call}
    (hcall : s.sent[id]? = some call) (hreply : call.reply = none) :
    ∀ other ∈ executedOps s.history, ∀ token ∈ other.leaseTokens,
      token ∉ call.op.leaseTokens := by
  intro other hother token htoken
  obtain ⟨entry, hentry, hop⟩ := List.mem_filterMap.mp hother
  cases entry with
  | executed executedId sender op reply =>
      cases hop
      have hsent := (hrecorded.executed_iff _ _ _ _).mp hentry
      have hne : executedId ≠ id := by
        rintro rfl
        rw [hcall] at hsent
        cases hsent
        cases hreply
      have hfirst : (s.sent.map Call.op)[executedId]? = some other := by simp [hsent]
      have hsecond : (s.sent.map Call.op)[id]? = some call.op := by simp [hcall]
      exact hrecorded.fresh_sent.not_mem_of_ne hfirst hsecond hne htoken
  | _ => cases hop

theorem execute (hrecorded : s.Recorded) {id : ℕ} {call : Call}
    (hcall : s.sent[id]? = some call) (hreply : call.reply = none) :
    Recorded
      { s with
        store := s.store.next call.op
        sent := s.sent.set id (call.execute s.store)
        history := s.history ++ [.executed id call.sender call.op (s.store.reply call.op)] } where
  store_eq := by
    rw [executedOps_append, Store.run_append, ← hrecorded.store_eq]
    rfl
  executed_iff other sender op reply := by
    obtain ⟨hid, hget⟩ := List.getElem?_eq_some_iff.mp hcall
    rw [List.mem_append, hrecorded.executed_iff, List.mem_singleton, List.getElem?_set]
    by_cases hother : id = other
    · subst hother
      rw [if_pos rfl, if_pos hid, hcall]
      obtain ⟨callSender, callOp, callReply⟩ := call
      cases hreply
      simp [Call.execute, eq_comm]
    · rw [if_neg hother]
      simp [Ne.symm hother]
  fresh_sent := by
    have hsame : (s.sent.set id (call.execute s.store)).map Call.op = s.sent.map Call.op := by
      obtain ⟨hid, rfl⟩ := List.getElem?_eq_some_iff.mp hcall
      rw [List.map_set]
      apply List.ext_getElem
      · simp
      · intro index _ _
        simp only [List.getElem_set, List.getElem_map]
        split_ifs with hindex
        · subst hindex
          rfl
        · rfl
    rw [hsame]
    exact hrecorded.fresh_sent
  fresh := by
    rw [executedOps_append]
    exact hrecorded.fresh.concat (hrecorded.not_mem_of_executed hcall hreply)
  answered := hrecorded.answered.concat (by rw [AnsweredByStore, ← hrecorded.store_eq])

/-- The history and the store agree in every step. -/
theorem step (hrecorded : s.Recorded) (hstep : s.Steps action s') : s'.Recorded := by
  cases hstep with
  | submit hclient =>
      refine ⟨hrecorded.store_eq, hrecorded.executed_iff_append none [_], ?_, hrecorded.fresh,
        hrecorded.answered⟩
      rw [List.map_append]
      apply hrecorded.fresh_sent.concat
      intro other _ token _ hmem
      rw [Call.send, hclient.leaseTokens_eq] at hmem
      cases hmem
  | start => exact ⟨hrecorded.1, hrecorded.2, hrecorded.3, hrecorded.4, hrecorded.5⟩
  | crash => exact ⟨hrecorded.1, hrecorded.2, hrecorded.3, hrecorded.4, hrecorded.5⟩
  | execute hcall hreply => exact hrecorded.execute hcall hreply
  | lose => exact ⟨hrecorded.1, hrecorded.2, hrecorded.3, hrecorded.4, hrecorded.5⟩
  | @observe pid process moment event worker effects _ _ hstep _ hfresh =>
      refine ⟨?_, ?_, ?_, ?_, ?_⟩
      · simpa [observed] using hrecorded.store_eq
      · intro id sender op reply
        show _ ∈ s.history ++ entriesOf pid process.worker.phase event effects ↔ _
        rw [List.mem_append, or_iff_left not_executed_mem_entriesOf]
        exact hrecorded.executed_iff_append (some pid) (calls effects) id sender op reply
      · simp only [observed, List.map_append, List.map_map]
        rcases (Worker.step_eq_some hstep).2.callsOrIdles with ⟨op, hcalls, _⟩ | ⟨hcalls, _⟩
        · rw [hcalls] at hfresh ⊢
          apply hrecorded.fresh_sent.concat
          intro other hother token htoken hmem
          obtain ⟨call, hcall, rfl⟩ := List.mem_map.mp hother
          exact hfresh op (List.mem_singleton_self _) call hcall token hmem htoken
        · simpa [hcalls] using hrecorded.fresh_sent
      · simpa [observed] using hrecorded.fresh
      · apply hrecorded.answered.append
        intro entry hmem more
        cases entry with
        | executed => exact absurd hmem not_executed_mem_entriesOf
        | _ => trivial

end Recorded

end System

end Redloop
