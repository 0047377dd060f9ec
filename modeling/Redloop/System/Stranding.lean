/-
# Leases that no handler runs for

A reserve is a branch of the worker's select, so another branch that is ready first
drops it, also after Redis has executed it. A lease of a running worker is stranded
then: its reply is neither lost nor awaited, and no handler was started. This is the
only way: while no step drops a reserve that leases jobs, every such lease is awaited
or handled in every state.
-/

import Redloop.System.Processes

namespace Redloop

/-- A join, a heartbeat tick or a reap tick is ready before the reserve of a select. -/
def Worker.Preempts (w : Worker) (ready : Ready) : Prop :=
  w.joinSet.finished ≠ [] ∨ (w.active.len ≠ 0 ∧ ready.heartbeatTick) ∨ ready.reapTick

instance (w : Worker) (ready : Ready) : Decidable (w.Preempts ready) :=
  inferInstanceAs (Decidable (_ ∨ _))

instance (w : Worker) : Decidable w.Runs :=
  match hphase : w.phase with
  | .returned error => isFalse fun hruns => hruns error hphase
  | .top | .completing _ _ | .entering | .selecting _ | .heartbeating _ _ _ | .reaping =>
      isTrue fun error hreturned => by simp [hphase] at hreturned

/-- While the reserve takes part in a select, the branch that fires is ready before it or is
the reserve. -/
theorem Worker.preempts_of_branch {w : Worker} {select : Select} {ready : Ready} {branch : Branch}
    (hbranch : w.branch select ready = some branch) (henabled : w.ReserveEnabled select.capacity) :
    w.Preempts ready ∨ ∃ reserved, branch = .reserve reserved := by
  unfold Worker.branch at hbranch
  split_ifs at hbranch with hfinished hheartbeat hreap hbackoff
  · exact Or.inl (Or.inl hfinished)
  · exact Or.inl (Or.inr (Or.inl hheartbeat))
  · exact Or.inl (Or.inr (Or.inr hreap.2))
  · rw [Option.isNone_iff_eq_none.mp henabled.2.2] at hbackoff
    cases hbackoff.1
  · obtain ⟨reserved, _, rfl⟩ := Option.map_eq_some_iff.mp hbranch
    exact Or.inr ⟨reserved, rfl⟩

/-- The process is alive and its worker has not stopped with an error. -/
def Process.KeepsRunning (process : Process) : Prop := process.alive ∧ process.worker.Runs

instance : DecidablePred Process.KeepsRunning := fun _ => inferInstanceAs (Decidable (_ ∧ _))

namespace System

variable {s s' : System} {action : Action} {pid : ℕ} {process process' : Process}
  {lease : ReservedJob}

/-- A lease is handled by the worker of a process: its handler was started, it is recorded
as active until its completion is answered, and its handler runs or has ended. -/
structure Handled (s : System) (pid : ℕ) (worker : Worker) (lease : ReservedJob) : Prop where
  spawned : .spawned pid lease ∈ s.history
  active : lease.attemptKey ∈ worker.active ∨ .answered pid lease.attemptKey ∈ s.history
  running : lease ∈ worker.joinSet.running ∨ ∃ result, .finished pid ⟨lease, result⟩ ∈ s.history

/-- Every lease that a running worker was granted, in a reply that is not lost and can be
read, is handled, or the worker still waits for the reply. -/
def NoneStranded (s : System) : Prop :=
  ∀ (id : ℕ) (call : Call) (pid : ℕ) (process : Process) (batch : ReserveBatch),
    s.sent[id]? = some call → call.sender = some pid → call.batch? = some (.ok batch) →
      id ∉ s.lost → s.processes[pid]? = some process → process.KeepsRunning →
        process.awaiting = some id ∨ ∀ lease ∈ batch.jobs, s.Handled pid process.worker lease

/-- The client of a reserve reads at least one leased job from its reply. -/
def LeasesJobs (call : Call) : Prop :=
  ∃ read ∈ call.batch?, ∃ batch ∈ read.toOption, batch.jobs ≠ []

instance : DecidablePred LeasesJobs := fun call =>
  inferInstanceAs (Decidable (∃ read ∈ call.batch?, _))

/-- An action drops leases: another branch fires in the select of a worker that waits for
the reply to an executed reserve with leases, or Redis executes such a reserve of a
running worker that does not wait for it any more. -/
def DropsLeases (s : System) : Action → Prop
  | .observe pid _ (.poll ready) =>
      ∃ process ∈ s.processes[pid]?, ∃ id ∈ process.awaiting, id ∉ s.lost ∧
        process.worker.Preempts ready ∧ ¬ (Event.poll ready).ReportsFailure ∧
          ∃ call ∈ s.sent[id]?, LeasesJobs call
  | .execute id =>
      ∃ call ∈ s.sent[id]?, id ∉ s.lost ∧ LeasesJobs (call.execute s.store) ∧
        ∃ pid ∈ call.sender, ∃ process ∈ s.processes[pid]?,
          process.KeepsRunning ∧ process.awaiting ≠ some id
  | _ => False

instance (s : System) : DecidablePred s.DropsLeases
  | .observe _ _ (.poll _) | .execute _ => inferInstanceAs (Decidable (∃ _ ∈ _, _))
  | .observe _ _ (.finish _) | .observe _ _ (.turn _) | .observe _ _ (.enter _) =>
      instDecidableFalse
  | .observe _ _ (.resume _) | .submit _ | .start _ _ | .crash _ | .lose _ => instDecidableFalse

/-- No action of a run drops leases. -/
def DropsNoLeases (s : System) : List Action → Prop
  | [] => True
  | action :: rest => ¬ s.DropsLeases action ∧ ∀ next ∈ s.step action, next.DropsNoLeases rest

instance decidableDropsNoLeases (s : System) : DecidablePred s.DropsNoLeases
  | [] => instDecidableTrue
  | _ :: rest =>
      have (next : System) := decidableDropsNoLeases next rest
      inferInstanceAs (Decidable (_ ∧ ∀ _ ∈ _, _))

/-! ## Handled leases -/

/-- A lease stays handled when more is recorded. -/
theorem Handled.of_history_subset {worker : Worker} (hhandled : s.Handled pid worker lease)
    (hhistory : ∀ entry ∈ s.history, entry ∈ s'.history) : s'.Handled pid worker lease where
  spawned := hhistory _ hhandled.spawned
  active := hhandled.active.imp_right (hhistory _)
  running := hhandled.running.imp_right fun ⟨result, hmem⟩ => ⟨result, hhistory _ hmem⟩

theorem awaits_or_handled_of_history_subset {id : ℕ} {jobs : List ReservedJob}
    (hbefore : process.awaiting = some id ∨ ∀ lease ∈ jobs, s.Handled pid process.worker lease)
    (hhistory : ∀ entry ∈ s.history, entry ∈ s'.history) :
    process.awaiting = some id ∨ ∀ lease ∈ jobs, s'.Handled pid process.worker lease := by
  apply hbefore.imp_right
  intro hhandled lease hmem
  exact (hhandled lease hmem).of_history_subset hhistory

section Observe

variable {moment : Moment} {event : Event} {worker : Worker} {effects : List Effect}

/-- A handled lease stays handled when its worker observes an event. -/
theorem Handled.observed (hhandled : s.Handled pid process.worker lease)
    (hreacts : { process.worker with instant := moment.instant }.Reacts moment.now event worker
      effects) : (s.observed pid process event worker effects).Handled pid worker lease := by
  have hbefore : (s.observed pid process event worker effects).Handled pid process.worker lease :=
    hhandled.of_history_subset fun _ => List.mem_append_left _
  refine ⟨hbefore.spawned, ?_, ?_⟩
  · rcases hbefore.active with hactive | hanswered
    · cases hreacts.activeChange with
      | kept hsame _ => exact Or.inl (hsame ▸ hactive)
      | spawned _ hsame _ =>
          rw [hsame]
          exact Or.inl (ActiveLeases.mem_foldl_addReserved hactive)
      | @resolved completed rest reply hphase hreply hsame _ =>
          by_cases hkey : lease.attemptKey = completed.attemptKey
          · refine Or.inr (List.mem_append_right _ (mem_entriesOf_answered ?_))
            have hphase : process.worker.phase = .completing completed rest := hphase
            rw [hphase, hkey]
            rcases hreply with rfl | ⟨_, rfl⟩ <;> rfl
          · rw [hsame]
            exact Or.inl (Finmap.mem_erase.mpr ⟨hkey, hactive⟩)
      | lost _ hsame _ =>
          rw [hsame, ← Finmap.mem_keys, ActiveLeases.keys_disableHeartbeat, Finmap.mem_keys]
          exact Or.inl hactive
    · exact Or.inr hanswered
  · rcases hbefore.running with hrunning | hfinished
    · cases hreacts.runningChange with
      | kept hsame _ => exact Or.inl (hsame ▸ hrunning)
      | spawned hsame _ =>
          rw [hsame]
          exact Or.inl (List.mem_append_left _ hrunning)
      | @finished task _ hsame _ =>
          by_cases hlease : task.lease = lease
          · obtain ⟨_, result⟩ := task
            cases hlease
            exact Or.inr ⟨result, List.mem_append_right _ mem_entriesOf_finish⟩
          · rw [hsame]
            exact Or.inl ((List.mem_erase_of_ne (Ne.symm hlease)).mpr hrunning)
    · exact Or.inr hfinished

/-- The leases of a batch that arrives are handled. -/
theorem handled_of_arrived {w : Worker} {now : Timestamp} {batch : ReserveBatch}
    (hmem : lease ∈ batch.jobs) :
    (s.observed pid process event (w.resumeReserve now (.ok batch)).1
      (w.resumeReserve now (.ok batch)).2).Handled pid
        (w.resumeReserve now (.ok batch)).1 lease := by
  have hjobs : batch.jobs ≠ [] := List.ne_nil_of_mem hmem
  have hspawns : spawns (w.resumeReserve now (.ok batch)).2 = batch.jobs := by
    simp [Worker.resumeReserve, hjobs, spawns, List.filterMap_map, Function.comp_def,
      Effect.spawn?]
  refine ⟨List.mem_append_right _ (mem_entriesOf_spawned (hspawns ▸ hmem)), Or.inl ?_, Or.inl ?_⟩
  · simp only [Worker.resumeReserve, if_pos hjobs, Worker.foldl_spawnJob]
    exact ActiveLeases.mem_foldl_addReserved_self hmem
  · simp only [Worker.resumeReserve, if_pos hjobs, Worker.foldl_spawnJob]
    exact List.mem_append_right _ hmem

end Observe

/-! ## Steps -/

/-- A call that was just sent has no reply. -/
theorem getElem?_of_batch?_append {sent : List Call} {senders : Option ℕ} {ops : List Op}
    {id : ℕ} {call : Call} {batch : ReserveBatch}
    (hcall : (sent ++ ops.map (Call.send senders))[id]? = some call)
    (hbatch : call.batch? = some (.ok batch)) : sent[id]? = some call := by
  by_cases hid : id < sent.length
  · rw [List.getElem?_append_left hid] at hcall
    exact hcall
  · rw [List.getElem?_append_right (not_lt.mp hid), List.getElem?_map] at hcall
    obtain ⟨op, _, rfl⟩ := Option.map_eq_some_iff.mp hcall
    obtain ⟨_, _, _, _, _, _, hreply, _⟩ := Call.exists_reserve_of_batch? hbatch
    cases hreply

/-- A reply that is reported as failed is lost. -/
theorem mem_lostAfter {event : Event} {id : ℕ} (hreports : event.ReportsFailure)
    (hid : process.awaiting = some id) : id ∈ s.lostAfter process event := by
  rw [lostAfter, if_pos hreports, hid]
  exact List.mem_cons_self

theorem not_mem_lost_of_lostAfter {event : Event} {id : ℕ}
    (hlost : id ∉ s.lostAfter process event) : id ∉ s.lost := by
  intro hmem
  apply hlost
  unfold lostAfter
  split_ifs
  · exact List.mem_append_right _ hmem
  · exact hmem

section Observe

variable {moment : Moment} {event : Event} {worker : Worker} {effects : List Effect}

/-- A branch that takes the place of an answered reserve drops its leases, so a step that
drops none finds none. -/
theorem jobs_eq_nil_of_preempts {id : ℕ} {call : Call} {batch : ReserveBatch} {ready : Ready}
    (hprocess : s.processes[pid]? = some process) (hcall : s.sent[id]? = some call)
    (hbatch : call.batch? = some (.ok batch)) (hid : process.awaiting = some id)
    (hlost : id ∉ s.lostAfter process (.poll ready))
    (hkept : ¬ s.DropsLeases (.observe pid moment (.poll ready)))
    (hpreempts : process.worker.Preempts ready) : batch.jobs = [] := by
  by_contra hjobs
  have hreports : ¬ (Event.poll ready).ReportsFailure :=
    fun hreports => hlost (mem_lostAfter hreports hid)
  exact hkept ⟨process, hprocess, id, hid, not_mem_lost_of_lostAfter hlost, hpreempts, hreports,
    call, hcall, _, hbatch, batch, rfl, hjobs⟩

/-- A worker that waits for a reserve which has leased jobs handles them when the reply
arrives. It stops waiting in no other way, unless the leases are dropped or the reply is
lost. -/
theorem awaits_or_handled {id : ℕ} {call : Call} {batch : ReserveBatch}
    (hsound : s.ProcessSound pid process) (hprocess : s.processes[pid]? = some process)
    (hcall : s.sent[id]? = some call) (hbatch : call.batch? = some (.ok batch))
    (hid : process.awaiting = some id) (hlost : id ∉ s.lostAfter process event)
    (hdelivers : s.Delivers process event)
    (hreacts : { process.worker with instant := moment.instant }.Reacts moment.now event worker
      effects) (hkept : ¬ s.DropsLeases (.observe pid moment event)) :
    (calls effects = [] ∧ worker.AwaitsReply) ∨ ∀ lease ∈ batch.jobs,
      (s.observed pid process event worker effects).Handled pid worker lease := by
  obtain ⟨awaited, hawaited, _, hawaits⟩ := hsound.awaits id hid
  rw [hcall] at hawaited
  cases hawaited
  obtain ⟨config, availableCapacity, now, leaseTokens, reply, hop, _⟩ :=
    Call.exists_reserve_of_batch? hbatch
  have hreply : process.worker.AwaitsReply := Worker.awaitsReply_iff.mpr ⟨_, hawaits⟩
  obtain ⟨select, hselecting, henabled⟩ := (hop ▸ hawaits).of_reserve
  have hstarted : select.startedAt.isSome := by
    unfold Worker.AwaitsReply at hreply
    rw [hselecting] at hreply
    exact hreply.1
  -- Another branch that fires has dropped the leases, when there are any.
  have hbranch {fired : Select} {ready : Ready} {branch : Worker.Branch}
      (hevent : event = .poll ready) (hphase : process.worker.phase = .selecting fired)
      (hbranch : { process.worker with instant := moment.instant }.branch fired ready =
        some branch) (hother : ∀ reserved, branch ≠ .reserve reserved) : batch.jobs = [] := by
    rw [hselecting] at hphase
    cases hphase
    rcases Worker.preempts_of_branch hbranch henabled with hpreempts | ⟨reserved, hreserve⟩
    · subst hevent
      exact jobs_eq_nil_of_preempts hprocess hcall hbatch hid hlost hkept hpreempts
    · exact absurd hreserve (hother reserved)
  have hnone (hjobs : batch.jobs = []) : ∀ lease ∈ batch.jobs,
      (s.observed pid process event worker effects).Handled pid worker lease := by
    simp [hjobs]
  cases hreacts with
  | finish => exact Or.inl ⟨rfl, hreply⟩
  | join hphase hfires => exact Or.inr (hnone (hbranch rfl hphase hfires (by simp)))
  | heartbeatTick hphase hfires => exact Or.inr (hnone (hbranch rfl hphase hfires (by simp)))
  | reapTick hphase hfires => exact Or.inr (hnone (hbranch rfl hphase hfires (by simp)))
  | runtimeSleep hphase hfires => exact Or.inr (hnone (hbranch rfl hphase hfires (by simp)))
  | pollSleep hphase hfires => exact Or.inr (hnone (hbranch rfl hphase hfires (by simp)))
  | @reserve _ ready reserved hphase hfires _ hready =>
      have hread : Answers ((s.arriving id).bind Call.batch?) reserved := by
        unfold Delivers at hdelivers
        dsimp only at hdelivers
        rw [hready, hid] at hdelivers
        exact hdelivers
      rcases hread with hread | hfailed
      · rw [arriving, if_neg (not_mem_lost_of_lostAfter hlost), hcall] at hread
        cases hbatch.symm.trans hread
        exact Or.inr fun lease hmem => handled_of_arrived hmem
      · have hreports : (Event.poll ready).ReportsFailure := ⟨reserved, hready, hfailed⟩
        exact absurd (mem_lostAfter hreports hid) hlost
  | wait hphase _ =>
      left
      have hphase : process.worker.phase = .selecting _ := hphase
      rw [hselecting] at hphase
      cases hphase
      obtain ⟨instant, hinstant⟩ := Option.isSome_iff_exists.mp hstarted
      unfold Worker.startSelect
      rw [hinstant]
      exact ⟨rfl, hreply⟩
  | drainFailed hphase => cases hselecting.symm.trans hphase
  | turn hphase => cases hselecting.symm.trans hphase
  | enter hphase => cases hselecting.symm.trans hphase
  | completion hphase => cases hselecting.symm.trans hphase
  | heartbeat hphase => cases hselecting.symm.trans hphase
  | reap hphase => cases hselecting.symm.trans hphase

end Observe

/-- No lease is stranded by a step that drops none. -/
theorem NoneStranded.step (hnone : s.NoneStranded) (hsound : s.Sound)
    (hsteps : s.Steps action s') (hkept : ¬ s.DropsLeases action) : s'.NoneStranded := by
  intro id call pid process batch hcall hsender hbatch hlost hprocess hruns
  have hhistory := hsteps.extends.history
  cases hsteps with
  | @submit op =>
      have hcall : (s.sent ++ [op].map (Call.send none))[id]? = some call := hcall
      have hold := getElem?_of_batch?_append hcall hbatch
      exact awaits_or_handled_of_history_subset
        (hnone id call pid process batch hold hsender hbatch hlost hprocess hruns) hhistory
  | start =>
      obtain ⟨sender, hold, _⟩ :=
        (hsound.calls call (List.mem_of_getElem? hcall)).sentBy pid hsender
      obtain ⟨hpid, _⟩ := List.getElem?_eq_some_iff.mp hold
      rw [List.getElem?_append_left hpid] at hprocess
      exact awaits_or_handled_of_history_subset
        (hnone id call pid process batch hcall hsender hbatch hlost hprocess hruns) hhistory
  | crash hcrashed =>
      rcases getElem?_set_cases hprocess with ⟨rfl, rfl⟩ | hold
      · cases hruns.1
      · exact awaits_or_handled_of_history_subset
          (hnone id call pid process batch hcall hsender hbatch hlost hold hruns) hhistory
  | @execute executed waiting hwaiting _ =>
      rcases getElem?_set_cases hcall with ⟨rfl, rfl⟩ | hold
      · by_cases hawaits : process.awaiting = some executed
        · exact Or.inl hawaits
        · right
          have hjobs : batch.jobs = [] := by
            by_contra hjobs
            exact hkept ⟨waiting, hwaiting, hlost, ⟨_, hbatch, batch, rfl, hjobs⟩, pid, hsender,
              process, hprocess, hruns, hawaits⟩
          simp [hjobs]
      · exact awaits_or_handled_of_history_subset
          (hnone id call pid process batch hold hsender hbatch hlost hprocess hruns) hhistory
  | lose =>
      have hbefore : id ∉ s.lost := fun hmem => hlost (List.mem_cons_of_mem _ hmem)
      exact awaits_or_handled_of_history_subset
        (hnone id call pid process batch hcall hsender hbatch hbefore hprocess hruns) hhistory
  | @observe observer observing moment event worker effects hobserving halive hstep hdelivers =>
      have hreacts := (Worker.step_eq_some hstep).2
      have hold := getElem?_of_batch?_append hcall hbatch
      have hbefore : id ∉ s.lost := not_mem_lost_of_lostAfter hlost
      rcases getElem?_set_cases hprocess with ⟨rfl, rfl⟩ | hother
      · have hrunning : observing.KeepsRunning := ⟨halive, hreacts.runs⟩
        rcases hnone id call observer observing batch hold hsender hbatch hbefore hobserving
          hrunning with hawaits | hhandled
        · rcases awaits_or_handled (hsound.processes observer observing hobserving) hobserving hold
            hbatch hawaits hlost hdelivers hreacts hkept with ⟨hcalls, hreply⟩ | hhandled
          · left
            dsimp only
            rw [if_neg (by simp [hcalls]), if_pos hreply]
            exact hawaits
          · exact Or.inr hhandled
        · exact Or.inr fun lease hmem => (hhandled lease hmem).observed hreacts
      · exact awaits_or_handled_of_history_subset
          (hnone id call pid process batch hold hsender hbatch hbefore hother hruns) hhistory

/-- No lease is stranded in a run that drops none. -/
theorem NoneStranded.run {actions : List Action} (hnone : s.NoneStranded) (hsound : s.Sound)
    (hrun : s.run actions = some s') (hkept : s.DropsNoLeases actions) : s'.NoneStranded := by
  induction actions generalizing s with
  | nil =>
      cases hrun
      exact hnone
  | cons action rest ih =>
      obtain ⟨next, hstep, hrest⟩ := runTrace_cons_eq_some.mp hrun
      obtain ⟨hfirst, hlater⟩ := hkept
      have hsteps := step_eq_some hstep
      exact ih (hnone.step hsound hsteps hfirst) (hsound.step hsteps) hrest (hlater next hstep)

/-! ## Leases in Redis -/

/-- A lease in Redis was granted by the reserve of a worker. -/
theorem Sound.exists_grant (hsound : s.Sound) {workerId jobId leaseToken : Bytes}
    (hcurrent : s.store.CurrentLease jobId workerId leaseToken) :
    ∃ (id pid : ℕ) (op : Op) (reply : Reply), s.sent[id]? = some ⟨some pid, op, some reply⟩ ∧
      op.Grants reply workerId jobId leaseToken := by
  rw [hsound.recorded.store_eq] at hcurrent
  obtain ⟨earlier, op, later, hops, hgrants⟩ := Store.granted_of_currentLease hcurrent
  obtain ⟨before, id, sender, reply, last, hhistory, hbefore⟩ := exists_split_of_executedOps hops
  have hanswered : reply = (Store.empty.run (executedOps before)).reply op :=
    hsound.recorded.answered before _ last hhistory
  rw [hbefore] at hanswered
  subst hanswered
  have hsent : s.sent[id]? = some ⟨sender, op, some ((Store.empty.run earlier).reply op)⟩ := by
    rw [← hsound.recorded.executed_iff, hhistory]
    exact List.mem_append_right _ List.mem_cons_self
  cases sender with
  | none =>
      have hclient := (hsound.calls _ (List.mem_of_getElem? hsent)).client rfl
      cases op with
      | reserve => exact hclient.elim
      | _ => exact hgrants.elim
  | some pid => exact ⟨id, pid, op, _, hsent, hgrants⟩

/-- While no step of a run drops leases, every lease that a running worker was granted, in
a reply that is not lost and can be read, is awaited or handled: a handler was started for
it and it is active. A lease in Redis is such a lease, unless its worker has stopped or the
reply is lost or cannot be read. -/
theorem leases_reach_handlers {namespaceName : Bytes} {actions : List Action}
    (hrun : (initial namespaceName).run actions = some s)
    (hkept : (initial namespaceName).DropsNoLeases actions) :
    s.NoneStranded ∧
      ∀ workerId jobId leaseToken, s.store.CurrentLease jobId workerId leaseToken →
        ∃ (id pid : ℕ) (op : Op) (reply : Reply),
          s.sent[id]? = some ⟨some pid, op, some reply⟩ ∧
          op.Grants reply workerId jobId leaseToken ∧
            ∀ process batch, Call.batch? ⟨some pid, op, some reply⟩ = some (.ok batch) →
              id ∉ s.lost → s.processes[pid]? = some process → process.KeepsRunning →
                process.awaiting = some id ∨
                  s.Handled pid process.worker ⟨jobId, leaseToken⟩ := by
  have hinitial : (initial namespaceName).NoneStranded := by
    intro id call pid process batch hcall
    cases hcall
  have hnone := hinitial.run (sound_initial namespaceName) hrun hkept
  refine ⟨hnone, fun workerId jobId leaseToken hcurrent => ?_⟩
  obtain ⟨id, pid, op, reply, hsent, hgrants⟩ := (sound_run hrun).exists_grant hcurrent
  refine ⟨id, pid, op, reply, hsent, hgrants, ?_⟩
  intro process batch hbatch hlost hprocess hruns
  apply (hnone id _ pid process batch hsent rfl hbatch hlost hprocess hruns).imp_right
  intro hhandled
  apply hhandled
  obtain ⟨config, availableCapacity, now, leaseTokens, read, hop, hreply, hparse⟩ :=
    Call.exists_reserve_of_batch? hbatch
  cases hop
  cases hreply
  have hlease : (jobId, leaseToken) ∈ reply.leases := hgrants.2.2
  rw [leases_of_parseReserveResponse hparse, List.mem_map] at hlease
  obtain ⟨lease, hmem, hpair⟩ := hlease
  cases hpair
  exact hmem

/-- The worker starts the handler of the lease that it was granted. -/
theorem leases_reach_handlers_sample :
    ∃ s, (initial "jobs").run sampleAckActions = some s ∧ s.NoneStranded := by
  have hends : ((initial "jobs").run sampleAckActions).isSome := by decide
  obtain ⟨s, hrun⟩ := Option.isSome_iff_exists.mp hends
  exact ⟨s, hrun, (leases_reach_handlers hrun (by decide)).1⟩

/-- A reap tick fires between the execution of a reserve and the delivery of its reply. -/
def sampleDropActions : List Action :=
  sampleReserveActions ++ [.observe 0 (.ofMillis 17) (.poll { reapTick := true })]

/-- The reap tick drops the reserve, and the lease is left in Redis without a handler. -/
theorem reserve_dropped_by_reap_tick :
    ∃ s, (initial "jobs").run sampleDropActions = some s ∧
      s.store.leased.score "job" ≠ none ∧ .spawned 0 ⟨"job", "token"⟩ ∉ s.history ∧
        ¬ s.NoneStranded := by
  have hends : ((initial "jobs").run sampleDropActions).any fun s =>
      s.store.leased.score "job" ≠ none ∧ .spawned 0 ⟨"job", "token"⟩ ∉ s.history ∧
        1 ∉ s.lost ∧
          (∃ call ∈ s.sent[1]?, call.sender = some 0 ∧
            call.batch? = some (.ok ⟨[⟨"job", "token"⟩], none⟩)) ∧
          ∃ process ∈ s.processes[0]?, process.KeepsRunning ∧ process.awaiting = some 2 := by
    decide
  obtain ⟨s, hrun, hfacts⟩ := Option.any_eq_true _ _ |>.mp hends
  obtain ⟨hleased, hspawned, hlost, ⟨call, hcall, hsender, hbatch⟩, process, hprocess, hruns,
    hawaits⟩ := of_decide_eq_true hfacts
  refine ⟨s, hrun, hleased, hspawned, fun hnone => ?_⟩
  rcases hnone 1 call 0 process _ hcall hsender hbatch hlost hprocess hruns with hawaiting | hall
  · rw [hawaits] at hawaiting
    cases hawaiting
  · exact hspawned (hall ⟨"job", "token"⟩ (List.mem_singleton_self _)).spawned

end System

end Redloop
