/-
# Why workers stop

A worker stops when one of its handlers panics, when its client reports an error that it
does not recover from, when the namespace has another retry policy, or when an answer is ok
but holds a number that cannot be read. What others do to its jobs never stops it: the only
error that the scripts answer to its other calls is a lost lease, and it goes on after that.
-/

import Redloop.Data.Failing
import Redloop.Queue.Grants
import Redloop.Queue.Policy
import Redloop.System.Handlers

namespace Redloop

/-! ## Steps of a worker -/

namespace Worker

variable {w w' : Worker} {now : Timestamp} {event : Event} {effects : List Effect}
  {error : Error}

/-- The ways an event can stop a worker. -/
inductive Stops (w : Worker) : Event → Error → Prop
  | panicked {event : Event} {lease : ReservedJob} (hmem : ⟨lease, none⟩ ∈ w.joinSet.finished) :
      Stops w event .workerTaskJoin
  | resumed {error : Error} (hfatal : ¬ error.isRecoverableWorkerRuntime)
      (hlost : w.phase = .reaping ∨ ∀ jobId, error ≠ .leaseMismatch jobId) :
      Stops w (.resume (.error error)) error
  | reserved {ready : Ready} {error : Error} (hfatal : ¬ error.isRecoverableWorkerRuntime)
      (hready : ready.reserved = some (.error error)) : Stops w (.poll ready) error

/-- Recording the end of a handler fails only when it panicked. -/
theorem recordJoinResult_eq_error {pending : PendingCompleted} {task : FinishedTask}
    (hrecord : recordJoinResult pending task = .error error) :
    error = .workerTaskJoin ∧ task.result = none := by
  unfold recordJoinResult at hrecord
  split at hrecord
  · cases hrecord
  · next hresult =>
      cases hrecord
      exact ⟨rfl, hresult⟩

/-- Draining fails only at a handler that panicked. -/
theorem drainJoinedJobs_eq_error {pending : PendingCompleted} {finished : List FinishedTask}
    (hdrain : drainJoinedJobs pending finished = .error error) :
    error = .workerTaskJoin ∧ ∃ task ∈ finished, task.result = none := by
  induction finished generalizing pending with
  | nil => cases hdrain
  | cons task rest ih =>
      rw [drainJoinedJobs, List.foldlM_cons] at hdrain
      cases hrecord : recordJoinResult pending task with
      | error found =>
          rw [hrecord] at hdrain
          cases hdrain
          obtain ⟨herror, hresult⟩ := recordJoinResult_eq_error hrecord
          exact ⟨herror, task, List.mem_cons_self, hresult⟩
      | ok recorded =>
          rw [hrecord] at hdrain
          obtain ⟨herror, other, hother, hresult⟩ := ih hdrain
          exact ⟨herror, other, List.mem_cons_of_mem _ hother, hresult⟩

/-- Resolving, a heartbeat round and the top of the loop do not stop the worker. -/
theorem resolvePendingCompleted_ne_returned (w : Worker) (now : Timestamp)
    (order : List LeaseAttemptKey) :
    (w.resolvePendingCompleted now order).1.phase ≠ .returned error := by
  rcases w.resolvePendingCompleted_cases now order with heq | ⟨_, _, _, _, heq⟩ <;>
    rw [heq] <;> exact Phase.noConfusion

theorem heartbeatActive_ne_returned (w : Worker) (now : Timestamp)
    (order : List LeaseAttemptKey) :
    (w.heartbeatActive now order).1.phase ≠ .returned error := by
  cases order <;> exact Phase.noConfusion

/-- A worker stops in one of the ways. -/
theorem Reacts.stops (hreacts : w.Reacts now event w' effects)
    (hphase : w'.phase = .returned error) : w.Stops event error := by
  cases hreacts with
  | finish hruns => exact absurd hphase (hruns error)
  | drainFailed _ hdrain =>
      obtain ⟨rfl, ⟨lease, result⟩, hmem, hresult⟩ := drainJoinedJobs_eq_error hdrain
      cases hphase
      cases hresult
      exact .panicked hmem
  | turn => exact absurd hphase (resolvePendingCompleted_ne_returned _ _ _)
  | enter => cases hphase
  | join _ _ hfinished =>
      unfold joinNext at hphase
      split at hphase
      · cases hphase
      · next task rest htasks =>
          split at hphase
          · next found hrecord =>
              obtain ⟨lease, result⟩ := task
              obtain ⟨rfl, hresult⟩ := recordJoinResult_eq_error hrecord
              cases hphase
              cases hresult
              exact .panicked (htasks ▸ List.mem_cons_self)
          · cases hphase
  | heartbeatTick => exact absurd hphase (heartbeatActive_ne_returned _ _ _)
  | reapTick => cases hphase
  | runtimeSleep => cases hphase
  | reserve _ _ _ hready =>
      unfold resumeReserve at hphase
      split at hphase
      · dsimp only at hphase
        split_ifs at hphase
        rw [foldl_spawnJob] at hphase
        cases hphase
      · split_ifs at hphase with hrecovers
        cases hphase
        exact .reserved hrecovers hready
  | pollSleep => cases hphase
  | wait hselecting =>
      unfold startSelect at hphase
      split at hphase
      · cases hselecting.symm.trans hphase
      · cases hphase
  | completion =>
      unfold resumeCompletion at hphase
      split at hphase
      · exact absurd hphase (resolvePendingCompleted_ne_returned _ _ _)
      · exact absurd hphase (resolvePendingCompleted_ne_returned _ _ _)
      · next hlost =>
          split_ifs at hphase with hrecovers
          cases hphase
          exact .resumed hrecovers (Or.inr hlost)
  | heartbeat =>
      unfold resumeHeartbeat at hphase
      split at hphase
      · exact absurd hphase (heartbeatActive_ne_returned _ _ _)
      · exact absurd hphase (heartbeatActive_ne_returned _ _ _)
      · next hlost =>
          split_ifs at hphase with hrecovers
          · cases hphase
          · cases hphase
            exact .resumed hrecovers (Or.inr hlost)
  | reap hreaping =>
      unfold resumeReap at hphase
      split at hphase
      · cases hphase
      · split_ifs at hphase with hrecovers
        · cases hphase
        · cases hphase
          exact .resumed hrecovers (Or.inl hreaping)

/-- A finished handler is not joined yet, or has just ended. -/
theorem Reacts.mem_finished (hreacts : w.Reacts now event w' effects) {task : FinishedTask}
    (hmem : task ∈ w'.joinSet.finished) : task ∈ w.joinSet.finished ∨ event = .finish task := by
  cases hreacts.resultChange with
  | kept hkeeps => exact Or.inl (hkeeps.finished ▸ hmem)
  | finish =>
      rcases List.mem_append.mp hmem with hold | hnew
      · exact Or.inl hold
      · rw [List.mem_singleton] at hnew
        exact Or.inr (by rw [hnew])
  | turn =>
      unfold Worker.turn at hmem
      rcases Worker.resolvePendingCompleted_cases _ now _ with heq | ⟨_, _, _, _, heq⟩
      · rw [heq] at hmem
        cases hmem
      · rw [heq] at hmem
        cases hmem
  | join _ hfinished => exact Or.inl (hfinished ▸ List.mem_cons_of_mem _ hmem)
  | @completion completed rest reply =>
      left
      unfold resumeCompletion at hmem
      have hresolved (order : List LeaseAttemptKey)
          (hin : task ∈ ({ w with
            active := Finmap.erase completed.attemptKey w.active }.resolvePendingCompleted now
              order).1.joinSet.finished) : task ∈ w.joinSet.finished := by
        rcases Worker.resolvePendingCompleted_cases _ now order with heq | ⟨_, _, _, _, heq⟩
        · rw [heq] at hin
          exact hin
        · rw [heq] at hin
          exact hin
      split at hmem
      · exact hresolved _ hmem
      · exact hresolved _ hmem
      · split_ifs at hmem <;> exact hmem

end Worker

/-! ## Answers of the scripts -/

namespace Store

variable {s : Store} {jobs : Bytes → Job}

/-- A heartbeat or completion is refused because its lease is lost. -/
theorem reply_of_carries (hrefines : Refines s jobs) {op : Op}
    {workerId jobId leaseToken : Bytes} (hcarries : op.Carries workerId jobId leaseToken)
    (hok : ¬ (s.reply op).isOk) : s.reply op = Reply.leaseMismatch := by
  rw [hcarries.isOk_iff hrefines] at hok
  rw [reply, hcarries.exec_eq_of_not_leasedTo hrefines hok]

/-- A reserve is refused because the namespace has another retry policy. -/
theorem reply_reserve_of_not_isOk (hrefines : Refines s jobs) {config : WorkerConfig}
    {availableCapacity : ℕ} {now : Timestamp} {leaseTokens : List Bytes}
    (hok : ¬ (s.reply (.reserve config availableCapacity now leaseTokens)).isOk) :
    s.reply (.reserve config availableCapacity now leaseTokens) = Reply.policyMismatch := by
  by_cases hcapacity : availableCapacity = 0
  · subst hcapacity
    exact absurd (Reply.isOk_ok _) hok
  · have hreply : s.reply (.reserve config availableCapacity now leaseTokens) =
        (s.reserve (reserveArgs config availableCapacity now leaseTokens)).2 := by
      rw [reply, exec, if_neg hcapacity]
    rw [hreply, reply_reserve hrefines] at hok ⊢
    split_ifs at hok ⊢
    · rfl
    · exact absurd (Reply.isOk_ok _) hok

/-- A reap is never refused. -/
theorem isOk_reply_reapExpired (s : Store) (now : Timestamp) (limit : ℕ) :
    (s.reply (.reapExpired now limit)).isOk := by
  by_cases hlimit : limit = 0
  · subst hlimit
    exact Reply.isOk_ok _
  · rw [reply, exec, if_neg hlimit]
    exact Reply.isOk_ok _

end Store

/-! ## Answers that cannot be read -/

/-- A reply that is ok could not be read. -/
def Error.IsDecoding : Error → Prop
  | invalidData _ | invalidTimestamp _ => True
  | _ => False

theorem decodes_parseI64 (field : String) (value : Bytes) :
    FailsWithin Error.IsDecoding (parseI64 field value) := by
  unfold parseI64
  split
  · split_ifs
    · exact failsWithin_ok _
    · exact failsWithin_error trivial
  · exact failsWithin_error trivial

theorem decodes_fromMicros (value : ℤ) : FailsWithin Error.IsDecoding (fromMicros value) := by
  unfold fromMicros
  split_ifs
  · exact failsWithin_ok _
  · exact failsWithin_error trivial

theorem decodes_parseCount (max : ℕ) (field : String) (value : Option Bytes) :
    FailsWithin Error.IsDecoding (parseCount max field value) := by
  unfold parseCount
  split
  · exact failsWithin_ok _
  · exact failsWithin_error trivial

theorem decodes_parseState (value : Bytes) : FailsWithin Error.IsDecoding (parseState value) := by
  unfold parseState
  split
  · exact failsWithin_ok _
  · exact failsWithin_error trivial

theorem decodes_parseReservedJobs (texts : List Bytes) :
    FailsWithin Error.IsDecoding (parseReservedJobs texts) := by
  induction texts using parseReservedJobs.induct with
  | case1 => exact failsWithin_ok _
  | case2 jobId leaseToken leasedUntil rest ih =>
      rw [parseReservedJobs]
      exact (decodes_parseI64 _ _).bind fun _ => ih.bind fun _ => failsWithin_ok _
  | case3 texts hnil htriple =>
      simp only [parseReservedJobs]
      exact failsWithin_error trivial

theorem decodes_parseNextSchedule (value : Option Bytes) :
    FailsWithin Error.IsDecoding (parseNextSchedule value) := by
  unfold parseNextSchedule
  split
  · exact failsWithin_ok _
  · split_ifs
    · exact failsWithin_ok _
    · exact (decodes_parseI64 _ _).bind fun _ =>
        (decodes_fromMicros _).bind fun _ => failsWithin_ok _

/-- A reserve that is answered ok is read, or its answer cannot be decoded. -/
theorem decodes_parseReserveResponse {reply : Reply} (hok : reply.isOk) (workerId : Bytes) :
    FailsWithin Error.IsDecoding (parseReserveResponse workerId reply) := by
  unfold parseReserveResponse
  rw [if_neg (not_not.mpr hok)]
  exact (decodes_parseNextSchedule _).bind fun _ =>
    (decodes_parseReservedJobs _).bind fun _ => failsWithin_ok _

/-- A failure request that is answered ok is read, or its answer cannot be decoded. -/
theorem decodes_parseFailureResponse {reply : Reply} (hok : reply.isOk) (jobId : Bytes) :
    FailsWithin Error.IsDecoding (parseFailureResponse jobId reply) := by
  unfold parseFailureResponse
  rw [if_neg (not_not.mpr hok)]
  refine (decodes_parseCount _ _ _).bind fun failures => ?_
  cases reply[2]? with
  | none => exact failsWithin_error trivial
  | some value =>
      refine ((decodes_parseState value).map _).bind fun _ => ?_
      split
      · exact failsWithin_ok _
      · split_ifs
        · exact failsWithin_ok _
        · exact (decodes_parseI64 _ _).bind fun _ =>
            (decodes_fromMicros _).bind fun _ => failsWithin_ok _

/-! ## Causes -/

/-- What the worker's client reads from the reply to a call is an error. -/
def Call.ReadsError (call : Call) (namespaceName : Bytes) (error : Error) : Prop :=
  call.batch? = some (.error error) ∨ call.result? namespaceName = some (.error error)

/-- The calls whose result a worker reads are those that carry a lease, and reaps. -/
theorem Call.carries_or_reaps {sender : Option ℕ} {op : Op} {reply : Option Reply}
    {namespaceName : Bytes} {result : Except Error Unit}
    (hresult : Call.result? ⟨sender, op, reply⟩ namespaceName = some result) :
    (∃ workerId jobId leaseToken, op.Carries workerId jobId leaseToken) ∨
      ∃ now limit, op = .reapExpired now limit := by
  cases op with
  | heartbeat workerId jobId leaseToken => exact Or.inl ⟨workerId, jobId, leaseToken, rfl, rfl, rfl⟩
  | ack workerId jobId leaseToken => exact Or.inl ⟨workerId, jobId, leaseToken, rfl, rfl, rfl⟩
  | completeAndReschedule workerId jobId leaseToken =>
      exact Or.inl ⟨workerId, jobId, leaseToken, rfl, rfl, rfl⟩
  | failOrRetry request =>
      exact Or.inl ⟨request.workerId, request.jobId, request.leaseToken, rfl, rfl, rfl⟩
  | reapExpired now limit => exact Or.inr ⟨now, limit, rfl⟩
  | _ => cases reply <;> cases hresult

/-- What is read of an answer that is ok fails only in decoding it. -/
theorem Call.ReadsError.isDecoding {sender : Option ℕ} {op : Op} {reply : Reply}
    {namespaceName : Bytes} {error : Error}
    (hread : Call.ReadsError ⟨sender, op, some reply⟩ namespaceName error) (hok : reply.isOk) :
    error.IsDecoding := by
  have hlease (jobId : Bytes) : parseLeaseResponse jobId reply = .ok () := if_pos hok
  rcases hread with hbatch | hresult
  · cases op with
    | reserve config availableCapacity now leaseTokens =>
        exact decodes_parseReserveResponse hok _ error (Option.some.inj hbatch)
    | _ => cases hbatch
  · cases op with
    | heartbeat _ jobId => cases (hlease jobId).symm.trans (Option.some.inj hresult)
    | ack _ jobId => cases (hlease jobId).symm.trans (Option.some.inj hresult)
    | completeAndReschedule _ jobId => cases (hlease jobId).symm.trans (Option.some.inj hresult)
    | failOrRetry request =>
        exact (decodes_parseFailureResponse hok request.jobId).map _ error
          (Option.some.inj hresult)
    | reapExpired now limit =>
        have hcount : FailsWithin Error.IsDecoding (parseReapResponse namespaceName reply) := by
          rw [parseReapResponse, if_neg (not_not.mpr hok)]
          exact decodes_parseCount _ _ _
        exact hcount.map _ error (Option.some.inj hresult)
    | _ => cases hresult

namespace System

variable {s s' : System} {action : Action} {pid : ℕ} {process : Process} {error : Error}

/-- The reasons for which a worker stops: a handler panicked, the client failed in a way it
does not recover from, a reserve was refused for its retry policy, or an answer is ok and
cannot be read. -/
inductive StopCause (s : System) (pid : ℕ) : Error → Prop
  | panicked {lease : ReservedJob} (hfinished : .finished pid ⟨lease, none⟩ ∈ s.history) :
      StopCause s pid .workerTaskJoin
  | failed {error : Error} (htransport : error.IsTransport)
      (hfatal : ¬ error.isRecoverableWorkerRuntime) : StopCause s pid error
  | refused {id : ℕ} {config : WorkerConfig} {availableCapacity : ℕ} {now : Timestamp}
      {leaseTokens : List Bytes}
      (hexecuted : .executed id (some pid) (.reserve config availableCapacity now leaseTokens)
        Reply.policyMismatch ∈ s.history) :
      StopCause s pid (.invalidConfig .retryPolicyMismatch)
  | unreadable {id : ℕ} {op : Op} {reply : Reply} {error : Error}
      (hexecuted : .executed id (some pid) op reply ∈ s.history) (hok : reply.isOk)
      (hread : Call.ReadsError ⟨some pid, op, some reply⟩ s.namespaceName error) :
      StopCause s pid error

theorem Steps.namespaceName_eq (hsteps : s.Steps action s') :
    s'.namespaceName = s.namespaceName := by
  cases hsteps <;> rfl

/-- A cause stays one. -/
theorem StopCause.extends (hcause : s.StopCause pid error) (hextends : s.Extends s')
    (hname : s'.namespaceName = s.namespaceName) : s'.StopCause pid error := by
  cases hcause with
  | panicked hfinished => exact .panicked (hextends.history _ hfinished)
  | failed htransport hfatal => exact .failed htransport hfatal
  | refused hexecuted => exact .refused (hextends.history _ hexecuted)
  | unreadable hexecuted hok hread =>
      exact .unreadable (hextends.history _ hexecuted) hok (hname ▸ hread)

/-- What a process knows about its stop, and the handlers it has not joined. -/
structure StopsSoundly (s : System) (pid : ℕ) (process : Process) : Prop where
  finished : ∀ task ∈ process.worker.joinSet.finished, .finished pid task ∈ s.history
  stopped : ∀ error, process.worker.phase = .returned error → s.StopCause pid error

theorem StopsSoundly.extends (hstops : s.StopsSoundly pid process) (hextends : s.Extends s')
    (hname : s'.namespaceName = s.namespaceName) : s'.StopsSoundly pid process :=
  ⟨fun task hmem => hextends.history _ (hstops.finished task hmem),
    fun error hphase => (hstops.stopped error hphase).extends hextends hname⟩

section Observe

variable {moment : Moment} {event : Event} {worker : Worker} {effects : List Effect}

/-- An executed call was answered by a store that the job machine accounts for. -/
theorem Sound.exists_refines (hsound : s.Sound) {id : ℕ} {sender : Option ℕ} {op : Op}
    {reply : Reply} (hcall : s.sent[id]? = some ⟨sender, op, some reply⟩) :
    .executed id sender op reply ∈ s.history ∧
      ∃ (store : Store) (jobs : Bytes → Job), Refines store jobs ∧ reply = store.reply op := by
  have hexecuted := (hsound.recorded.executed_iff _ _ _ _).mpr hcall
  obtain ⟨before, _, _, hanswered⟩ := hsound.recorded.answered.of_mem hexecuted
  obtain ⟨jobs, hrefines⟩ := Store.exists_refines_run (executedOps before)
  exact ⟨hexecuted, _, jobs, hrefines, hanswered⟩

/-- An error that a reserve reports stops the worker for a cause. -/
theorem Sound.stopCause_of_batch? (hsound : s.Sound) {id : ℕ} {call : Call}
    (hcall : s.sent[id]? = some call) (hsender : call.sender = some pid)
    (hbatch : call.batch? = some (.error error)) : s.StopCause pid error := by
  have hread : Call.ReadsError call s.namespaceName error := Or.inl hbatch
  unfold Call.batch? at hbatch
  split at hbatch
  · next config availableCapacity now leaseTokens reply hop hreply =>
      obtain ⟨sender, op, callReply⟩ := call
      cases hop
      cases hreply
      cases hsender
      obtain ⟨hexecuted, store, jobs, hrefines, hanswered⟩ := hsound.exists_refines hcall
      by_cases hok : reply.isOk
      · exact .unreadable hexecuted hok hread
      · rw [hanswered] at hok
        rw [hanswered, Store.reply_reserve_of_not_isOk hrefines hok] at hexecuted hbatch
        cases Option.some.inj hbatch
        exact .refused hexecuted
  · cases hbatch

/-- A heartbeat or completion that is refused reports a lost lease. -/
theorem Sound.reply_of_carries (hsound : s.Sound) {id : ℕ} {sender : Option ℕ} {op : Op}
    {reply : Reply} {workerId jobId leaseToken : Bytes}
    (hcall : s.sent[id]? = some ⟨sender, op, some reply⟩)
    (hcarries : op.Carries workerId jobId leaseToken) (hok : ¬ reply.isOk) :
    reply = Reply.leaseMismatch := by
  obtain ⟨_, store, jobs, hrefines, rfl⟩ := hsound.exists_refines hcall
  exact Store.reply_of_carries hrefines hcarries hok

/-- An error that another call reports is a lost lease, or stops the worker for a cause. -/
theorem Sound.stopCause_of_result? (hsound : s.Sound) {id : ℕ} {call : Call}
    (hcall : s.sent[id]? = some call) (hsender : call.sender = some pid)
    (hresult : call.result? s.namespaceName = some (.error error)) :
    s.StopCause pid error ∨
      (∃ jobId, error = .leaseMismatch jobId) ∧ ∀ now limit, call.op ≠ .reapExpired now limit := by
  have hread : Call.ReadsError call s.namespaceName error := Or.inr hresult
  obtain ⟨sender, op, callReply⟩ := call
  cases hsender
  cases callReply with
  | none => cases op <;> cases hresult
  | some reply =>
      by_cases hok : reply.isOk
      · exact Or.inl (.unreadable (hsound.exists_refines hcall).1 hok hread)
      · rcases Call.carries_or_reaps hresult with ⟨workerId, jobId, leaseToken, hcarries⟩ |
          ⟨now, limit, rfl⟩
        · obtain rfl := hsound.reply_of_carries hcall hcarries hok
          right
          cases op with
          | heartbeat | ack | completeAndReschedule | failOrRetry =>
              cases hresult
              exact ⟨⟨_, rfl⟩, fun _ _ hop => by cases hop⟩
          | _ => exact hcarries.elim
        · obtain ⟨_, store, _, _, rfl⟩ := hsound.exists_refines hcall
          exact absurd (Store.isOk_reply_reapExpired store now limit) hok

/-- An event stops a worker for a cause. -/
theorem StopsSoundly.stopCause (hstops : s.StopsSoundly pid process) (hsound : s.Sound)
    (hprocess : s.processes[pid]? = some process) (hdelivers : s.Delivers process event)
    (hstopped : process.worker.Stops event error) : s.StopCause pid error := by
  have hawaits := (hsound.processes pid process hprocess).awaits
  cases hstopped with
  | panicked hmem => exact .panicked (hstops.finished _ hmem)
  | reserved hfatal hready =>
      unfold Delivers at hdelivers
      dsimp only at hdelivers
      rw [hready] at hdelivers
      cases hid : process.awaiting with
      | none =>
          rw [hid] at hdelivers
          exact hdelivers.elim
      | some id =>
          rw [hid] at hdelivers
          rcases hdelivers with hread | htransport
          · obtain ⟨call, harriving, hbatch⟩ := Option.bind_eq_some_iff.mp hread
            unfold arriving at harriving
            split_ifs at harriving
            obtain ⟨awaited, hawaited, hsender, _⟩ := hawaits id hid
            rw [harriving] at hawaited
            cases hawaited
            exact hsound.stopCause_of_batch? harriving hsender hbatch
          · exact .failed htransport hfatal
  | resumed hfatal hlost =>
      unfold Delivers at hdelivers
      dsimp only at hdelivers
      cases hid : process.awaiting with
      | none =>
          rw [hid] at hdelivers
          exact hdelivers.elim
      | some id =>
          rw [hid] at hdelivers
          rcases hdelivers with hread | htransport
          · obtain ⟨call, harriving, hresult⟩ := Option.bind_eq_some_iff.mp hread
            unfold arriving at harriving
            split_ifs at harriving
            obtain ⟨awaited, hawaited, hsender, hwaits⟩ := hawaits id hid
            rw [harriving] at hawaited
            cases hawaited
            rcases hsound.stopCause_of_result? harriving hsender hresult with hcause |
              ⟨⟨jobId, rfl⟩, hreap⟩
            · exact hcause
            · -- a lost lease is no answer to a reap, and the worker goes on after it elsewhere
              rcases hlost with hreaping | hother
              · unfold Worker.Awaits at hwaits
                rw [hreaping] at hwaits
                obtain ⟨now, hop⟩ := hwaits
                exact absurd hop (hreap now _)
              · exact absurd rfl (hother jobId)
          · exact .failed htransport hfatal

/-- After an event the process knows why it has stopped, if it has. -/
theorem StopsSoundly.observed (hstops : s.StopsSoundly pid process) (hsound : s.Sound)
    (hprocess : s.processes[pid]? = some process) (hdelivers : s.Delivers process event)
    (hextends : s.Extends (s.observed pid process event worker effects))
    (hreacts : { process.worker with instant := moment.instant }.Reacts moment.now event worker
      effects) (awaiting : Option ℕ) (alive : Bool) :
    (s.observed pid process event worker effects).StopsSoundly pid ⟨worker, awaiting, alive⟩ := by
  refine ⟨fun task hmem => ?_, fun error hphase => ?_⟩
  · rcases hreacts.mem_finished hmem with hold | rfl
    · exact hextends.history _ (hstops.finished task hold)
    · exact List.mem_append_right _ mem_entriesOf_finish
  · have hstopped : process.worker.Stops event error := by
      cases hreacts.stops hphase with
      | panicked hmem => exact .panicked hmem
      | resumed hfatal hlost => exact .resumed hfatal hlost
      | reserved hfatal hready => exact .reserved hfatal hready
    exact (hstops.stopCause hsound hprocess hdelivers hstopped).extends hextends rfl

end Observe

/-- Every process of the system knows why it has stopped, if it has. -/
def AllStopSoundly (s : System) : Prop :=
  ∀ pid process, s.processes[pid]? = some process → s.StopsSoundly pid process

theorem AllStopSoundly.step (hall : s.AllStopSoundly) (hsound : s.Sound)
    (hsteps : s.Steps action s') : s'.AllStopSoundly := by
  have hextends := hsteps.extends
  have hkept (pid : ℕ) (process : Process) (hprocess : s.processes[pid]? = some process) :
      s'.StopsSoundly pid process :=
    (hall pid process hprocess).extends hextends hsteps.namespaceName_eq
  intro pid process hprocess
  cases hsteps with
  | start hstart =>
      rcases getElem?_concat_cases hprocess with hold | ⟨rfl, rfl⟩
      · exact hkept pid process hold
      · obtain ⟨_, _, hstart⟩ := bind_eq_ok_iff.mp hstart
        cases hstart
        refine ⟨fun _ hmem => ?_, fun _ hphase => ?_⟩
        · cases hmem
        · cases hphase
  | @crash crashed old hcrashed =>
      rcases getElem?_set_cases hprocess with ⟨rfl, rfl⟩ | hold
      · have hbefore := hkept crashed old hcrashed
        exact ⟨hbefore.finished, hbefore.stopped⟩
      · exact hkept pid process hold
  | @observe observer observing moment event worker effects hobserving _ hstep hdelivers _ =>
      rcases getElem?_set_cases hprocess with ⟨rfl, rfl⟩ | hold
      · exact (hall observer observing hobserving).observed hsound hobserving hdelivers hextends
          (Worker.step_eq_some hstep).2 _ _
      · exact hkept pid process hold
  | _ => exact hkept pid process hprocess

/-- A worker never stops with an error about a job. -/
theorem StopCause.not_about_job (hcause : s.StopCause pid error) (jobId : Bytes) :
    error ≠ .leaseMismatch jobId ∧ error ≠ .notFound jobId ∧
      ∀ state, error ≠ .invalidState jobId state := by
  have hother (hclass : error.IsTransport ∨ error.IsDecoding) :
      error ≠ .leaseMismatch jobId ∧ error ≠ .notFound jobId ∧
        ∀ state, error ≠ .invalidState jobId state := by
    refine ⟨?_, ?_, fun state => ?_⟩
    · rintro rfl
      exact hclass.elim id id
    · rintro rfl
      exact hclass.elim id id
    · rintro rfl
      exact hclass.elim id id
  cases hcause with
  | panicked => simp
  | failed htransport => exact hother (Or.inl htransport)
  | refused => simp
  | unreadable _ hok hread => exact hother (Or.inr (hread.isDecoding hok))

/-- In every run of the system a worker that has stopped with an error has done so because a
handler of it panicked, because its client failed in a way it does not recover from, because
a reserve of it was refused for its retry policy, or because an answer that is ok could not
be decoded. It never stops with an error about a job. -/
theorem worker_stops_for_cause {namespaceName : Bytes} {actions : List Action}
    (hrun : (initial namespaceName).run actions = some s)
    (hprocess : s.processes[pid]? = some process)
    (hphase : process.worker.phase = .returned error) :
    s.StopCause pid error ∧ ∀ jobId, error ≠ .leaseMismatch jobId ∧
      error ≠ .notFound jobId ∧ ∀ state, error ≠ .invalidState jobId state := by
  suffices hboth : s.Sound ∧ s.AllStopSoundly by
    have hcause := (hboth.2 pid process hprocess).stopped error hphase
    exact ⟨hcause, hcause.not_about_job⟩
  apply runTrace_invariant (motive := fun s => s.Sound ∧ s.AllStopSoundly) _ _ hrun
  · exact ⟨sound_initial namespaceName, by simp [AllStopSoundly, initial]⟩
  · rintro middle action next ⟨hsound, hall⟩ hstep
    have hsteps := step_eq_some hstep
    exact ⟨hsound.step hsteps, hall.step hsound hsteps⟩

/-- The handler of the sample worker panics. -/
def samplePanicActions : List Action :=
  sampleReserveActions ++
    [.observe 0 (.ofMillis 18) (.poll { reserved := some (.ok ⟨[⟨"job", "token"⟩], none⟩) }),
      .observe 0 (.ofMillis 19) (.finish ⟨⟨"job", "token"⟩, none⟩),
      .observe 0 (.ofMillis 20) (.turn [])]

/-- The worker stops because its handler has panicked. -/
theorem worker_stops_for_cause_sample :
    ∃ s process, (initial "jobs").run samplePanicActions = some s ∧
      s.processes[0]? = some process ∧ process.worker.phase = .returned .workerTaskJoin ∧
        s.StopCause 0 .workerTaskJoin := by
  have hends : ((initial "jobs").run samplePanicActions).any fun s =>
      ∃ process ∈ s.processes[0]?, process.worker.phase = .returned .workerTaskJoin := by decide
  obtain ⟨s, hrun, hfacts⟩ := Option.any_eq_true _ _ |>.mp hends
  obtain ⟨process, hprocess, hphase⟩ := of_decide_eq_true hfacts
  exact ⟨s, process, hrun, hprocess, hphase, (worker_stops_for_cause hrun hprocess hphase).1⟩

end System

end Redloop
