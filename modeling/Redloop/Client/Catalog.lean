/-
# The catalog of namespaces

The catalog lists the namespaces under a key prefix. It is kept beside them: a client
enters its namespace by a command of its own, after the one that used the namespace, and
drops a failure of it. The catalog names no namespace that was not used, and everything
that is stored about a job stems from an enqueue of a client, which checked the id. A
namespace with a job can be missing from the catalog, but only while the client that
enqueued the job goes on, or when one of its two commands has failed.
-/

import Mathlib.Data.Finset.Sort
import Redloop.Client.Batches
import Redloop.Queue.Conservation

namespace Redloop

/-! ## The catalog -/

namespace Keyspace

variable {keyspace : Keyspace}

/-- The catalog under a key prefix. -/
def catalog (keyspace : Keyspace) (keyPrefix : Bytes) : Finset Bytes :=
  Value.toMembers (keyspace (namespacesKey keyPrefix))

/-- List the namespaces of the catalog. -/
def listNamespaces (keyspace : Keyspace) (keyPrefix : Bytes) : List Bytes :=
  (keyspace.catalog keyPrefix).sort

/-- Each key prefix has a catalog of its own. -/
theorem namespacesKey_injective : Function.Injective namespacesKey := by
  intro first second heq
  unfold namespacesKey at heq
  have hlength (keyPrefix : Bytes) : (keyPrefix ++ utf8 ":namespaces").length =
      keyPrefix.length + 11 := by
    rw [List.length_append]
    rfl
  have hbare : (utf8 "namespaces").length = 10 := rfl
  split_ifs at heq with hfirst hsecond hsecond
  · rw [hfirst, hsecond]
  · have hlengths := congrArg List.length heq
    rw [hlength, hbare] at hlengths
    omega
  · have hlengths := congrArg List.length heq
    rw [hlength, hbare] at hlengths
    omega
  · exact List.append_cancel_right heq

/-- A command adds the namespace that it enters to the catalog, and nothing else. -/
theorem mem_catalog_next {keyPrefix name : Bytes} {command : Command} :
    name ∈ (keyspace.next command).catalog keyPrefix ↔
      name ∈ keyspace.catalog keyPrefix ∨ command = .rememberNamespace keyPrefix name := by
  cases command with
  | exec commandPrefix commandName op =>
      have hframe : (keyspace.next (.exec commandPrefix commandName op)).catalog keyPrefix =
          keyspace.catalog keyPrefix :=
        congrArg Value.toMembers
          (writeStore_of_ne (fun _ => key_namespaceKeys_ne_namespacesKey _ _ _ _) _)
      simp [hframe]
  | rememberNamespace commandPrefix commandName =>
      unfold catalog next rememberNamespace
      dsimp only
      split_ifs with hkey
      · obtain rfl := namespacesKey_injective hkey
        simp [Value.toMembers, or_comm, eq_comm]
      · have hne : commandPrefix ≠ keyPrefix := by
          rintro rfl
          exact hkey rfl
        simp [hne]

/-- What the catalog holds after a run. -/
theorem mem_catalog_run {keyPrefix name : Bytes} (commands : List Command) :
    name ∈ (keyspace.run commands).catalog keyPrefix ↔
      name ∈ keyspace.catalog keyPrefix ∨ .rememberNamespace keyPrefix name ∈ commands := by
  induction commands generalizing keyspace with
  | nil => simp [run]
  | cons command rest ih =>
      rw [run, List.foldl_cons]
      refine ih.trans ?_
      rw [mem_catalog_next, List.mem_cons, or_assoc, eq_comm (a := command)]

/-- What is served changes the keyspace as its command does. -/
theorem serve_fst (command : Command) : (keyspace.serve command).1 = keyspace.next command := by
  cases command <;> rfl

end Keyspace

/-! ## Where jobs come from -/

namespace Store

/-- Whatever is stored about a job after a run stems from an accepted enqueue of the job. -/
theorem exists_enqueue_of_slot {ops : List Op} {jobId : Bytes}
    (hslot : (Store.empty.run ops).slot jobId ≠ {}) :
    ∃ before request now after, ops = before ++ .enqueue request now :: after ∧
      request.jobId = jobId ∧
        ((Store.empty.run before).reply (.enqueue request now)).isOk = true := by
  induction ops using List.reverseRecOn with
  | nil => exact absurd rfl hslot
  | append_singleton ops op ih =>
      obtain ⟨jobs, hrefines⟩ := Refines.empty.exists_run ops
      by_cases hbefore : (Store.empty.run ops).slot jobId = {}
      · -- the last operation has changed an absent job
        obtain ⟨jobs', hrefines', hstep⟩ := exec_refines hrefines op
        have habsent : jobs jobId = Job.absent :=
          Job.toSlot_injective ((hrefines.slot_eq jobId).symm.trans hbefore)
        have hchanged : jobs' jobId ≠ Job.absent := by
          intro hsame
          apply hslot
          have hnext := hrefines'.slot_eq jobId
          rw [hsame] at hnext
          rw [Store.run_append]
          exact hnext
        cases (hstep jobId).change with
        | kept hkept => exact absurd (hkept.trans habsent) hchanged
        | transition htarget houtcome hok =>
            rcases Op.isPlaced_or_enqueue_of_outcome houtcome with hplaced | ⟨request, now, rfl⟩
            · exact absurd (congrArg Job.placement habsent) hplaced
            · exact ⟨ops, request, now, [], rfl, Option.some.inj htarget, hok⟩
        | leased hwaiting | lost hwaiting =>
            exact absurd (congrArg Job.placement habsent) hwaiting.isPlaced
        | reaped hreap =>
            obtain ⟨_, _, _, _, hplacement, _⟩ := Job.reap_eq_some_iff.mp hreap
            rw [habsent] at hplacement
            cases hplacement
        | purged _ hpurged =>
            rw [habsent] at hpurged
            exact absurd hpurged hchanged
      · obtain ⟨before, request, now, after, rfl, hjob, hok⟩ := ih hbefore
        exact ⟨before, request, now, after ++ [op], by simp, hjob, hok⟩

end Store

/-! ## What clients ask for -/

/-- The operations after which a client enters the namespace into the catalog. -/
def Op.IsRemembered : Op → Prop
  | .enqueue _ _ | .reschedule _ _ _ | .reserve _ _ _ _ => True
  | _ => False

/-- The requests for enqueues that a method is called with. -/
def Method.requests : Method → List EnqueueRequest
  | .execute item => [item.request]
  | .enqueueBatch items => items.map BatchEnqueueItem.request
  | _ => []

namespace Invocation

open Keyspace Program

variable {handle : Namespace} {invocation : Invocation} {op : Op} {α : Type}
  {requests : List EnqueueRequest} {exchanges : List (Command × Except Error Reply)}

/-- What a call asks for: an operation in its namespace, where an enqueue is a request of the
call with a valid job id, or an entry of the namespace after an operation that has used it. -/
def Asks (handle : Namespace) (requests : List EnqueueRequest)
    (exchanges : List (Command × Except Error Reply)) (command : Command) : Prop :=
  (∃ op, command = handle.command op ∧ ∀ request now, op = .enqueue request now →
      request ∈ requests ∧ request.jobId.length ≤ 256) ∨
    command = handle.rememberCommand ∧ ∃ op reply,
      (handle.command op, .ok reply) ∈ exchanges ∧ op.IsRemembered ∧ reply.isOk = true

/-- Once an enqueue was answered with a result, the namespace is entered. -/
def Settled (handle : Namespace) (exchanges : List (Command × Except Error Reply)) : Prop :=
  ∀ request now reply result, (handle.command (.enqueue request now), .ok reply) ∈ exchanges →
    parseEnqueueResponse request.jobId reply = .ok result →
      ∃ response, (handle.rememberCommand, response) ∈ exchanges

/-- An exchange settles nothing new unless it is an enqueue that was answered with a result. -/
theorem Settled.concat (hsettled : Settled handle exchanges) {command : Command}
    {response : Except Error Reply}
    (hnone : ∀ request now reply, command = handle.command (.enqueue request now) →
      response = .ok reply → ∃ error, parseEnqueueResponse request.jobId reply = .error error) :
    Settled handle (exchanges ++ [(command, response)]) := by
  intro request now reply result hmem hread
  rcases List.mem_append.mp hmem with hmem | hmem
  · obtain ⟨entry, hentry⟩ := hsettled request now reply result hmem hread
    exact ⟨entry, List.mem_append_left _ hentry⟩
  · simp only [List.mem_singleton, Prod.mk.injEq] at hmem
    obtain ⟨error, herror⟩ := hnone request now reply hmem.1.symm hmem.2.symm
    rw [herror] at hread
    cases hread

/-- An entry settles everything. -/
theorem settled_remember (response : Except Error Reply) :
    Settled handle (exchanges ++ [(handle.rememberCommand, response)]) := by
  intro _ _ _ _ _ _
  exact ⟨response, by simp⟩

/-- Another operation is asked for and settles nothing. -/
theorem keeps_exec {op : Timestamp → Op}
    (hother : ∀ time request now, op time ≠ .enqueue request now) :
    Keeps (Asks handle requests) (Settled handle) (handle.exec op) := by
  intro exchanges hsettled now
  refine ⟨Or.inl ⟨_, rfl, fun request sent heq => absurd heq (hother now request sent)⟩, ?_⟩
  intro response
  apply hsettled.concat
  intro request sent _ hcommand _
  simp only [Namespace.command, Command.exec.injEq, true_and] at hcommand
  exact absurd hcommand (hother now request sent)

theorem keeps_enqueueRequest {request : EnqueueRequest} (hmem : request ∈ requests) :
    Keeps (Asks handle requests) (Settled handle) (handle.enqueueRequest request) := by
  intro exchanges hsettled
  apply Namespace.meets_enqueueRequest
  · exact fun _ => hsettled
  · intro hvalid now
    refine Or.inl ⟨_, rfl, ?_⟩
    rintro _ _ ⟨⟩
    exact ⟨hmem, hvalid⟩
  · intro now error
    exact hsettled.concat (by simp)
  · intro now reply error hread
    apply hsettled.concat
    intro sent time other hcommand hresponse
    simp only [Namespace.command, Command.exec.injEq, Op.enqueue.injEq, true_and] at hcommand
    cases hresponse
    exact ⟨error, hcommand.1 ▸ hread⟩
  · intro now reply result hread answered
    have hok : reply.isOk = true := by
      by_contra hrefused
      simp [parseEnqueueResponse, hrefused] at hread
    refine ⟨Or.inr ⟨rfl, _, reply, List.mem_append_right _ (List.mem_singleton_self _), trivial,
      hok⟩, settled_remember⟩

theorem keeps_enqueueBatch (items : List BatchEnqueueItem)
    (hsubset : ∀ item ∈ items, item.request ∈ requests) :
    Keeps (Asks handle requests) (Settled handle) (handle.enqueueBatch items) := by
  induction items with
  | nil => exact keeps_pure []
  | cons item rest ih =>
      apply keeps_bind (keeps_enqueueRequest (hsubset item List.mem_cons_self))
      intro result
      apply keeps_bind (ih fun other hmem => hsubset other (List.mem_cons_of_mem _ hmem))
      exact fun results => keeps_pure (result :: results)

/-- An operation with an answer that is only read. -/
theorem keeps_exec_read {op : Timestamp → Op} {read : Reply → Except Error α}
    (hother : ∀ time request now, op time ≠ .enqueue request now) :
    Keeps (Asks handle requests) (Settled handle) (do
      let response ← handle.exec op
      Program.ofExcept (read response)) :=
  keeps_bind (keeps_exec hother) fun response => keeps_ofExcept (read response)

/-- An operation that uses the namespace, with an answer that is read before the entry. -/
theorem keeps_exec_remember {op : Timestamp → Op} {read : Reply → Except Error α}
    (hother : ∀ time request now, op time ≠ .enqueue request now)
    (huses : ∀ time, (op time).IsRemembered)
    (hread : ∀ reply result, read reply = .ok result → reply.isOk = true) :
    Keeps (Asks handle requests) (Settled handle) (do
      let response ← handle.exec op
      let result ← Program.ofExcept (read response)
      handle.rememberNamespace
      pure result) := by
  intro exchanges hsettled
  simp only [meets_run_bind, meets_ofExcept, Namespace.meets_exec,
    Namespace.meets_rememberNamespace, meets_run_pure]
  intro now
  have hkeeps : Keeps (Asks handle requests) (Settled handle) (handle.exec op) := keeps_exec hother
  obtain ⟨hasks, hkept⟩ := hkeeps exchanges hsettled now
  refine ⟨hasks, ?_⟩
  intro response
  refine ⟨?_, fun _ _ => hkept response⟩
  rintro reply rfl
  refine ⟨?_, fun _ _ => hkept (.ok reply)⟩
  intro result hresult _
  constructor
  · refine Or.inr ⟨rfl, op now, reply, ?_, huses now, hread reply result hresult⟩
    simp
  · intro entry
    exact ⟨fun _ _ => settled_remember entry, fun _ _ => settled_remember entry⟩

theorem keeps_operatorTransition (kind : OperatorOp) (jobId : Bytes) :
    Keeps (Asks handle requests) (Settled handle) (handle.operatorTransition kind jobId) :=
  keeps_bind (keeps_ofExcept _) fun _ => keeps_exec_read (by simp)

/-- A call asks only for what it may, and settles every enqueue. -/
theorem keeps_client (invocation : Invocation) :
    Keeps (Asks invocation.handle invocation.method.requests) (Settled invocation.handle)
      invocation.client := by
  obtain ⟨handle, method⟩ := invocation
  have hanswer {α : Type} {wrap : α → Answer} {client : Client α}
      (hkeeps : Keeps (Asks handle method.requests) (Settled handle) client) :
      Keeps (Asks handle method.requests) (Settled handle) (answer wrap client) :=
    keeps_bind hkeeps fun value => keeps_pure (wrap value)
  cases method with
  | execute item => exact hanswer (keeps_enqueueRequest (by simp [Method.requests]))
  | enqueueBatch items =>
      exact hanswer (keeps_enqueueBatch items fun item hmem => List.mem_map_of_mem hmem)
  | reschedule jobId scheduleAt =>
      apply hanswer
      apply keeps_bind (keeps_ofExcept _)
      intro _
      apply keeps_exec_remember
      · simp
      · exact fun _ => trivial
      · intro reply result hread
        by_contra hrefused
        simp [parseRescheduleResponse, hrefused] at hread
  | cancel | forceAck | forceFail | requeue | retryNow | forceRetry =>
      exact hanswer (keeps_operatorTransition _ _)
  | purgeFailed selector =>
      apply hanswer
      apply keeps_bind (keeps_exec (by simp))
      intro jobIds
      split_ifs
      · exact keeps_pure 0
      · exact keeps_bind (keeps_exec (by simp)) fun _ => keeps_pure jobIds.length
  | workersCleanup staleWorkers =>
      apply hanswer
      unfold Namespace.workersCleanup
      split_ifs
      · exact keeps_pure ()
      · exact keeps_bind (keeps_exec (by simp)) fun _ => keeps_pure ()
  | reserve config availableCapacity leaseTokens =>
      apply hanswer
      unfold Namespace.reserve
      split_ifs
      · exact keeps_pure _
      · apply keeps_exec_remember
        · simp
        · exact fun _ => trivial
        · intro reply result hread
          by_contra hrefused
          simp [parseReserveResponse, hrefused] at hread
  | reapExpired limit =>
      apply hanswer
      unfold Namespace.reapExpired
      split_ifs
      · exact keeps_pure 0
      · exact keeps_exec_read (by simp)
  | heartbeat | ack | completeAndReschedule | failOrRetry =>
      exact hanswer (keeps_exec_read (by simp))

end Invocation

/-! ## Runs -/

namespace Deployment

open Keyspace Invocation

variable {events : List DeploymentEvent} {s : Deployment} {keyPrefix name jobId : Bytes}

/-- The keyspace is where the commands that have run lead. -/
theorem serverAfter_serve (keyspace : Keyspace) (log : List (Served Command Reply)) :
    Service.serverAfter Keyspace.serve keyspace log = keyspace.run (log.map Served.request) := by
  simp only [Service.serverAfter, Keyspace.run, List.foldl_map, serve_fst]

/-- The operations that have run in a namespace. -/
def opsIn (keyPrefix name : Bytes) (log : List (Served Command Reply)) : List Op :=
  log.filterMap fun served => served.request.opIn keyPrefix name

/-- The store of a namespace is where the operations that have run there lead. -/
theorem readStore_serverAfter (log : List (Served Command Reply)) :
    (Service.serverAfter Keyspace.serve Keyspace.empty log).readStore
        (namespaceKeys keyPrefix name) = Store.empty.run (opsIn keyPrefix name log) := by
  rw [serverAfter_serve, readStore_run, List.filterMap_map]
  rfl

/-- An operation of a namespace stands in the log after those before it. -/
theorem exists_served_of_opsIn {log : List (Served Command Reply)} {before after : List Op}
    {op : Op} (hops : opsIn keyPrefix name log = before ++ op :: after) :
    ∃ early index reply late, opsIn keyPrefix name early = before ∧
      log = early ++ ⟨index, Namespace.command ⟨keyPrefix, name⟩ op, reply⟩ :: late := by
  obtain ⟨early, rest, rfl, hearly, hrest⟩ := List.filterMap_eq_append_iff.mp hops
  obtain ⟨others, ⟨index, command, reply⟩, late, rfl, hothers, hop, _⟩ :=
    List.filterMap_eq_cons_iff.mp hrest
  refine ⟨early ++ others, index, reply, late, ?_, ?_⟩
  · rw [opsIn, List.filterMap_append, hearly, List.filterMap_eq_nil_iff.mpr hothers,
      List.append_nil]
  · cases command with
    | exec commandPrefix commandName sent =>
        simp only [Command.opIn, Option.ite_none_right_eq_some, Option.some.injEq] at hop
        obtain ⟨⟨rfl, rfl⟩, rfl⟩ := hop
        rw [List.append_assoc]
        rfl
    | rememberNamespace commandPrefix commandName => cases hop

/-- A command has run for a session that has asked for it. -/
theorem exists_session_of_served (hrun : run events = some s) {index : ℕ} {command : Command}
    {reply : Reply} (hmem : ⟨index, command, reply⟩ ∈ s.log) :
    ∃ session before, s.sessions[index]? = some session ∧
      session.Sound Invocation.body (s.servedTo index) ∧ before <+: session.exchanges ∧
        Asks session.method.handle session.method.method.requests before command := by
  obtain ⟨howners, hsound⟩ := Service.sound_run hrun
  have hindex := howners _ hmem
  have hsession := List.getElem?_eq_getElem hindex
  have hmeets := keeps_client s.sessions[index].method [] (by simp [Settled])
  obtain ⟨before, hbefore, hasks⟩ :=
    (hsound index _ hsession).asks_of_served hmeets (Service.mem_servedTo.mpr hmem)
  exact ⟨_, before, hsession, hsound index _ hsession, hbefore, hasks⟩

/-- Whatever is stored about a job stems from an accepted enqueue that a client has asked for. -/
theorem exists_enqueued_of_slot (hrun : run events = some s)
    (hslot : (s.server.readStore (namespaceKeys keyPrefix name)).slot jobId ≠ {}) :
    ∃ index session request now reply, s.sessions[index]? = some session ∧
      session.Sound Invocation.body (s.servedTo index) ∧
      session.method.handle = ⟨keyPrefix, name⟩ ∧
      request ∈ session.method.method.requests ∧ request.jobId = jobId ∧ jobId.length ≤ 256 ∧
      (Namespace.command ⟨keyPrefix, name⟩ (.enqueue request now), reply) ∈ s.servedTo index ∧
        reply.Accepts := by
  obtain ⟨hserver, hlog⟩ := Service.log_run hrun
  rw [hserver, readStore_serverAfter] at hslot
  obtain ⟨before, request, now, after, hops, rfl, hok⟩ := Store.exists_enqueue_of_slot hslot
  obtain ⟨early, index, reply, late, rfl, hsplit⟩ := exists_served_of_opsIn hops
  have hreply : reply = (Store.empty.run (opsIn keyPrefix name early)).reply
      (.enqueue request now) := by
    rw [← readStore_serverAfter]
    exact hlog early _ late hsplit
  have hmem :
      ⟨index, Namespace.command ⟨keyPrefix, name⟩ (.enqueue request now), reply⟩ ∈ s.log := by
    simp [hsplit]
  obtain ⟨session, earlier, hsession, hsound, _, ⟨op, hsent, hvalid⟩ | ⟨hsent, _⟩⟩ :=
    exists_session_of_served hrun hmem
  · simp only [Namespace.command, Command.exec.injEq] at hsent
    obtain ⟨hkeyPrefix, hname, rfl⟩ := hsent
    obtain ⟨hrequest, hshort⟩ := hvalid request now rfl
    refine ⟨index, session, request, now, reply, hsession, hsound, ?_, hrequest, rfl, hshort,
      Service.mem_servedTo.mpr hmem, ?_⟩
    · rw [hkeyPrefix, hname]
    · rw [hreply]
      rcases Store.accepts_enqueue _ request now with haccepts | ⟨_, hrefused⟩
      · exact haccepts
      · rw [hrefused, Reply.isOk_invalidState] at hok
        cases hok
  · cases hsent

/-- In every run of a deployment, whatever is stored about a job in a namespace stems from a
call there with a request for the job, which was accepted, and the job id has at most 256
bytes. -/
theorem stored_jobs_were_requested (hrun : run events = some s)
    (hslot : (s.server.readStore (namespaceKeys keyPrefix name)).slot jobId ≠ {}) :
    jobId.length ≤ 256 ∧ ∃ index session request now reply,
      s.sessions[index]? = some session ∧ session.method.handle = ⟨keyPrefix, name⟩ ∧
      request ∈ session.method.method.requests ∧ request.jobId = jobId ∧
      (Namespace.command ⟨keyPrefix, name⟩ (.enqueue request now), reply) ∈ s.servedTo index ∧
        reply.Accepts := by
  obtain ⟨index, session, request, now, reply, hsession, _, hhandle, hmem, hjob, hshort, hserved,
    haccepts⟩ := exists_enqueued_of_slot hrun hslot
  exact ⟨hshort, index, session, request, now, reply, hsession, hhandle, hmem, hjob, hserved,
    haccepts⟩

/-- The sample batch has stored its job before it enters the namespace. -/
theorem stored_jobs_were_requested_sample :
    ∃ s session, run (sampleBatchEvents.take 3) = some s ∧ session ∈ s.sessions ∧
      session.method.handle = ⟨"", "jobs"⟩ ∧ (utf8 "job").length ≤ 256 := by
  obtain ⟨s, hrun⟩ : ∃ s, run (sampleBatchEvents.take 3) = some s := ⟨_, rfl⟩
  have hslot : (s.server.readStore (namespaceKeys "" "jobs")).slot "job" ≠ {} := by
    cases hrun
    decide
  obtain ⟨hshort, _, session, _, _, _, hsession, hhandle, _⟩ :=
    stored_jobs_were_requested hrun hslot
  exact ⟨s, session, hrun, List.mem_of_getElem? hsession, hhandle, hshort⟩

/-- Listing the catalog gives the names of the entries that have run. -/
theorem mem_listNamespaces_iff (hrun : run events = some s) :
    name ∈ s.server.listNamespaces keyPrefix ↔
      ∃ index reply, ⟨index, .rememberNamespace keyPrefix name, reply⟩ ∈ s.log := by
  rw [(Service.log_run hrun).1, serverAfter_serve, listNamespaces, Finset.mem_sort, mem_catalog_run,
    List.mem_map]
  constructor
  · rintro (hnone | ⟨⟨index, _, reply⟩, hmem, rfl⟩)
    · cases hnone
    · exact ⟨index, reply, hmem⟩
  · rintro ⟨index, reply, hmem⟩
    exact Or.inr ⟨_, hmem, rfl⟩

/-- A call that has ended has entered the namespace of its accepted enqueue, unless one of the two
commands has failed. -/
theorem mem_listNamespaces_of_enqueued (hrun : run events = some s) {index : ℕ}
    {session : Session Invocation Timestamp Command Reply Error (Except Error Answer)}
    {request : EnqueueRequest} {now : Timestamp} {reply : Reply} {result : Except Error Answer}
    (hsound : session.Sound Invocation.body (s.servedTo index))
    (hhandle : session.method.handle = ⟨keyPrefix, name⟩)
    (hserved : (Namespace.command ⟨keyPrefix, name⟩ (.enqueue request now), reply) ∈
      s.servedTo index)
    (haccepts : reply.Accepts) (hresult : session.result? = some result)
    (henqueued : ∀ error, (Namespace.command ⟨keyPrefix, name⟩ (.enqueue request now),
      .error error) ∉ session.exchanges)
    (hentered : ∀ error, (Namespace.rememberCommand ⟨keyPrefix, name⟩, .error error) ∉
      session.exchanges) :
    name ∈ s.server.listNamespaces keyPrefix := by
  have hanswered : (Namespace.command ⟨keyPrefix, name⟩ (.enqueue request now), .ok reply) ∈
      session.exchanges := by
    rcases hsound.cases_of_served _ _ hserved with hmem | ⟨error, hmem⟩ | hawaiting
    · exact hmem
    · exact absurd hmem (henqueued error)
    · rw [hsound.awaiting_eq_none hresult] at hawaiting
      cases hawaiting
  have hsettled : Settled session.method.handle session.exchanges := by
    have hmeets := (keeps_client session.method [] (by simp [Settled])).of_reaches hsound.reaches
    rwa [Program.result?_eq_some.mp hresult] at hmeets
  rw [hhandle] at hsettled
  obtain ⟨read, hread⟩ := haccepts.exists_result request.jobId
  obtain ⟨response, hentry⟩ := hsettled request now reply read hanswered hread
  cases response with
  | error error => exact absurd hentry (hentered error)
  | ok answer =>
      exact (mem_listNamespaces_iff hrun).mpr
        ⟨index, answer, Service.mem_servedTo.mp (hsound.served_of_ok _ _ hentry)⟩

/-- In every run of a deployment, the catalog is listed in order and without repetitions, it
lists only namespaces in which an operation that uses them has succeeded, and a namespace with
a job is listed, unless the call that enqueued the job has not ended, or its enqueue or its entry
in the catalog has failed. -/
theorem catalog_lists_namespaces (hrun : run events = some s) (keyPrefix : Bytes) :
    (s.server.listNamespaces keyPrefix).Pairwise (· < ·) ∧
      (∀ name ∈ s.server.listNamespaces keyPrefix, ∃ index op reply,
        ⟨index, Namespace.command ⟨keyPrefix, name⟩ op, reply⟩ ∈ s.log ∧ op.IsRemembered ∧
          reply.isOk = true) ∧
      ∀ name jobId, (s.server.readStore (namespaceKeys keyPrefix name)).slot jobId ≠ {} →
        name ∈ s.server.listNamespaces keyPrefix ∨
          ∃ index session request now reply, s.sessions[index]? = some session ∧
            session.method.handle = ⟨keyPrefix, name⟩ ∧ request.jobId = jobId ∧
            (Namespace.command ⟨keyPrefix, name⟩ (.enqueue request now), reply) ∈
              s.servedTo index ∧ reply.Accepts ∧
            (session.result? = none ∨ ∃ error,
              (Namespace.command ⟨keyPrefix, name⟩ (.enqueue request now), .error error) ∈
                  session.exchanges ∨
                (Namespace.rememberCommand ⟨keyPrefix, name⟩, .error error) ∈
                  session.exchanges) := by
  refine ⟨(Finset.sortedLT_sort _).pairwise, ?_, ?_⟩
  · intro name hname
    obtain ⟨index, reply, hmem⟩ := (mem_listNamespaces_iff hrun).mp hname
    obtain ⟨session, before, hsession, hsound, hbefore, ⟨op, hsent, _⟩ |
      ⟨hsent, op, answer, hanswered, huses, hok⟩⟩ := exists_session_of_served hrun hmem
    · cases hsent
    · have hhandle : session.method.handle = ⟨keyPrefix, name⟩ := by
        simp only [Namespace.rememberCommand, Command.rememberNamespace.injEq] at hsent
        rw [hsent.1, hsent.2]
      rw [hhandle] at hanswered
      exact ⟨index, op, answer,
        Service.mem_servedTo.mp (hsound.served_of_ok _ _ (hbefore.subset hanswered)), huses, hok⟩
  · intro name jobId hslot
    obtain ⟨index, session, request, now, reply, hsession, hsound, hhandle, _, hjob, _, hserved,
      haccepts⟩ := exists_enqueued_of_slot hrun hslot
    rw [or_iff_not_imp_left]
    intro hmissing
    refine ⟨index, session, request, now, reply, hsession, hhandle, hjob, hserved, haccepts, ?_⟩
    cases hresult : session.result? with
    | none => exact Or.inl rfl
    | some result =>
        right
        by_contra hnone
        push Not at hnone
        exact hmissing (mem_listNamespaces_of_enqueued hrun hsound hhandle hserved haccepts hresult
          (fun error => (hnone error).1) fun error => (hnone error).2)

/-- The namespace of the sample batch has a job and is not listed yet. -/
theorem catalog_lists_namespaces_sample :
    ∃ s session, run (sampleBatchEvents.take 3) = some s ∧ s.server.listNamespaces "" = [] ∧
      session ∈ s.sessions ∧ (session.result? = none ∨
        ∃ command error, (command, .error error) ∈ session.exchanges) := by
  obtain ⟨s, hrun⟩ : ∃ s, run (sampleBatchEvents.take 3) = some s := ⟨_, rfl⟩
  have hslot : (s.server.readStore (namespaceKeys "" "jobs")).slot "job" ≠ {} := by
    cases hrun
    decide
  have hcatalog : s.server.catalog "" = ∅ := by
    cases hrun
    decide
  have hempty : s.server.listNamespaces "" = [] := by
    rw [listNamespaces, hcatalog, Finset.sort_empty]
  rcases (catalog_lists_namespaces hrun "").2.2 "jobs" "job" hslot with
    hlisted | ⟨_, session, _, _, _, hsession, _, _, _, _, hopen⟩
  · rw [hempty] at hlisted
    cases hlisted
  · refine ⟨s, session, hrun, hempty, List.mem_of_getElem? hsession, ?_⟩
    rcases hopen with hopen | ⟨error, hfailed | hfailed⟩
    · exact Or.inl hopen
    · exact Or.inr ⟨_, error, hfailed⟩
    · exact Or.inr ⟨_, error, hfailed⟩

end Deployment

end Redloop
