/-
# Batches of enqueues

A batch is not one command: its items are enqueued one after another, other clients run
commands between them, and the batch stops at the first item that is not accepted. What
has run of a batch is nevertheless a first part of it, in its order, because an item is
sent when the one before it was answered. When a batch fails, the item at which it has
stopped is the only one of which the caller does not know whether it has run, and the
caller knows it for that item too unless its command has failed.
-/

import Redloop.Client.Methods
import Redloop.Queue.Answers

namespace Redloop

/-! ## Replies to enqueues -/

/-- A reply that reports an accepted enqueue. -/
def Reply.Accepts (reply : Reply) : Prop :=
  ∃ (status : EnqueueStatus) (state : JobState) (schedule : Bytes),
    reply = [utf8 "ok", status.asStr, state.asStr, schedule]

namespace Store

theorem accepts_enqueueImmediate (s : Store) (jobId : Bytes) (nowUs : ℤ)
    (state : Option JobState) (wasFailed : Bool) :
    Reply.Accepts (s.enqueueImmediate jobId nowUs state wasFailed).2 := by
  unfold enqueueImmediate
  split
  · exact ⟨.unchanged, .ready, "0", rfl⟩
  · split_ifs
    · exact ⟨.unchanged, .leased, "0", rfl⟩
    · exact ⟨.updated, .leased, "0", rfl⟩
  · exact ⟨.updated, .ready, "0", rfl⟩
  · cases wasFailed with
    | true => exact ⟨.updated, .ready, "0", rfl⟩
    | false => exact ⟨.created, .ready, "0", rfl⟩

theorem accepts_enqueueScheduled (s : Store) (jobId : Bytes) (nowUs requestedUs : ℤ)
    (mode : ReplaceMode) (state : Option JobState) (score : ℤ) (wasFailed : Bool) :
    let reply := (s.enqueueScheduled jobId nowUs requestedUs mode state score wasFailed).2
    Reply.Accepts reply ∨ reply = Reply.invalidState .leased := by
  unfold enqueueScheduled
  dsimp only
  split
  · exact Or.inr rfl
  · left
    cases wasFailed with
    | true => exact ⟨.updated, _, _, rfl⟩
    | false => exact ⟨.created, _, _, rfl⟩
  · left
    split_ifs
    · exact ⟨.unchanged, _, _, rfl⟩
    · exact ⟨.updated, _, _, rfl⟩
    · exact ⟨.unchanged, _, _, rfl⟩

/-- An enqueue is accepted, or it is refused because it asks for a time and the job is
leased. -/
theorem accepts_enqueue (s : Store) (request : EnqueueRequest) (now : Timestamp) :
    (s.reply (.enqueue request now)).Accepts ∨
      (request.allowExistingCurrentRun = false ∧
        s.reply (.enqueue request now) = Reply.invalidState .leased) := by
  cases hallow : request.allowExistingCurrentRun with
  | true =>
      left
      simp only [reply, exec, hallow, if_true, enqueueOrReschedule]
      exact accepts_enqueueImmediate _ _ _ _ _
  | false =>
      simp only [reply, exec, hallow, Bool.false_eq_true, if_false, enqueueOrReschedule, true_and]
      exact accepts_enqueueScheduled _ _ _ _ _ _ _ _

end Store

/-- The client reads an accepted enqueue. -/
theorem Reply.Accepts.exists_result {reply : Reply} (haccepts : reply.Accepts) (jobId : Bytes) :
    ∃ result, parseEnqueueResponse jobId reply = .ok result := by
  obtain ⟨status, state, schedule, rfl⟩ := haccepts
  exact ⟨_, Store.parseEnqueueResponse_of_ok status state schedule⟩

/-- The client reads a refused enqueue. -/
theorem parseEnqueueResponse_invalidState (jobId : Bytes) :
    parseEnqueueResponse jobId (Reply.invalidState .leased) =
      .error (.invalidState jobId .leased) := by
  have hkind : parseScriptError jobId (Reply.invalidState .leased) =
      .invalidState jobId .leased := by
    unfold parseScriptError
    rw [if_neg (by decide), if_pos (by decide)]
    exact congrArg (Error.invalidState jobId) (by decide)
  unfold parseEnqueueResponse
  rw [if_pos (by simp), hkind]

/-! ## What a batch has exchanged -/

namespace Batch

open Deployment Keyspace

variable {handle : Namespace} {requests : List EnqueueRequest}
  {exchanges : List (Command × Except Error Reply)} {accepted : List (EnqueueRequest × Reply)}
  {results : List EnqueueResult}

/-- What the client reads from the reply to an enqueue. -/
def read (entry : EnqueueRequest × Reply) : Except Error EnqueueResult :=
  parseEnqueueResponse entry.1.jobId entry.2

/-- Every enqueue so far was answered, with the given results. -/
structure Accepted (exchanges : List (Command × Except Error Reply))
    (results : List EnqueueResult) : Prop where
  failed : failedOf enqueueOf exchanges = []
  reads : (answeredOf enqueueOf exchanges).map read = results.map .ok

/-- What a batch asks for: the next request after the accepted ones, or an entry in the
catalog. -/
def Asks (handle : Namespace) (requests : List EnqueueRequest)
    (exchanges : List (Command × Except Error Reply)) (command : Command) : Prop :=
  (∃ results, Accepted exchanges results) ∧
    ∃ rest, requests = (answeredOf enqueueOf exchanges).map Prod.fst ++ rest ∧
      (command = handle.rememberCommand ∨ ∃ request later now,
        rest = request :: later ∧ command = handle.command (.enqueue request now))

/-- Why a batch has stopped at a request after the accepted ones. -/
inductive Stops (exchanges : List (Command × Except Error Reply))
    (accepted : List (EnqueueRequest × Reply)) (request : EnqueueRequest) : Error → Prop
  | tooLong (hlong : 256 < request.jobId.length)
      (hfailed : failedOf enqueueOf exchanges = [])
      (hanswered : answeredOf enqueueOf exchanges = accepted) :
      Stops exchanges accepted request (.jobIdTooLong request.jobId.length)
  | refused {reply : Reply} {error : Error} (hread : read (request, reply) = .error error)
      (hfailed : failedOf enqueueOf exchanges = [])
      (hanswered : answeredOf enqueueOf exchanges = accepted ++ [(request, reply)]) :
      Stops exchanges accepted request error
  | failed {command : Command} {error : Error} (hmem : (command, .error error) ∈ exchanges)
      (hcommand : enqueueOf command = some request)
      (hfailed : failedOf enqueueOf exchanges = [request])
      (hanswered : answeredOf enqueueOf exchanges = accepted) :
      Stops exchanges accepted request error

/-- How a batch ends: all requests were answered with the results, or it has stopped. -/
def Ends (requests : List EnqueueRequest) (exchanges : List (Command × Except Error Reply)) :
    Except Error (List EnqueueResult) → Prop
  | .ok results =>
      Accepted exchanges results ∧ (answeredOf enqueueOf exchanges).map Prod.fst = requests
  | .error error =>
      ∃ accepted request rest, requests = accepted.map Prod.fst ++ request :: rest ∧
        (∀ entry ∈ accepted, ∃ result, read entry = .ok result) ∧
          Stops exchanges accepted request error

/-- The command of an enqueue. -/
@[simp]
theorem enqueueOf_command (request : EnqueueRequest) (now : Timestamp) :
    enqueueOf (handle.command (.enqueue request now)) = some request := rfl

/-- An entry in the catalog is no enqueue. -/
theorem enqueueOf_rememberCommand : enqueueOf handle.rememberCommand = none := rfl

theorem Accepted.exists_result (haccepted : Accepted exchanges results)
    {entry : EnqueueRequest × Reply} (hmem : entry ∈ answeredOf enqueueOf exchanges) :
    ∃ result, read entry = .ok result := by
  have hread : read entry ∈ results.map Except.ok := by
    rw [← haccepted.reads]
    exact List.mem_map_of_mem hmem
  obtain ⟨result, _, heq⟩ := List.mem_map.mp hread
  exact ⟨result, heq.symm⟩

/-- One more accepted enqueue. -/
theorem Accepted.concat (haccepted : Accepted exchanges results) {request : EnqueueRequest}
    {reply : Reply} {result : EnqueueResult} (hread : read (request, reply) = .ok result)
    (now : Timestamp) :
    Accepted (exchanges ++ [(handle.command (.enqueue request now), .ok reply)])
      (results ++ [result]) where
  failed := by simpa using haccepted.failed
  reads := by simp [haccepted.reads, hread]

/-- An entry in the catalog changes nothing about the enqueues. -/
theorem Accepted.remember (haccepted : Accepted exchanges results)
    (response : Except Error Reply) :
    Accepted (exchanges ++ [(handle.rememberCommand, response)]) results where
  failed := by
    rw [failedOf_concat_of_none _ enqueueOf_rememberCommand]
    exact haccepted.failed
  reads := by
    rw [answeredOf_concat_of_none _ enqueueOf_rememberCommand]
    exact haccepted.reads

/-- The rule of a batch: it sends its requests in their order, each when all before it were
accepted, and ends at the first that is not. -/
theorem meets_enqueueBatch (items : List BatchEnqueueItem) (haccepted : Accepted exchanges results)
    (hrequests : requests = (answeredOf enqueueOf exchanges).map Prod.fst ++
      items.map BatchEnqueueItem.request) :
    (handle.enqueueBatch items).run.Meets (Asks handle requests)
      (fun exchanges result => Ends requests exchanges (result.map (results ++ ·))) exchanges := by
  induction items generalizing exchanges results with
  | nil =>
      exact ⟨by simpa using haccepted, by simpa using hrequests.symm⟩
  | cons item rest ih =>
      have hstops (error : Error) {exchanges' : List (Command × Except Error Reply)}
          (hstop : Stops exchanges' (answeredOf enqueueOf exchanges) item.request error) :
          Ends requests exchanges' (.error error) :=
        ⟨_, item.request, _, hrequests, fun entry hmem => haccepted.exists_result hmem, hstop⟩
      rw [Namespace.enqueueBatch, Program.meets_run_bind]
      apply Namespace.meets_enqueueRequest
      · intro hlong
        refine ⟨by simp, ?_⟩
        rintro _ ⟨⟩
        exact hstops _ (.tooLong hlong haccepted.failed rfl)
      · intro _ now
        exact ⟨⟨results, haccepted⟩, _, hrequests, Or.inr ⟨item.request, _, now, rfl, rfl⟩⟩
      · intro now error
        refine ⟨by simp, ?_⟩
        rintro _ ⟨⟩
        have hmem : (handle.command (.enqueue item.request now), .error error) ∈
            exchanges ++ [(handle.command (.enqueue item.request now), .error error)] := by simp
        refine hstops _ (.failed hmem rfl ?_ ?_)
        · simp [haccepted.failed]
        · simp
      · intro now reply error hread
        refine ⟨by simp, ?_⟩
        rintro _ ⟨⟩
        have hrefused : read (item.request, reply) = .error error := hread
        refine hstops _ (.refused hrefused ?_ ?_)
        · simpa using haccepted.failed
        · simp
      · intro now reply result hread answered
        have hanswered : Accepted answered (results ++ [result]) := haccepted.concat hread now
        have hrest : requests = (answeredOf enqueueOf answered).map Prod.fst ++
            rest.map BatchEnqueueItem.request := by
          simp [answered, hrequests]
        refine ⟨⟨⟨_, hanswered⟩, _, hrest, Or.inl rfl⟩, fun response => ⟨?_, by simp⟩⟩
        rintro _ ⟨⟩
        let remembered := answered ++ [(handle.rememberCommand, response)]
        have hremembered : requests =
            (answeredOf enqueueOf remembered).map Prod.fst ++
              rest.map BatchEnqueueItem.request := by
          rw [answeredOf_concat_of_none _ enqueueOf_rememberCommand]
          exact hrest
        rw [Program.meets_run_bind]
        apply (ih (hanswered.remember response) hremembered).mono (fun _ _ hasks => hasks)
        rintro later (error | more) hends
        · exact ⟨by simp, fun _ herror => by cases herror; exact hends⟩
        · refine ⟨?_, by simp⟩
          rintro _ ⟨⟩
          simpa [Except.map] using hends

/-- How a call of a batch ends. -/
def Answers (requests : List EnqueueRequest) (exchanges : List (Command × Except Error Reply))
    (result : Except Error Answer) : Prop :=
  (∀ answer, result = .ok answer → ∃ results, answer = .batch results ∧
      Ends requests exchanges (.ok results)) ∧
    ∀ error, result = .error error → Ends requests exchanges (.error error)

/-- What a call of a batch does. -/
theorem meets_body (handle : Namespace) (items : List BatchEnqueueItem) :
    (Invocation.body ⟨handle, .enqueueBatch items⟩).Meets
      (Asks handle (items.map BatchEnqueueItem.request))
      (Answers (items.map BatchEnqueueItem.request)) [] := by
  change (Invocation.answer .batch (handle.enqueueBatch items)).run.Meets _ _ _
  have hempty : Accepted ([] : List (Command × Except Error Reply)) [] := ⟨rfl, rfl⟩
  rw [Invocation.answer, Program.meets_run_bind]
  apply (meets_enqueueBatch items hempty rfl).mono (fun _ _ hasks => hasks)
  rintro exchanges (error | results) hends
  · refine ⟨by simp, ?_⟩
    rintro _ ⟨⟩
    refine ⟨by simp, ?_⟩
    rintro _ ⟨⟩
    exact hends
  · refine ⟨?_, by simp⟩
    rintro _ ⟨⟩
    exact ⟨fun answer hanswer => ⟨results, by cases hanswer; rfl, hends⟩, by simp⟩

end Batch

/-! ## Batches among others -/

namespace Deployment

open Keyspace

variable {events : List DeploymentEvent} {s : Deployment} {index : ℕ}
  {session : Session Invocation Timestamp Command Reply Error (Except Error Answer)}
  {handle : Namespace} {items : List BatchEnqueueItem}

/-- The reply to an operation that has run is that of a store. -/
theorem exists_store_of_served (hrun : run events = some s) {keyPrefix name : Bytes} {op : Op}
    {reply : Reply} (hserved : (.exec keyPrefix name op, reply) ∈ s.servedTo index) :
    ∃ store : Store, reply = store.reply op := by
  obtain ⟨before, after, _, hanswered⟩ :=
    (Service.log_run hrun).2.of_mem (Service.mem_servedTo.mp hserved)
  exact ⟨_, hanswered⟩

/-- An enqueue that has run was accepted with a result that the client reads, or refused. -/
theorem accepts_or_refused (hrun : run events = some s) {entry : EnqueueRequest × Reply}
    (hmem : entry ∈ s.enqueued index) :
    entry.2.Accepts ∨
      (entry.1.allowExistingCurrentRun = false ∧ entry.2 = Reply.invalidState .leased) := by
  obtain ⟨request, reply⟩ := entry
  obtain ⟨command, hserved, hcommand⟩ := mem_ofKind.mp hmem
  unfold enqueueOf at hcommand
  split at hcommand
  · next keyPrefix name sent now =>
      cases hcommand
      obtain ⟨store, rfl⟩ := exists_store_of_served hrun hserved
      exact store.accepts_enqueue request now
  · cases hcommand

/-- The client knows an accepted enqueue by the result. -/
theorem accepts_of_read (hrun : run events = some s) {entry : EnqueueRequest × Reply}
    (hmem : entry ∈ s.enqueued index) {result : EnqueueResult}
    (hread : Batch.read entry = .ok result) : entry.2.Accepts := by
  rcases accepts_or_refused hrun hmem with haccepts | ⟨_, hrefused⟩
  · exact haccepts
  · rw [Batch.read, hrefused, parseEnqueueResponse_invalidState] at hread
    cases hread

/-- The client knows a refused enqueue by the error. -/
theorem refused_of_read (hrun : run events = some s) {entry : EnqueueRequest × Reply}
    (hmem : entry ∈ s.enqueued index) {error : Error} (hread : Batch.read entry = .error error) :
    entry.1.allowExistingCurrentRun = false ∧ entry.2 = Reply.invalidState .leased ∧
      error = .invalidState entry.1.jobId .leased := by
  rcases accepts_or_refused hrun hmem with haccepts | ⟨himmediate, hrefused⟩
  · obtain ⟨result, hresult⟩ := haccepts.exists_result entry.1.jobId
    rw [Batch.read, hresult] at hread
    cases hread
  · rw [Batch.read, hrefused, parseEnqueueResponse_invalidState] at hread
    cases hread
    exact ⟨himmediate, hrefused, rfl⟩

/-- The requests that an ended batch has made are a first part of it. -/
theorem made_prefix_of_answers {requests : List EnqueueRequest}
    {exchanges : List (Command × Except Error Reply)} {result : Except Error Answer}
    (hanswers : Batch.Answers requests exchanges result) :
    (answeredOf enqueueOf exchanges).map Prod.fst ++ failedOf enqueueOf exchanges <+: requests := by
  cases result with
  | ok answer =>
      obtain ⟨results, _, haccepted, hall⟩ := hanswers.1 answer rfl
      rw [haccepted.failed, hall, List.append_nil]
  | error error =>
      obtain ⟨accepted, request, rest, rfl, _, hstops⟩ := hanswers.2 error rfl
      cases hstops with
      | tooLong _ hfailed hanswered =>
          rw [hfailed, hanswered, List.append_nil]
          exact List.prefix_append _ _
      | refused _ hfailed hanswered =>
          rw [hfailed, hanswered]
          simp
      | failed _ _ hfailed hanswered =>
          rw [hfailed, hanswered]
          simp

/-- The requests that a batch has made, answered or not, are a first part of it. -/
theorem made_prefix (hsound : session.Sound Invocation.body (s.servedTo index))
    (hmethod : session.method = ⟨handle, .enqueueBatch items⟩) :
    (answeredOf enqueueOf session.exchanges).map Prod.fst ++ session.opened enqueueOf <+:
      items.map BatchEnqueueItem.request := by
  have hreaches := hsound.reaches
  rw [hmethod] at hreaches
  have hmeets := (Batch.meets_body handle items).of_reaches hreaches
  cases hcurrent : session.current with
  | done result =>
      have hresult : session.result? = some result := by rw [Session.result?, hcurrent]; rfl
      have hopened : session.opened enqueueOf = failedOf enqueueOf session.exchanges := by
        simp [Session.opened, hsound.awaiting_eq_none hresult]
      rw [hcurrent] at hmeets
      rw [hopened]
      exact made_prefix_of_answers hmeets
  | call request next =>
      rw [hcurrent] at hmeets
      obtain ⟨⟨_, haccepted⟩, rest, hrest, _⟩ := (hmeets (.ofSeconds 0)).1
      cases hawaiting : session.awaiting with
      | none =>
          rw [Session.opened, haccepted.failed, hawaiting, hrest]
          simp
      | some awaited =>
          obtain ⟨ask, _, time, hcall, hask⟩ := hsound.asked awaited.1 awaited.2 hawaiting
          cases hcurrent.symm.trans hcall
          obtain ⟨_, later, hlater, hremember | ⟨sent, _, now, rfl, hsent⟩⟩ := (hmeets time).1
          · rw [Session.opened, haccepted.failed, hawaiting, hlater]
            simp [hask, hremember, Batch.enqueueOf_rememberCommand]
          · rw [Session.opened, haccepted.failed, hawaiting, hlater]
            simp [hask, hsent]

/-- A batch makes no further enqueue once one has failed. -/
theorem careful_enqueueBatch (handle : Namespace) (items : List BatchEnqueueItem) :
    Careful enqueueOf (Invocation.body ⟨handle, .enqueueBatch items⟩) := by
  apply (Batch.meets_body handle items).mono
  · rintro exchanges command ⟨⟨_, haccepted⟩, _⟩ _
    exact haccepted.failed
  · intro _ _ _
    trivial

/-- How a batch that has failed has stopped at a request: it was not sent since its job id is
too long, it was refused since it is for a time and the job is leased, or its command has
failed, so that it has run or not. -/
inductive StopsAt (exchanges : List (Command × Except Error Reply)) (request : EnqueueRequest) :
    List (EnqueueRequest × Reply) → Error → Prop
  | tooLong (hlong : 256 < request.jobId.length) :
      StopsAt exchanges request [] (.jobIdTooLong request.jobId.length)
  | leased (hscheduled : request.scheduleAt.isSome) :
      StopsAt exchanges request [(request, Reply.invalidState .leased)]
        (.invalidState request.jobId .leased)
  | failed {command : Command} {error : Error} {last : List (EnqueueRequest × Reply)}
      (hmem : (command, .error error) ∈ exchanges) (hcommand : enqueueOf command = some request)
      (hlast : last = [] ∨ ∃ reply, last = [(request, reply)]) :
      StopsAt exchanges request last error

/-- What has run of a batch that has stopped: the accepted requests, and then that at which it has
stopped, if it has run. -/
theorem exists_stopsAt (hrun : run events = some s) {requests : List EnqueueRequest}
    (hbuilt : ∀ request ∈ requests, request.Built)
    {accepted tail : List (EnqueueRequest × Reply)} {request : EnqueueRequest}
    {unserved : List EnqueueRequest} {error : Error} (hrequest : request ∈ requests)
    (hserved : s.enqueued index = answeredOf enqueueOf session.exchanges ++ tail)
    (hfailed : failedOf enqueueOf session.exchanges = tail.map Prod.fst ++ unserved)
    (hstops : Batch.Stops session.exchanges accepted request error) :
    ∃ last, s.enqueued index = accepted ++ last ∧ StopsAt session.exchanges request last error := by
  have hnone (hopen : failedOf enqueueOf session.exchanges = []) : tail = [] := by
    rw [hopen] at hfailed
    exact List.map_eq_nil_iff.mp (List.append_eq_nil_iff.mp hfailed.symm).1
  cases hstops with
  | tooLong hlong hopen hanswered =>
      refine ⟨[], ?_, .tooLong hlong⟩
      rw [hserved, hanswered, hnone hopen]
  | @refused reply _ hread hopen hanswered =>
      have hran : s.enqueued index = accepted ++ [(request, reply)] := by
        rw [hserved, hanswered, hnone hopen, List.append_nil]
      have hmem : (request, reply) ∈ s.enqueued index := by simp [hran]
      obtain ⟨hscheduled, hreply, rfl⟩ := refused_of_read hrun hmem hread
      obtain rfl : reply = Reply.invalidState .leased := hreply
      refine ⟨_, hran, .leased ?_⟩
      have hitem := hbuilt request hrequest
      rwa [EnqueueRequest.Built, hscheduled, if_neg (by decide)] at hitem
  | failed hmem hcommand hone hanswered =>
      refine ⟨tail, by rw [hserved, hanswered], .failed hmem hcommand ?_⟩
      rw [hone] at hfailed
      cases tail with
      | nil => exact Or.inl rfl
      | cons entry others =>
          simp only [List.map_cons, List.cons_append, List.cons.injEq] at hfailed
          obtain ⟨rfl, hothers⟩ := hfailed
          have hlast : others = [] :=
            List.map_eq_nil_iff.mp (List.append_eq_nil_iff.mp hothers.symm).1
          exact Or.inr ⟨entry.2, by rw [hlast]⟩

/-- In every run of a deployment, what has run of a batch is a first part of it in its order,
in its namespace. A batch that returns has run as a whole, and returns what was answered to
each request. One that fails has run up to the request at which it has stopped, with all
before it accepted. -/
theorem batch_runs_in_order (hrun : run events = some s)
    (hsession : s.sessions[index]? = some session)
    (hmethod : session.method = ⟨handle, .enqueueBatch items⟩) :
    let requests := items.map BatchEnqueueItem.request
    (s.enqueued index).map Prod.fst <+: requests ∧
      (∀ command reply, (command, reply) ∈ s.servedTo index →
        command = handle.rememberCommand ∨
          ∃ request ∈ requests, ∃ now, command = handle.command (.enqueue request now)) ∧
      (∀ answer, session.result? = some (.ok answer) → ∃ results,
        answer = .batch results ∧ (s.enqueued index).map Prod.fst = requests ∧
          (s.enqueued index).map Batch.read = results.map .ok) ∧
      ∀ error, session.result? = some (.error error) → ∃ accepted request rest last,
        requests = accepted.map Prod.fst ++ request :: rest ∧
          s.enqueued index = accepted ++ last ∧
          (∀ entry ∈ accepted, entry.2.Accepts) ∧
          StopsAt session.exchanges request last error := by
  intro requests
  have hcareful : Careful enqueueOf (Invocation.body session.method) :=
    hmethod ▸ careful_enqueueBatch handle items
  obtain ⟨hsound, tail, horderly⟩ := Service.orderly_run hrun hsession hcareful
  have hmeets : (Invocation.body session.method).Meets (Batch.Asks handle requests)
      (Batch.Answers requests) [] := hmethod ▸ Batch.meets_body handle items
  have hserved : s.enqueued index = answeredOf enqueueOf session.exchanges ++ tail :=
    horderly.served_eq
  have hended {result : Except Error Answer} (hresult : session.result? = some result) :
      Batch.Answers requests session.exchanges result ∧
        failedOf enqueueOf session.exchanges =
          tail.map Prod.fst ++ session.unserved enqueueOf := by
    have hanswers := hmeets.of_reaches hsound.reaches
    rw [Program.result?_eq_some.mp hresult] at hanswers
    have hopened := horderly.opened_eq
    rw [Session.opened, hsound.awaiting_eq_none hresult] at hopened
    exact ⟨hanswers, by simpa using hopened⟩
  refine ⟨?_, ?_, ?_, ?_⟩
  · have hmade := made_prefix hsound hmethod
    rw [horderly.opened_eq, ← List.append_assoc] at hmade
    rw [hserved, List.map_append]
    exact (List.prefix_append _ _).trans hmade
  · intro command reply hmem
    obtain ⟨before, _, _, rest, hrest, hcommand⟩ := hsound.asks_of_served hmeets hmem
    rcases hcommand with hcommand | ⟨request, later, now, rfl, hcommand⟩
    · exact Or.inl hcommand
    · exact Or.inr ⟨request, by simp [hrest], now, hcommand⟩
  · intro answer hresult
    obtain ⟨hanswers, hfailed⟩ := hended hresult
    obtain ⟨results, rfl, haccepted, hall⟩ := hanswers.1 answer rfl
    rw [haccepted.failed] at hfailed
    have htail : tail = [] := by simpa using (List.append_eq_nil_iff.mp hfailed.symm).1
    rw [hserved, htail, List.append_nil]
    exact ⟨results, rfl, hall, haccepted.reads⟩
  · intro error hresult
    obtain ⟨hanswers, hfailed⟩ := hended hresult
    obtain ⟨accepted, request, rest, hrequests, hreads, hstops⟩ := hanswers.2 error rfl
    have hbuilt : ∀ request ∈ requests, request.Built := by
      intro request hmem
      obtain ⟨item, _, rfl⟩ := List.mem_map.mp hmem
      exact item.built
    obtain ⟨last, hran, hstopsAt⟩ :=
      exists_stopsAt hrun hbuilt (by simp [hrequests]) hserved hfailed hstops
    refine ⟨accepted, request, rest, last, hrequests, hran, ?_, hstopsAt⟩
    intro entry hmem
    obtain ⟨result, hread⟩ := hreads entry hmem
    exact accepts_of_read hrun (hran ▸ List.mem_append_left _ hmem) hread

/-- A client enqueues a batch of one item, and each of its commands runs and is answered. -/
def sampleBatchEvents : List DeploymentEvent :=
  [.start ⟨⟨"", "jobs"⟩, .enqueueBatch [(JobBuilder.mk ⟨"", "jobs"⟩ "job").intoBatchItem]⟩,
    .send 0 (.ofSeconds 41), .serve 0, .deliver 0, .send 0 (.ofSeconds 42), .serve 0, .deliver 0]

/-- A job is enqueued and leased to a worker, and then a batch of three items is sent, of which
the second is for a later time of that job. -/
def sampleStoppedEvents : List DeploymentEvent :=
  [.start ⟨⟨"", "jobs"⟩, .execute (JobBuilder.mk ⟨"", "jobs"⟩ "leased").intoBatchItem⟩,
    .send 0 (.ofSeconds 81), .serve 0,
    .start ⟨⟨"", "jobs"⟩, .reserve sampleConfig 1 ["token"]⟩, .send 1 (.ofSeconds 82), .serve 1,
    .start ⟨⟨"", "jobs"⟩, .enqueueBatch
      [(JobBuilder.mk ⟨"", "jobs"⟩ "first").intoBatchItem,
        ((JobBuilder.mk ⟨"", "jobs"⟩ "leased").scheduleAt (.ofSeconds 88)).intoBatchItem,
        (JobBuilder.mk ⟨"", "jobs"⟩ "third").intoBatchItem]⟩,
    .send 2 (.ofSeconds 83), .serve 2, .deliver 2, .send 2 (.ofSeconds 84), .serve 2, .deliver 2,
    .send 2 (.ofSeconds 85), .serve 2, .deliver 2]

/-- The sample batch has run as a whole when it returns. The batch of three stops at its second
item: the first has been accepted, and the third does not run. -/
theorem batch_runs_in_order_sample :
    (∃ s session, run sampleBatchEvents = some s ∧ s.sessions[0]? = some session ∧
      session.result? = some (.ok (.batch [⟨"job", .ready, .created⟩])) ∧
        (s.enqueued 0).map Prod.fst = [⟨"job", none, .always, true⟩]) ∧
    ∃ s session accepted request rest last, run sampleStoppedEvents = some s ∧
      s.sessions[2]? = some session ∧
      [⟨"first", none, .always, true⟩, ⟨"leased", some (.ofSeconds 88), .always, false⟩,
        ⟨"third", none, .always, true⟩] = accepted.map Prod.fst ++ request :: rest ∧
      s.enqueued 2 = accepted ++ last ∧ (s.enqueued 2).length = 2 ∧
      StopsAt session.exchanges request last (.invalidState "leased" .leased) := by
  constructor
  · have hends (s : Deployment) (hrun : run sampleBatchEvents = some s) :
        ∃ session, s.sessions[0]? = some session ∧
          session.method = ⟨⟨"", "jobs"⟩, .enqueueBatch
            [(JobBuilder.mk ⟨"", "jobs"⟩ "job").intoBatchItem]⟩ ∧
          session.result? = some (.ok (.batch [⟨"job", .ready, .created⟩])) := by
      cases hrun
      exact ⟨_, rfl, rfl, rfl⟩
    obtain ⟨s, hrun⟩ : ∃ s, run sampleBatchEvents = some s := ⟨_, rfl⟩
    obtain ⟨session, hsession, hmethod, hresult⟩ := hends s hrun
    obtain ⟨_, _, hall, _⟩ := (batch_runs_in_order hrun hsession hmethod).2.2.1 _ hresult
    exact ⟨s, session, hrun, hsession, hresult, hall⟩
  · have hends (s : Deployment) (hrun : run sampleStoppedEvents = some s) :
        ∃ session, s.sessions[2]? = some session ∧
          session.method = ⟨⟨"", "jobs"⟩, .enqueueBatch
            [(JobBuilder.mk ⟨"", "jobs"⟩ "first").intoBatchItem,
              ((JobBuilder.mk ⟨"", "jobs"⟩ "leased").scheduleAt (.ofSeconds 88)).intoBatchItem,
              (JobBuilder.mk ⟨"", "jobs"⟩ "third").intoBatchItem]⟩ ∧
          session.result? = some (.error (.invalidState "leased" .leased)) ∧
          (s.enqueued 2).length = 2 := by
      cases hrun
      exact ⟨_, rfl, rfl, rfl, rfl⟩
    obtain ⟨s, hrun⟩ : ∃ s, run sampleStoppedEvents = some s := ⟨_, rfl⟩
    obtain ⟨session, hsession, hmethod, hresult, hlength⟩ := hends s hrun
    obtain ⟨accepted, request, rest, last, hrequests, hran, _, hstops⟩ :=
      (batch_runs_in_order hrun hsession hmethod).2.2.2 _ hresult
    exact ⟨s, session, accepted, request, rest, last, hrun, hsession, hrequests, hran, hlength,
      hstops⟩

end Deployment

end Redloop
