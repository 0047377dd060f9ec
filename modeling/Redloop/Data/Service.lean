/-
# Programs that share a server

Sessions run programs against one server, each sending its next request when it has the
response to the one before. The server handles a request at most once, between any
others. A caller gets the reply, or is told that its request has failed, before or after
the request was served; a failed request that was not served may still be served at any
later time. A caller can stop at any point, since no session has to go on.

What a session knows of its own requests holds in every run, whatever the others do:
the responses it got are those of the server, and every request served for it is one it
made.
-/

import Redloop.Data.History
import Redloop.Data.Program
import Redloop.Data.Trace

namespace Redloop

universe u

/-- A running program: its method, what it has exchanged, where it is, the request that it
waits for with the reply of the server, and its failed requests that were not served. -/
structure Session (μ τ Req Reply ε : Type*) (α : Type u) where
  method : μ
  exchanges : List (Req × Except ε Reply)
  current : Program τ Req (Except ε Reply) α
  awaiting : Option (Req × Option Reply)
  abandoned : List Req

/-- A request that the server has served for a session, with its reply. -/
structure Served (Req Reply : Type*) where
  index : ℕ
  request : Req
  reply : Reply

/-- The server, the sessions and the requests that were served, in their order. -/
structure Service (σ μ τ Req Reply ε : Type*) (α : Type u) where
  server : σ
  sessions : List (Session μ τ Req Reply ε α)
  log : List (Served Req Reply)

/-- What can happen: a session starts a method, it sends its next request, the request is
served, the reply is delivered, the request fails, or the server serves a failed request. -/
inductive ServiceEvent (μ τ ε : Type*)
  | start (method : μ)
  | send (index : ℕ) (time : τ)
  | serve (index : ℕ)
  | deliver (index : ℕ)
  | fail (index : ℕ) (error : ε)
  | serveLate (index place : ℕ)

variable {σ μ τ Req Reply ε β : Type*} {α : Type u} {handle : σ → Req → σ × Reply}
  {body : μ → Program τ Req (Except ε Reply) α}

namespace Session

variable {session : Session μ τ Req Reply ε α}

/-- The result of a session that has ended. -/
def result? (session : Session μ τ Req Reply ε α) : Option α := session.current.result?

/-- A session starts. -/
def start (body : μ → Program τ Req (Except ε Reply) α) (method : μ) :
    Session μ τ Req Reply ε α := ⟨method, [], body method, none, []⟩

/-- The next request is sent. -/
def send (session : Session μ τ Req Reply ε α) (time : τ) :
    Option (Session μ τ Req Reply ε α) :=
  match session.current, session.awaiting with
  | .call request _, none => some { session with awaiting := some (request time, none) }
  | _, _ => none

/-- The request that the session waits for is served. -/
def serve (session : Session μ τ Req Reply ε α) (reply : Req → Reply) :
    Option (Req × Session μ τ Req Reply ε α) :=
  match session.awaiting with
  | some (request, none) =>
      some (request, { session with awaiting := some (request, some (reply request)) })
  | _ => none

/-- The session goes on with the reply to its request. -/
def deliver (session : Session μ τ Req Reply ε α) : Option (Session μ τ Req Reply ε α) :=
  match session.current, session.awaiting with
  | .call _ next, some (request, some reply) =>
      some
        { session with
          exchanges := session.exchanges ++ [(request, .ok reply)]
          current := next (.ok reply)
          awaiting := none }
  | _, _ => none

/-- The session is told that its request has failed. -/
def fail (session : Session μ τ Req Reply ε α) (error : ε) :
    Option (Session μ τ Req Reply ε α) :=
  match session.current, session.awaiting with
  | .call _ next, some (request, reply) =>
      some
        { session with
          exchanges := session.exchanges ++ [(request, .error error)]
          current := next (.error error)
          awaiting := none
          abandoned := session.abandoned ++ if reply.isNone then [request] else [] }
  | _, _ => none

/-- A failed request of the session is served. -/
def serveLate (session : Session μ τ Req Reply ε α) (place : ℕ) :
    Option (Req × Session μ τ Req Reply ε α) :=
  session.abandoned[place]?.map fun request =>
    (request, { session with abandoned := session.abandoned.eraseIdx place })

end Session

namespace Service

variable {s s' : Service σ μ τ Req Reply ε α}

/-- Replace a session. -/
def put (s : Service σ μ τ Req Reply ε α) (index : ℕ) (session : Session μ τ Req Reply ε α) :
    Service σ μ τ Req Reply ε α :=
  { s with sessions := s.sessions.set index session }

/-- The server handles a request of a session, which then is as given. -/
def handled (handle : σ → Req → σ × Reply) (s : Service σ μ τ Req Reply ε α) (index : ℕ)
    (request : Req) (session : Session μ τ Req Reply ε α) : Service σ μ τ Req Reply ε α :=
  { server := (handle s.server request).1
    sessions := s.sessions.set index session
    log := s.log ++ [⟨index, request, (handle s.server request).2⟩] }

/-- The service after an event, when the event can happen. -/
def step (handle : σ → Req → σ × Reply) (body : μ → Program τ Req (Except ε Reply) α)
    (s : Service σ μ τ Req Reply ε α) :
    ServiceEvent μ τ ε → Option (Service σ μ τ Req Reply ε α)
  | .start method => some { s with sessions := s.sessions ++ [.start body method] }
  | .send index time =>
      s.sessions[index]?.bind fun session => (session.send time).map (s.put index)
  | .serve index =>
      s.sessions[index]?.bind fun session =>
        (session.serve fun request => (handle s.server request).2).map fun answered =>
          s.handled handle index answered.1 answered.2
  | .deliver index =>
      s.sessions[index]?.bind fun session => session.deliver.map (s.put index)
  | .fail index error =>
      s.sessions[index]?.bind fun session => (session.fail error).map (s.put index)
  | .serveLate index place =>
      s.sessions[index]?.bind fun session =>
        (session.serveLate place).map fun left => s.handled handle index left.1 left.2

/-- The service before anything happened. -/
def initial (server : σ) : Service σ μ τ Req Reply ε α := ⟨server, [], []⟩

/-- The service after a sequence of events from its start. -/
def run (handle : σ → Req → σ × Reply) (body : μ → Program τ Req (Except ε Reply) α)
    (server : σ) (events : List (ServiceEvent μ τ ε)) :
    Option (Service σ μ τ Req Reply ε α) :=
  runTrace (step handle body) (initial server) events

/-- The requests that were served for a session, with their replies, in their order. -/
def servedTo (s : Service σ μ τ Req Reply ε α) (index : ℕ) : List (Req × Reply) :=
  s.log.filterMap fun served =>
    if served.index = index then some (served.request, served.reply) else none

theorem mem_servedTo {index : ℕ} {request : Req} {reply : Reply} :
    (request, reply) ∈ s.servedTo index ↔ ⟨index, request, reply⟩ ∈ s.log := by
  simp only [servedTo, List.mem_filterMap, Option.ite_none_right_eq_some, Option.some.injEq,
    Prod.mk.injEq]
  constructor
  · rintro ⟨entry, hmem, rfl, rfl, rfl⟩
    exact hmem
  · intro hmem
    exact ⟨_, hmem, rfl, rfl, rfl⟩

/-! ## Steps -/

/-- What a step does to one session, with the requests that it serves for it. -/
inductive SessionStep (reply : Req → Reply) (session : Session μ τ Req Reply ε α) :
    Session μ τ Req Reply ε α → List (Req × Reply) → Prop
  | sent {request : τ → Req} {next : Except ε Reply → Program τ Req (Except ε Reply) α}
      (time : τ) (hcurrent : session.current = .call request next)
      (hawaiting : session.awaiting = none) :
      SessionStep reply session { session with awaiting := some (request time, none) } []
  | served {request : Req} (hawaiting : session.awaiting = some (request, none)) :
      SessionStep reply session
        { session with awaiting := some (request, some (reply request)) }
        [(request, reply request)]
  | delivered {ask : τ → Req} {next : Except ε Reply → Program τ Req (Except ε Reply) α}
      {request : Req} {answer : Reply} (hcurrent : session.current = .call ask next)
      (hawaiting : session.awaiting = some (request, some answer)) :
      SessionStep reply session
        { session with
          exchanges := session.exchanges ++ [(request, .ok answer)]
          current := next (.ok answer)
          awaiting := none } []
  | failed {ask : τ → Req} {next : Except ε Reply → Program τ Req (Except ε Reply) α}
      {request : Req} {answer : Option Reply} (error : ε)
      (hcurrent : session.current = .call ask next)
      (hawaiting : session.awaiting = some (request, answer)) :
      SessionStep reply session
        { session with
          exchanges := session.exchanges ++ [(request, .error error)]
          current := next (.error error)
          awaiting := none
          abandoned := session.abandoned ++ if answer.isNone then [request] else [] } []
  | servedLate {before after : List Req} {request : Req}
      (habandoned : session.abandoned = before ++ request :: after) :
      SessionStep reply session { session with abandoned := before ++ after }
        [(request, reply request)]

/-- A step starts a session, or does one thing to one session. -/
inductive Steps (handle : σ → Req → σ × Reply) (body : μ → Program τ Req (Except ε Reply) α)
    (s : Service σ μ τ Req Reply ε α) : Service σ μ τ Req Reply ε α → Prop
  | start (method : μ) :
      Steps handle body s { s with sessions := s.sessions ++ [.start body method] }
  | session {index : ℕ} {session session' : Session μ τ Req Reply ε α}
      {served : List (Req × Reply)} (hsession : s.sessions[index]? = some session)
      (hstep : SessionStep (fun request => (handle s.server request).2) session session' served) :
      Steps handle body s
        { server := served.foldl (fun server entry => (handle server entry.1).1) s.server
          sessions := s.sessions.set index session'
          log := s.log ++ served.map fun entry => ⟨index, entry.1, entry.2⟩ }

/-- Every step of the service is one of them. -/
theorem step_eq_some {event : ServiceEvent μ τ ε} (hstep : step handle body s event = some s') :
    Steps handle body s s' := by
  cases event with
  | start method =>
      cases hstep
      exact .start method
  | send index time =>
      obtain ⟨session, hsession, hstep⟩ := Option.bind_eq_some_iff.mp hstep
      obtain ⟨sent, hsent, rfl⟩ := Option.map_eq_some_iff.mp hstep
      unfold Session.send at hsent
      split at hsent
      · next request next hcurrent hawaiting =>
          cases hsent
          simpa [put] using Steps.session hsession (.sent time hcurrent hawaiting)
      · cases hsent
  | serve index =>
      obtain ⟨session, hsession, hstep⟩ := Option.bind_eq_some_iff.mp hstep
      obtain ⟨answered, hserve, rfl⟩ := Option.map_eq_some_iff.mp hstep
      unfold Session.serve at hserve
      split at hserve
      · next request hawaiting =>
          cases hserve
          simpa [handled] using Steps.session hsession (.served hawaiting)
      · cases hserve
  | deliver index =>
      obtain ⟨session, hsession, hstep⟩ := Option.bind_eq_some_iff.mp hstep
      obtain ⟨resumed, hdeliver, rfl⟩ := Option.map_eq_some_iff.mp hstep
      unfold Session.deliver at hdeliver
      split at hdeliver
      · next ask next request answer hcurrent hawaiting =>
          cases hdeliver
          simpa [put] using Steps.session hsession (.delivered hcurrent hawaiting)
      · cases hdeliver
  | fail index error =>
      obtain ⟨session, hsession, hstep⟩ := Option.bind_eq_some_iff.mp hstep
      obtain ⟨resumed, hfail, rfl⟩ := Option.map_eq_some_iff.mp hstep
      unfold Session.fail at hfail
      split at hfail
      · next ask next request answer hcurrent hawaiting =>
          cases hfail
          simpa [put] using Steps.session hsession (.failed error hcurrent hawaiting)
      · cases hfail
  | serveLate index place =>
      obtain ⟨session, hsession, hstep⟩ := Option.bind_eq_some_iff.mp hstep
      obtain ⟨left, hlate, rfl⟩ := Option.map_eq_some_iff.mp hstep
      obtain ⟨request, hrequest, rfl⟩ := Option.map_eq_some_iff.mp hlate
      obtain ⟨hplace, rfl⟩ := List.getElem?_eq_some_iff.mp hrequest
      have hsplit : session.abandoned = session.abandoned.take place ++
          session.abandoned[place] :: session.abandoned.drop (place + 1) := by
        rw [List.getElem_cons_drop, List.take_append_drop]
      rw [List.eraseIdx_eq_take_drop_succ]
      simpa [handled] using Steps.session hsession (.servedLate hsplit)

/-! ## Runs -/

/-- What the server has become by the requests it has served. -/
def serverAfter (handle : σ → Req → σ × Reply) (server : σ) (log : List (Served Req Reply)) : σ :=
  log.foldl (fun server entry => (handle server entry.request).1) server

/-- A request was answered by the server at its time. -/
def AnsweredBy (handle : σ → Req → σ × Reply) (server : σ) (before : List (Served Req Reply))
    (entry : Served Req Reply) : Prop :=
  entry.reply = (handle (serverAfter handle server before) entry.request).2

theorem servedTo_append (s : Service σ μ τ Req Reply ε α) (index owner : ℕ)
    (served : List (Req × Reply)) :
    (s.log ++ served.map fun entry => (⟨owner, entry.1, entry.2⟩ : Served Req Reply)).filterMap
        (fun entry => if entry.index = index then some (entry.request, entry.reply) else none) =
      s.servedTo index ++ if owner = index then served else [] := by
  rw [List.filterMap_append, List.filterMap_map]
  congr 1
  split_ifs with howner
  · simp [howner]
  · simp [howner]

/-- The log tells what the server has become, and every reply is the server's. -/
theorem log_run {server : σ} {events : List (ServiceEvent μ τ ε)}
    (hrun : run handle body server events = some s) :
    s.server = serverAfter handle server s.log ∧ Justified (AnsweredBy handle server) s.log := by
  apply runTrace_invariant (motive := fun s : Service σ μ τ Req Reply ε α =>
    s.server = serverAfter handle server s.log ∧ Justified (AnsweredBy handle server) s.log)
    ⟨rfl, .nil⟩ _ hrun
  rintro middle event next ⟨hserver, hlog⟩ hstep
  cases step_eq_some hstep with
  | start method => exact ⟨hserver, hlog⟩
  | session hsession hdoes =>
      cases hdoes with
      | sent | delivered | failed => simpa using ⟨hserver, hlog⟩
      | served | servedLate =>
          refine ⟨?_, hlog.concat ?_⟩
          · simp [serverAfter, hserver]
          · rw [AnsweredBy, ← hserver]

/-- The rule of sessions: what holds of a session that starts, and is kept by what it does,
holds of every session of a run, whatever the others do. -/
theorem session_induction {server : σ} {events : List (ServiceEvent μ τ ε)}
    {motive : Session μ τ Req Reply ε α → List (Req × Reply) → Prop}
    (start : ∀ method, motive (.start body method) [])
    (advance : ∀ session session' served reply answers, motive session served →
      SessionStep reply session session' answers → motive session' (served ++ answers))
    (hrun : run handle body server events = some s) :
    (∀ entry ∈ s.log, entry.index < s.sessions.length) ∧
      ∀ index session, s.sessions[index]? = some session → motive session (s.servedTo index) := by
  apply runTrace_invariant (motive := fun s : Service σ μ τ Req Reply ε α =>
    (∀ entry ∈ s.log, entry.index < s.sessions.length) ∧
      ∀ index session, s.sessions[index]? = some session → motive session (s.servedTo index))
    ⟨by simp [initial], by simp [initial]⟩ _ hrun
  rintro middle event next ⟨howners, hall⟩ hstep
  cases step_eq_some hstep with
  | start method =>
      constructor
      · intro entry hentry
        have hlt := howners entry hentry
        simp only [List.length_append, List.length_singleton]
        omega
      · intro index session hsession
        rcases Nat.lt_or_ge index middle.sessions.length with hindex | hindex
        · rw [List.getElem?_append_left hindex] at hsession
          exact hall index session hsession
        · have hnew : session = .start body method := by
            obtain ⟨_, hget⟩ := List.getElem?_eq_some_iff.mp hsession
            rw [List.getElem_append_right hindex] at hget
            simpa using hget.symm
          have hnone : middle.servedTo index = [] := by
            apply List.filterMap_eq_nil_iff.mpr
            intro entry hentry
            have hlt := howners entry hentry
            exact if_neg (by omega)
          have hserved : servedTo { middle with
              sessions := middle.sessions ++ [.start body method] } index = [] := hnone
          rw [hnew, hserved]
          exact start method
  | @session owner before after served hbefore hdoes =>
      obtain ⟨howner, _⟩ := List.getElem?_eq_some_iff.mp hbefore
      constructor
      · intro entry hentry
        rw [List.length_set]
        rcases List.mem_append.mp hentry with hentry | hentry
        · exact howners entry hentry
        · obtain ⟨_, _, rfl⟩ := List.mem_map.mp hentry
          exact howner
      · intro index session hsession
        have hlog := servedTo_append middle index owner served
        rw [servedTo, hlog]
        rw [List.getElem?_set] at hsession
        split_ifs at hsession with hsame
        · cases hsession
          subst hsame
          rw [if_pos rfl]
          exact advance _ _ _ _ _ (hall _ _ hbefore) hdoes
        · rw [if_neg hsame, List.append_nil]
          exact hall index session hsession

end Service

namespace Session

open Service

variable {session session' : Session μ τ Req Reply ε α} {served answers : List (Req × Reply)}

/-! ## What a session knows -/

/-- A session follows its program, its responses are the server's, and what was served for
it are its requests. -/
structure Sound (body : μ → Program τ Req (Except ε Reply) α)
    (session : Session μ τ Req Reply ε α) (served : List (Req × Reply)) : Prop where
  reaches : (body session.method).Reaches session.exchanges session.current
  asked : ∀ request reply, session.awaiting = some (request, reply) →
    ∃ ask next time, session.current = .call ask next ∧ request = ask time
  served_of_ok : ∀ request reply, (request, .ok reply) ∈ session.exchanges →
    (request, reply) ∈ served
  served_of_awaiting : ∀ request reply, session.awaiting = some (request, some reply) →
    (request, reply) ∈ served
  cases_of_served : ∀ request reply, (request, reply) ∈ served →
    (request, .ok reply) ∈ session.exchanges ∨
      (∃ error, (request, .error error) ∈ session.exchanges) ∨
      session.awaiting = some (request, some reply)
  failed_of_abandoned : ∀ request ∈ session.abandoned,
    ∃ error, (request, .error error) ∈ session.exchanges

theorem sound_start (method : μ) : (Session.start body method).Sound body [] where
  reaches := .start
  asked := by simp [start]
  served_of_ok := by simp [start]
  served_of_awaiting := by simp [start]
  cases_of_served := by simp
  failed_of_abandoned := by simp [start]

theorem Sound.step {reply : Req → Reply} (hsound : session.Sound body served)
    (hstep : SessionStep reply session session' answers) :
    session'.Sound body (served ++ answers) := by
  obtain ⟨hreaches, hasked, hok, hawaited, hcases, habandoned⟩ := hsound
  cases hstep with
  | sent time hcurrent hawaiting =>
      refine ⟨hreaches, ?_, ?_, ?_, ?_, habandoned⟩
      · rintro _ _ ⟨⟩
        exact ⟨_, _, time, hcurrent, rfl⟩
      · simpa using hok
      · simp
      · simpa [hawaiting] using hcases
  | @served request hawaiting =>
      refine ⟨hreaches, ?_, ?_, ?_, ?_, habandoned⟩
      · rintro _ _ ⟨⟩
        exact hasked request none hawaiting
      · intro other answer hmem
        exact List.mem_append_left _ (hok other answer hmem)
      · rintro _ _ ⟨⟩
        simp
      · intro other answer hmem
        rcases List.mem_append.mp hmem with hmem | hmem
        · rcases hcases other answer hmem with hcase | hcase | hcase
          · exact Or.inl hcase
          · exact Or.inr (Or.inl hcase)
          · rw [hawaiting] at hcase
            cases hcase
        · cases List.mem_singleton.mp hmem
          exact Or.inr (Or.inr rfl)
  | @delivered ask next request answer hcurrent hawaiting =>
      obtain ⟨_, _, time, hcall, rfl⟩ := hasked request _ hawaiting
      rw [hcall] at hreaches hcurrent
      cases hcurrent
      refine ⟨.exchange hreaches time _, by simp, ?_, by simp, ?_, ?_⟩
      · intro other reply hmem
        rw [List.append_nil]
        rcases List.mem_append.mp hmem with hmem | hmem
        · exact hok other reply hmem
        · cases List.mem_singleton.mp hmem
          exact hawaited _ _ hawaiting
      · intro other reply hmem
        rw [List.append_nil] at hmem
        rcases hcases other reply hmem with hcase | ⟨error, hcase⟩ | hcase
        · exact Or.inl (List.mem_append_left _ hcase)
        · exact Or.inr (Or.inl ⟨error, List.mem_append_left _ hcase⟩)
        · rw [hawaiting] at hcase
          cases hcase
          exact Or.inl (by simp)
      · intro other hmem
        obtain ⟨error, hfailed⟩ := habandoned other hmem
        exact ⟨error, List.mem_append_left _ hfailed⟩
  | @failed ask next request answer error hcurrent hawaiting =>
      obtain ⟨_, _, time, hcall, rfl⟩ := hasked request _ hawaiting
      rw [hcall] at hreaches hcurrent
      cases hcurrent
      refine ⟨.exchange hreaches time _, by simp, ?_, by simp, ?_, ?_⟩
      · intro other reply hmem
        simp only [List.mem_append, List.mem_singleton, Prod.mk.injEq, reduceCtorEq, and_false,
          or_false] at hmem
        exact List.mem_append_left _ (hok other reply hmem)
      · intro other reply hmem
        rw [List.append_nil] at hmem
        rcases hcases other reply hmem with hcase | ⟨earlier, hcase⟩ | hcase
        · exact Or.inl (List.mem_append_left _ hcase)
        · exact Or.inr (Or.inl ⟨earlier, List.mem_append_left _ hcase⟩)
        · rw [hawaiting] at hcase
          cases hcase
          exact Or.inr (Or.inl ⟨error, by simp⟩)
      · intro other hmem
        rcases List.mem_append.mp hmem with hmem | hmem
        · obtain ⟨earlier, hfailed⟩ := habandoned other hmem
          exact ⟨earlier, List.mem_append_left _ hfailed⟩
        · split_ifs at hmem
          · cases List.mem_singleton.mp hmem
            exact ⟨error, by simp⟩
          · cases hmem
  | @servedLate before after request hsplit =>
      refine ⟨hreaches, hasked, ?_, ?_, ?_, ?_⟩
      · intro other answer hmem
        exact List.mem_append_left _ (hok other answer hmem)
      · intro other answer hmem
        exact List.mem_append_left _ (hawaited other answer hmem)
      · intro other answer hmem
        rcases List.mem_append.mp hmem with hmem | hmem
        · exact hcases other answer hmem
        · cases List.mem_singleton.mp hmem
          exact Or.inr (Or.inl (habandoned request (by simp [hsplit])))
      · intro other hmem
        apply habandoned
        rw [hsplit]
        exact (List.sublist_append_right [request] after |>.append_left before).subset hmem

/-- A session that waits has not ended. -/
theorem Sound.awaiting_eq_none (hsound : session.Sound body served) {result : α}
    (hresult : session.result? = some result) : session.awaiting = none := by
  cases hawaiting : session.awaiting with
  | none => rfl
  | some awaited =>
      obtain ⟨ask, next, time, hcurrent, _⟩ := hsound.asked awaited.1 awaited.2 hawaiting
      rw [result?, hcurrent] at hresult
      cases hresult

/-- A request that was served for a session is one that its program made. -/
theorem Sound.asks_of_served (hsound : session.Sound body served)
    {asks : List (Req × Except ε Reply) → Req → Prop}
    {ends : List (Req × Except ε Reply) → α → Prop}
    (hmeets : (body session.method).Meets asks ends []) {request : Req} {reply : Reply}
    (hserved : (request, reply) ∈ served) :
    ∃ before, before <+: session.exchanges ∧ asks before request := by
  have hexchanged (response : Except ε Reply) (hmem : (request, response) ∈ session.exchanges) :
      ∃ before, before <+: session.exchanges ∧ asks before request := by
    obtain ⟨before, after, hsplit⟩ := List.append_of_mem hmem
    exact ⟨before, ⟨_, hsplit.symm⟩, hmeets.asks_of_reaches hsound.reaches hsplit⟩
  rcases hsound.cases_of_served request reply hserved with hmem | ⟨error, hmem⟩ | hawaiting
  · exact hexchanged _ hmem
  · exact hexchanged _ hmem
  · obtain ⟨ask, next, time, hcurrent, rfl⟩ := hsound.asked request _ hawaiting
    have hrest := hmeets.of_reaches hsound.reaches
    rw [hcurrent] at hrest
    exact ⟨_, List.prefix_refl _, (hrest time).1⟩

end Session

namespace Service

variable {s : Service σ μ τ Req Reply ε α}

/-- In every run a session follows its program, whatever the others do. -/
theorem sound_run {server : σ} {events : List (ServiceEvent μ τ ε)}
    (hrun : run handle body server events = some s) :
    (∀ entry ∈ s.log, entry.index < s.sessions.length) ∧
      ∀ (index : ℕ) (session : Session μ τ Req Reply ε α), s.sessions[index]? = some session →
        session.Sound body (s.servedTo index) :=
  session_induction Session.sound_start (fun _ _ _ _ _ hsound hstep => hsound.step hstep) hrun

end Service

end Redloop
