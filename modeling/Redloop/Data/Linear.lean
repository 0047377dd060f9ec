/-
# Calls in a common order

The log of a service is one order of the requests of all sessions. It agrees with what
each of them has seen: a request is served at most once, and the answers of a session
stand in the log in the order in which it got them. It also agrees with time: the log
only grows, and when a session has ended nothing more is served for it but requests of
it that have failed.
-/

import Redloop.Data.Service

namespace Redloop

universe u

variable {σ μ τ Req Reply ε β : Type*} {α : Type u} {handle : σ → Req → σ × Reply}
  {body : μ → Program τ Req (Except ε Reply) α}

namespace Session

open Service

variable {session session' : Session μ τ Req Reply ε α} {served answers : List (Req × Reply)}

/-! ## Requests and answers -/

/-- The requests that a session has made. -/
def made (session : Session μ τ Req Reply ε α) : List Req :=
  session.exchanges.map Prod.fst ++ (session.awaiting.map Prod.fst).toList

/-- The requests that a session has made and that were not served. -/
def pending (session : Session μ τ Req Reply ε α) : List Req :=
  session.abandoned ++
    (session.awaiting.bind fun awaited => if awaited.2.isNone then some awaited.1 else none).toList

/-- The requests of a session that were answered, with their replies. -/
def answered (session : Session μ τ Req Reply ε α) : List (Req × Reply) :=
  (session.exchanges.filterMap fun exchange => exchange.2.toOption.map (exchange.1, ·)) ++
    (session.awaiting.bind fun awaited => awaited.2.map (awaited.1, ·)).toList

/-- Every request was served once or not at all, and the answered ones were served in the
order of the session. -/
structure Once (session : Session μ τ Req Reply ε α) (served : List (Req × Reply)) : Prop where
  perm : (served.map Prod.fst ++ session.pending).Perm session.made
  sublist : session.answered.Sublist served

theorem once_start (method : μ) : (Session.start body method).Once ([] : List (Req × Reply)) where
  perm := .nil
  sublist := .slnil

theorem Once.step {reply : Req → Reply} (honce : session.Once served)
    (hstep : SessionStep reply session session' answers) : session'.Once (served ++ answers) := by
  obtain ⟨hperm, hsublist⟩ := honce
  cases hstep with
  | @sent ask next time hcurrent hawaiting =>
      rw [List.append_nil]
      refine ⟨?_, ?_⟩
      · simp only [pending, made, hawaiting] at hperm ⊢
        simpa using hperm.append_right [ask time]
      · simpa [answered, hawaiting] using hsublist
  | @served request hawaiting =>
      refine ⟨?_, ?_⟩
      · have hcomm : ([request] ++ session.abandoned).Perm (session.abandoned ++ [request]) :=
          List.perm_append_comm
        have hpending : session.pending = session.abandoned ++ [request] := by
          simp [pending, hawaiting]
        have hmade : session.made = session.exchanges.map Prod.fst ++ [request] := by
          simp [made, hawaiting]
        rw [hpending, hmade] at hperm
        simpa [pending, made] using (hcomm.append_left (served.map Prod.fst)).trans hperm
      · simp only [answered, hawaiting] at hsublist ⊢
        simpa using hsublist.append_right [(request, reply request)]
  | @delivered ask next request answer hcurrent hawaiting =>
      rw [List.append_nil]
      refine ⟨?_, ?_⟩
      · simpa [pending, made, hawaiting] using hperm
      · simpa [answered, hawaiting, Except.toOption] using hsublist
  | @failed ask next request answer error hcurrent hawaiting =>
      rw [List.append_nil]
      cases answer with
      | none =>
          refine ⟨?_, ?_⟩
          · simpa [pending, made, hawaiting] using hperm
          · simpa [answered, hawaiting, Except.toOption] using hsublist
      | some answer =>
          refine ⟨?_, ?_⟩
          · simpa [pending, made, hawaiting] using hperm
          · -- the reply was not delivered
            refine List.Sublist.trans ?_ hsublist
            simp [answered, hawaiting, Except.toOption]
  | @servedLate before after request hsplit =>
      refine ⟨?_, hsublist.trans (List.sublist_append_left _ _)⟩
      have hmiddle : (request :: (before ++ after)).Perm (before ++ request :: after) :=
        List.perm_middle.symm
      refine List.Perm.trans ?_ hperm
      simp only [pending, hsplit, List.map_append, List.append_assoc]
      apply List.Perm.append_left
      simpa using hmiddle.append_right _

/-! ## Ended sessions -/

/-- A session after it has ended: nothing changes but that its failed requests are served. -/
structure Rests (session session' : Session μ τ Req Reply ε α) : Prop where
  exchanges_eq : session'.exchanges = session.exchanges
  current_eq : session'.current = session.current
  awaiting_eq : session'.awaiting = none
  abandoned_subset : session'.abandoned ⊆ session.abandoned

theorem Rests.step {reply : Req → Reply} (hrests : session.Rests session') {result : α}
    (hresult : session.result? = some result) {last : Session μ τ Req Reply ε α}
    (hstep : SessionStep reply session' last answers) :
    session.Rests last ∧ ∀ entry ∈ answers, entry.1 ∈ session.abandoned := by
  obtain ⟨hexchanges, hcurrent, hawaiting, habandoned⟩ := hrests
  have hdone : session'.current = .done result :=
    hcurrent.trans (Program.result?_eq_some.mp hresult)
  cases hstep with
  | sent _ hcall _ | delivered hcall _ | failed _ hcall _ =>
      rw [hdone] at hcall
      cases hcall
  | served hawaited =>
      rw [hawaiting] at hawaited
      cases hawaited
  | @servedLate before after request hsplit =>
      rw [hsplit] at habandoned
      refine ⟨⟨hexchanges, hcurrent, hawaiting, ?_⟩, ?_⟩
      · intro other hmem
        apply habandoned
        exact ((List.sublist_cons_self request after).append_left before).subset hmem
      · intro entry hentry
        cases List.mem_singleton.mp hentry
        exact habandoned (by simp)

end Session

namespace Service

variable {s middle : Service σ μ τ Req Reply ε α}

/-- In every run, each request of a session was served once or not at all, and the answered ones
were served in the order of the session. -/
theorem once_run {server : σ} {events : List (ServiceEvent μ τ ε)}
    (hrun : run handle body server events = some s) {index : ℕ}
    {session : Session μ τ Req Reply ε α} (hsession : s.sessions[index]? = some session) :
    session.Once (s.servedTo index) :=
  (session_induction Session.once_start (fun _ _ _ _ _ honce hstep => honce.step hstep) hrun).2
    index session hsession

/-- A run adds to the log, and for a session that had ended before it adds only requests of it
that have failed. -/
theorem log_grows {server : σ} {first second : List (ServiceEvent μ τ ε)}
    (hmiddle : run handle body server first = some middle)
    (hrun : run handle body server (first ++ second) = some s) :
    ∃ later, s.log = middle.log ++ later ∧ ∀ index session result,
      middle.sessions[index]? = some session → session.result? = some result →
        (∃ session', s.sessions[index]? = some session' ∧ session.Rests session') ∧
          ∀ served ∈ later, served.index = index → served.request ∈ session.abandoned := by
  obtain ⟨start, hstart, hsecond⟩ := runTrace_append_eq_some.mp hrun
  cases hmiddle.symm.trans hstart
  obtain ⟨_, hsound⟩ := sound_run hmiddle
  apply runTrace_invariant (motive := fun s : Service σ μ τ Req Reply ε α =>
    ∃ later, s.log = middle.log ++ later ∧ ∀ index session result,
      middle.sessions[index]? = some session → session.result? = some result →
        (∃ session', s.sessions[index]? = some session' ∧ session.Rests session') ∧
          ∀ served ∈ later, served.index = index → served.request ∈ session.abandoned)
    _ _ hsecond
  · refine ⟨[], (List.append_nil _).symm, ?_⟩
    intro index session result hsession hresult
    have hawaiting := (hsound index session hsession).awaiting_eq_none hresult
    exact ⟨⟨session, hsession, rfl, rfl, hawaiting, fun _ hmem => hmem⟩, by simp⟩
  · rintro s event next ⟨later, hlog, hended⟩ hstep
    cases step_eq_some hstep with
    | start method =>
        refine ⟨later, hlog, ?_⟩
        intro index session result hsession hresult
        obtain ⟨⟨session', hnow, hrests⟩, hserved⟩ := hended index session result hsession hresult
        obtain ⟨hindex, _⟩ := List.getElem?_eq_some_iff.mp hnow
        refine ⟨⟨session', ?_, hrests⟩, hserved⟩
        rw [List.getElem?_append_left hindex]
        exact hnow
    | @session owner before after answers hbefore hdoes =>
        refine ⟨later ++ answers.map fun entry => ⟨owner, entry.1, entry.2⟩, ?_, ?_⟩
        · simp [hlog]
        · intro index session result hsession hresult
          obtain ⟨⟨session', hnow, hrests⟩, hserved⟩ := hended index session result hsession hresult
          obtain ⟨hindex, _⟩ := List.getElem?_eq_some_iff.mp hnow
          by_cases howner : owner = index
          · subst howner
            cases hbefore.symm.trans hnow
            obtain ⟨hrests', hlate⟩ := hrests.step hresult hdoes
            refine ⟨⟨after, by simp [hindex], hrests'⟩, ?_⟩
            intro served hmem howned
            rcases List.mem_append.mp hmem with hmem | hmem
            · exact hserved served hmem howned
            · obtain ⟨entry, hentry, rfl⟩ := List.mem_map.mp hmem
              exact hlate entry hentry
          · refine ⟨⟨session', ?_, hrests⟩, ?_⟩
            · rw [List.getElem?_set_ne howner]
              exact hnow
            · intro served hmem howned
              rcases List.mem_append.mp hmem with hmem | hmem
              · exact hserved served hmem howned
              · obtain ⟨_, _, rfl⟩ := List.mem_map.mp hmem
                exact absurd howned howner

end Service

end Redloop
