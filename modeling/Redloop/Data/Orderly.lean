/-
# Requests that are served in order

A failed request can be served at any later time, so the requests of a session need not
be served in the order in which it makes them. They are for a program that makes no
further request of some kind once one of that kind has failed: those of this kind that
were served are the answered ones, in their order, and then at most one more, which is
the last that was made.
-/

import Redloop.Data.Service

namespace Redloop

universe u

variable {σ μ τ Req Reply ε β : Type*} {α : Type u} {handle : σ → Req → σ × Reply}
  {body : μ → Program τ Req (Except ε Reply) α}

variable (kind : Req → Option β)

/-- The served requests of a kind, with their replies. -/
def ofKind (served : List (Req × Reply)) : List (β × Reply) :=
  served.filterMap fun entry => (kind entry.1).map (·, entry.2)

/-- The requests of a kind that were answered, with their replies. -/
def answeredOf (exchanges : List (Req × Except ε Reply)) : List (β × Reply) :=
  exchanges.filterMap fun exchange => exchange.2.toOption.bind fun reply =>
    (kind exchange.1).map (·, reply)

/-- The requests of a kind that have failed. -/
def failedOf (exchanges : List (Req × Except ε Reply)) : List β :=
  exchanges.filterMap fun exchange => if exchange.2.isOk then none else kind exchange.1

variable {kind}

@[simp]
theorem ofKind_concat (served : List (Req × Reply)) (request : Req) (reply : Reply) :
    ofKind kind (served ++ [(request, reply)]) =
      ofKind kind served ++ ((kind request).map (·, reply)).toList := by
  rw [ofKind, ofKind, List.filterMap_append]
  cases hkind : kind request <;> simp [hkind]

@[simp]
theorem answeredOf_concat_ok (exchanges : List (Req × Except ε Reply)) (request : Req)
    (reply : Reply) :
    answeredOf kind (exchanges ++ [(request, .ok reply)]) =
      answeredOf kind exchanges ++ ((kind request).map (·, reply)).toList := by
  rw [answeredOf, answeredOf, List.filterMap_append]
  cases hkind : kind request <;> simp [Except.toOption, hkind]

@[simp]
theorem answeredOf_concat_error (exchanges : List (Req × Except ε Reply)) (request : Req)
    (error : ε) :
    answeredOf kind (exchanges ++ [(request, .error error)]) = answeredOf kind exchanges := by
  simp [answeredOf, Except.toOption]

@[simp]
theorem failedOf_concat_ok (exchanges : List (Req × Except ε Reply)) (request : Req)
    (reply : Reply) :
    failedOf kind (exchanges ++ [(request, .ok reply)]) = failedOf kind exchanges := by
  simp [failedOf, Except.isOk, Except.toBool]

@[simp]
theorem failedOf_concat_error (exchanges : List (Req × Except ε Reply)) (request : Req)
    (error : ε) :
    failedOf kind (exchanges ++ [(request, .error error)]) =
      failedOf kind exchanges ++ (kind request).toList := by
  rw [failedOf, failedOf, List.filterMap_append]
  cases hkind : kind request <;> simp [Except.isOk, Except.toBool, hkind]

/-- A response to a request of another kind is not among them. -/
theorem answeredOf_concat_of_none (exchanges : List (Req × Except ε Reply)) {request : Req}
    (hkind : kind request = none) (response : Except ε Reply) :
    answeredOf kind (exchanges ++ [(request, response)]) = answeredOf kind exchanges := by
  cases response <;> simp [hkind]

theorem failedOf_concat_of_none (exchanges : List (Req × Except ε Reply)) {request : Req}
    (hkind : kind request = none) (response : Except ε Reply) :
    failedOf kind (exchanges ++ [(request, response)]) = failedOf kind exchanges := by
  cases response <;> simp [hkind]

theorem mem_ofKind {served : List (Req × Reply)} {item : β} {reply : Reply} :
    (item, reply) ∈ ofKind kind served ↔
      ∃ request, (request, reply) ∈ served ∧ kind request = some item := by
  simp [ofKind]

theorem mem_failedOf {exchanges : List (Req × Except ε Reply)} {item : β} :
    item ∈ failedOf kind exchanges ↔
      ∃ request error, (request, .error error) ∈ exchanges ∧ kind request = some item := by
  simp only [failedOf, List.mem_filterMap, Prod.exists]
  constructor
  · rintro ⟨request, response | reply, hmem, hitem⟩
    · exact ⟨request, response, hmem, by simpa [Except.isOk, Except.toBool] using hitem⟩
    · simp [Except.isOk, Except.toBool] at hitem
  · rintro ⟨request, error, hmem, hkind⟩
    exact ⟨request, .error error, hmem, by simpa [Except.isOk, Except.toBool] using hkind⟩

variable (kind)

/-- After a request of the kind has failed, the program makes no more of them. -/
def Careful (program : Program τ Req (Except ε Reply) α) : Prop :=
  program.Meets (fun exchanges request => (kind request).isSome → failedOf kind exchanges = [])
    (fun _ _ => True) []

namespace Session

variable {session session' : Session μ τ Req Reply ε α} {served answers : List (Req × Reply)}
  {tail : List (β × Reply)}

/-- The requests of the kind without an answer: the failed ones and the awaited one. -/
def opened (session : Session μ τ Req Reply ε α) : List β :=
  failedOf kind session.exchanges ++
    (session.awaiting.bind fun awaited => kind awaited.1).toList

/-- The requests of the kind that are not served yet. -/
def unserved (session : Session μ τ Req Reply ε α) : List β :=
  session.abandoned.filterMap kind ++
    (session.awaiting.bind fun awaited => if awaited.2.isNone then kind awaited.1 else none).toList

/-- The served requests of the kind are the answered ones in their order, and then at most
one that is not answered. -/
structure Orderly (session : Session μ τ Req Reply ε α) (served : List (Req × Reply))
    (tail : List (β × Reply)) : Prop where
  served_eq : ofKind kind served = answeredOf kind session.exchanges ++ tail
  opened_eq : session.opened kind = tail.map Prod.fst ++ session.unserved kind
  opened_le : (session.opened kind).length ≤ 1
  tail_of_awaiting : ∀ request reply item, session.awaiting = some (request, some reply) →
    kind request = some item → tail = [(item, reply)]

variable {kind}

/-- Without a failure no request of the kind is abandoned. -/
theorem Sound.filterMap_abandoned (hsound : session.Sound body served)
    (hnone : failedOf kind session.exchanges = []) : session.abandoned.filterMap kind = [] := by
  apply List.filterMap_eq_nil_iff.mpr
  intro request hmem
  obtain ⟨error, hfailed⟩ := hsound.failed_of_abandoned request hmem
  rw [Option.eq_none_iff_forall_ne_some]
  intro item hitem
  have hmem : item ∈ failedOf kind session.exchanges := mem_failedOf.mpr ⟨_, _, hfailed, hitem⟩
  rw [hnone] at hmem
  cases hmem

theorem orderly_start (method : μ) :
    (Session.start body method).Orderly kind ([] : List (Req × Reply)) [] where
  served_eq := rfl
  opened_eq := rfl
  opened_le := by simp [opened, failedOf, start]
  tail_of_awaiting := by simp [start]

/-- A single open request is the one that the session waits for. -/
theorem Orderly.of_awaiting (horderly : session.Orderly kind served tail)
    (hsound : session.Sound body served) {request : Req} {answer : Option Reply} {item : β}
    (hawaiting : session.awaiting = some (request, answer)) (hkind : kind request = some item) :
    failedOf kind session.exchanges = [] ∧ session.abandoned.filterMap kind = [] ∧
      session.opened kind = [item] := by
  have hopened : session.opened kind = failedOf kind session.exchanges ++ [item] := by
    simp [opened, hawaiting, hkind]
  have hle := horderly.opened_le
  rw [hopened, List.length_append, List.length_singleton] at hle
  have hnone : failedOf kind session.exchanges = [] := List.length_eq_zero_iff.mp (by omega)
  exact ⟨hnone, hsound.filterMap_abandoned hnone, by rw [hopened, hnone, List.nil_append]⟩

theorem Orderly.step {reply : Req → Reply} (horderly : session.Orderly kind served tail)
    (hsound : session.Sound body served) (hcareful : Careful kind (body session.method))
    (hstep : Service.SessionStep reply session session' answers) :
    ∃ tail', session'.Orderly kind (served ++ answers) tail' := by
  cases hstep with
  | @sent ask next time hcurrent hawaiting =>
      rw [List.append_nil]
      cases hkind : kind (ask time) with
      | none =>
          refine ⟨tail, horderly.served_eq, ?_, ?_, by simp⟩
          · simpa [opened, unserved, hawaiting, hkind] using horderly.opened_eq
          · simpa [opened, hawaiting, hkind] using horderly.opened_le
      | some item =>
          have hmeets := hcareful.of_reaches hsound.reaches
          rw [hcurrent] at hmeets
          have hnone := (hmeets time).1 (by rw [hkind]; rfl)
          have habandoned := hsound.filterMap_abandoned hnone
          have htail : tail = [] := by
            have hopened := horderly.opened_eq
            simpa [opened, hawaiting, hnone, unserved, habandoned] using hopened
          subst htail
          refine ⟨[], horderly.served_eq, ?_, ?_, by simp⟩
          · simp [opened, unserved, hnone, habandoned, hkind]
          · simp [opened, hnone, hkind]
  | @served request hawaiting =>
      cases hkind : kind request with
      | none =>
          refine ⟨tail, ?_, ?_, ?_, ?_⟩
          · simpa [hkind] using horderly.served_eq
          · simpa [opened, unserved, hawaiting, hkind] using horderly.opened_eq
          · simpa [opened, hawaiting, hkind] using horderly.opened_le
          · rintro _ _ item ⟨⟩ hitem
            rw [hkind] at hitem
            cases hitem
      | some item =>
          obtain ⟨hnone, habandoned, hopened⟩ := horderly.of_awaiting hsound hawaiting hkind
          have htail : tail = [] := by
            have heq := horderly.opened_eq
            simpa [hopened, unserved, habandoned, hawaiting, hkind] using heq
          subst htail
          refine ⟨[(item, reply request)], ?_, ?_, ?_, ?_⟩
          · simp [horderly.served_eq, hkind]
          · simp [opened, unserved, hnone, habandoned, hkind]
          · simp [opened, hnone, hkind]
          · rintro _ _ other ⟨⟩ hother
            rw [hkind] at hother
            cases hother
            rfl
  | @delivered ask next request answer hcurrent hawaiting =>
      rw [List.append_nil]
      cases hkind : kind request with
      | none =>
          refine ⟨tail, ?_, ?_, ?_, by simp⟩
          · simpa [hkind] using horderly.served_eq
          · simpa [opened, unserved, hawaiting, hkind] using horderly.opened_eq
          · simpa [opened, hawaiting, hkind] using horderly.opened_le
      | some item =>
          obtain ⟨hnone, habandoned, _⟩ := horderly.of_awaiting hsound hawaiting hkind
          obtain rfl := horderly.tail_of_awaiting request answer item hawaiting hkind
          refine ⟨[], ?_, ?_, ?_, by simp⟩
          · simpa [hkind] using horderly.served_eq
          · simp [opened, unserved, hnone, habandoned]
          · simp [opened, hnone]
  | @failed ask next request answer error hcurrent hawaiting =>
      rw [List.append_nil]
      have hopened : session.opened kind =
          failedOf kind (session.exchanges ++ [(request, .error error)]) := by
        simp [opened, hawaiting]
      refine ⟨tail, ?_, ?_, ?_, by simp⟩
      · simpa using horderly.served_eq
      · have heq := horderly.opened_eq
        rw [hopened] at heq
        cases answer <;> cases hkind : kind request <;> simp_all [opened, unserved]
      · have hle := horderly.opened_le
        rw [hopened] at hle
        simpa [opened] using hle
  | @servedLate before after request hsplit =>
      cases hkind : kind request with
      | none =>
          refine ⟨tail, ?_, ?_, ?_, horderly.tail_of_awaiting⟩
          · simpa [hkind] using horderly.served_eq
          · simpa [opened, unserved, hsplit, hkind] using horderly.opened_eq
          · simpa [opened] using horderly.opened_le
      | some item =>
          -- the failed request is the only open one
          have heq := horderly.opened_eq
          have hle := horderly.opened_le
          simp only [heq, unserved, hsplit, List.filterMap_append, List.filterMap_cons, hkind,
            List.length_append, List.length_map, List.length_cons] at hle
          have htail : tail = [] := List.length_eq_zero_iff.mp (by omega)
          have hbefore : before.filterMap kind = [] := List.length_eq_zero_iff.mp (by omega)
          have hafter : after.filterMap kind = [] := List.length_eq_zero_iff.mp (by omega)
          subst htail
          refine ⟨[(item, reply request)], ?_, ?_, horderly.opened_le, ?_⟩
          · simp [horderly.served_eq, hkind]
          · simpa [opened, unserved, hsplit, hkind, hbefore, hafter] using heq
          · intro other answer otherItem hawaiting hother
            obtain ⟨_, habandoned, _⟩ := horderly.of_awaiting hsound hawaiting hother
            simp [hsplit, hkind] at habandoned

end Session

namespace Service

variable {kind} {s : Service σ μ τ Req Reply ε α} {index : ℕ} {session : Session μ τ Req Reply ε α}

/-- In every run, the requests of a kind that were served for a session whose program is
careful with them are those that were answered, in their order, and then at most one that was
not. -/
theorem orderly_run {server : σ} {events : List (ServiceEvent μ τ ε)}
    (hrun : run handle body server events = some s) (hsession : s.sessions[index]? = some session)
    (hcareful : Careful kind (body session.method)) :
    session.Sound body (s.servedTo index) ∧
      ∃ tail, session.Orderly kind (s.servedTo index) tail := by
  have hrule := session_induction (motive := fun session served =>
    session.Sound body served ∧
      (Careful kind (body session.method) → ∃ tail, session.Orderly kind served tail))
    (fun method => ⟨Session.sound_start method, fun _ => ⟨[], Session.orderly_start method⟩⟩)
    (by
      rintro session session' served reply answers ⟨hsound, hall⟩ hstep
      refine ⟨hsound.step hstep, fun hcareful => ?_⟩
      have hmethod : session'.method = session.method := by cases hstep <;> rfl
      rw [hmethod] at hcareful
      obtain ⟨tail, horderly⟩ := hall hcareful
      exact horderly.step hsound hcareful hstep)
    hrun
  obtain ⟨hsound, horderly⟩ := hrule.2 index session hsession
  exact ⟨hsound, horderly hcareful⟩

end Service

end Redloop
