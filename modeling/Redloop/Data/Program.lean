/-
# Programs that call a server

A program sends requests, one after another, and goes on with the response to each.
A request is made from the time at which it is sent. What a program has exchanged
with its server decides where it is, so a condition on its requests and on its result
that is stated over the exchanges before them can be read off its text: it is checked
at each call and passed along each bind.
-/

import Mathlib.Data.List.Basic

namespace Redloop

universe u

variable {τ Req Resp : Type*} {α β : Type u}

/-- A computation that calls a server: it has ended, or it sends a request and goes on
with the response. -/
inductive Program (τ Req Resp : Type*) (α : Type u)
  | done (result : α)
  | call (request : τ → Req) (next : Resp → Program τ Req Resp α)

namespace Program

variable {program last : Program τ Req Resp α} {exchanges : List (Req × Resp)}

/-- Go on with the result of a program. -/
def bind (program : Program τ Req Resp α) (next : α → Program τ Req Resp β) :
    Program τ Req Resp β :=
  match program with
  | done result => next result
  | call request rest => call request fun response => (rest response).bind next

instance : Monad (Program τ Req Resp) where
  pure := done
  bind := bind

/-- The result of a program that has ended. -/
def result? : Program τ Req Resp α → Option α
  | done result => some result
  | call _ _ => none

theorem result?_eq_some {result : α} : program.result? = some result ↔ program = done result := by
  cases program <;> simp [result?]

/-- Where a program can be after some exchanges. -/
inductive Reaches (program : Program τ Req Resp α) :
    List (Req × Resp) → Program τ Req Resp α → Prop
  | start : Reaches program [] program
  | exchange {exchanges : List (Req × Resp)} {request : τ → Req}
      {next : Resp → Program τ Req Resp α}
      (hreaches : Reaches program exchanges (call request next)) (time : τ) (response : Resp) :
      Reaches program (exchanges ++ [(request time, response)]) (next response)

/-- From the given exchanges on, a program makes only requests that `asks` allows after the
exchanges before them, and ends only with results that `ends` allows. -/
def Meets (asks : List (Req × Resp) → Req → Prop) (ends : List (Req × Resp) → α → Prop) :
    List (Req × Resp) → Program τ Req Resp α → Prop
  | exchanges, done result => ends exchanges result
  | exchanges, call request next =>
      ∀ time, asks exchanges (request time) ∧
        ∀ response, (next response).Meets asks ends (exchanges ++ [(request time, response)])

variable {asks : List (Req × Resp) → Req → Prop} {ends : List (Req × Resp) → α → Prop}

@[simp]
theorem meets_pure (result : α) :
    (pure result : Program τ Req Resp α).Meets asks ends exchanges ↔ ends exchanges result :=
  Iff.rfl

/-- A sequence meets a condition when its first program ends where the second meets it. -/
@[simp]
theorem meets_bind {next : α → Program τ Req Resp β} {ends : List (Req × Resp) → β → Prop} :
    (program >>= next).Meets asks ends exchanges ↔
      program.Meets asks (fun exchanges result => (next result).Meets asks ends exchanges)
        exchanges := by
  change (program.bind next).Meets asks ends exchanges ↔ _
  induction program generalizing exchanges with
  | done result => rfl
  | call request rest ih =>
      apply forall_congr'
      intro time
      apply and_congr_right'
      exact forall_congr' fun response => ih response

/-- A program meets every weaker condition. -/
theorem Meets.mono {asks' : List (Req × Resp) → Req → Prop}
    {ends' : List (Req × Resp) → α → Prop} (hmeets : program.Meets asks ends exchanges)
    (hasks : ∀ exchanges request, asks exchanges request → asks' exchanges request)
    (hends : ∀ exchanges result, ends exchanges result → ends' exchanges result) :
    program.Meets asks' ends' exchanges := by
  induction program generalizing exchanges with
  | done result => exact hends _ _ hmeets
  | call request next ih =>
      intro time
      obtain ⟨hrequest, hnext⟩ := hmeets time
      exact ⟨hasks _ _ hrequest, fun response => ih response (hnext response)⟩

/-- Wherever a program gets to, it meets from there what it meets from its start. -/
theorem Meets.of_reaches (hmeets : program.Meets asks ends [])
    (hreaches : program.Reaches exchanges last) : last.Meets asks ends exchanges := by
  induction hreaches with
  | start => exact hmeets
  | exchange _ time response ih => exact (ih time).2 response

/-- Every request that a program has made was allowed when it was made. -/
theorem Meets.asks_of_reaches (hmeets : program.Meets asks ends [])
    (hreaches : program.Reaches exchanges last) {before after : List (Req × Resp)}
    {exchange : Req × Resp} (hsplit : exchanges = before ++ exchange :: after) :
    asks before exchange.1 := by
  induction hreaches generalizing after with
  | start => simp at hsplit
  | @exchange earlier request next hbefore time response ih =>
      rcases List.eq_nil_or_concat after with rfl | ⟨middle, final, rfl⟩
      · obtain ⟨rfl, hexchange⟩ := List.append_inj' hsplit rfl
        cases hexchange
        exact (hmeets.of_reaches hbefore time).1
      · have hsplit : earlier ++ [(request time, response)] =
            (before ++ exchange :: middle) ++ [final] := by simpa using hsplit
        exact ih (List.append_inj' hsplit rfl).1

/-! ## Programs that can fail -/

variable {ε Reply : Type u} {answers : List (Req × Except ε Reply)}

/-- Send one request and end with the response. -/
def ask (request : τ → Req) : ExceptT ε (Program τ Req (Except ε Reply)) Reply :=
  ExceptT.mk (call request done)

/-- A computation that sends nothing. -/
def ofExcept (result : Except ε α) : ExceptT ε (Program τ Req Resp) α := ExceptT.mk (pure result)

/-- Run a program and go on whether it fails or not. -/
def ignoreError (program : ExceptT ε (Program τ Req Resp) α) :
    ExceptT ε (Program τ Req Resp) PUnit :=
  ExceptT.mk (program.run >>= fun _ => pure (.ok ⟨⟩))

@[simp]
theorem meets_ask {asks : List (Req × Except ε Reply) → Req → Prop}
    {ends : List (Req × Except ε Reply) → Except ε Reply → Prop} {request : τ → Req} :
    (ask request : ExceptT ε (Program τ Req (Except ε Reply)) Reply).run.Meets asks ends answers ↔
      ∀ time, asks answers (request time) ∧
        ∀ response, ends (answers ++ [(request time, response)]) response := Iff.rfl

@[simp]
theorem meets_ofExcept {ends : List (Req × Resp) → Except ε α → Prop} (result : Except ε α) :
    (ofExcept result : ExceptT ε (Program τ Req Resp) α).run.Meets asks ends exchanges ↔
      ends exchanges result := Iff.rfl

@[simp]
theorem meets_run_pure {ends : List (Req × Resp) → Except ε α → Prop} (value : α) :
    (pure value : ExceptT ε (Program τ Req Resp) α).run.Meets asks ends exchanges ↔
      ends exchanges (.ok value) := Iff.rfl

@[simp]
theorem meets_ignoreError {program : ExceptT ε (Program τ Req Resp) α}
    {ends : List (Req × Resp) → Except ε PUnit → Prop} :
    (ignoreError program).run.Meets asks ends exchanges ↔
      program.run.Meets asks (fun exchanges _ => ends exchanges (.ok ⟨⟩)) exchanges := meets_bind

/-- A sequence of programs that can fail ends with the first error. -/
@[simp]
theorem meets_run_bind {first : ExceptT ε (Program τ Req Resp) α}
    {next : α → ExceptT ε (Program τ Req Resp) β}
    {ends : List (Req × Resp) → Except ε β → Prop} :
    (first >>= next).run.Meets asks ends exchanges ↔
      first.run.Meets asks (fun exchanges result =>
        (∀ value, result = .ok value → (next value).run.Meets asks ends exchanges) ∧
          ∀ error, result = .error error → ends exchanges (.error error)) exchanges := by
  rw [ExceptT.run_bind, meets_bind]
  apply iff_of_eq
  congr 1
  funext exchanges result
  cases result <;> simp

/-! ## What programs keep -/

variable {inv : List (Req × Resp) → Prop} {first : ExceptT ε (Program τ Req Resp) α}

/-- A program makes only requests that `asks` allows while `inv` holds of the exchanges, and
`inv` holds when it ends, with a result or an error. -/
def Keeps (asks : List (Req × Resp) → Req → Prop) (inv : List (Req × Resp) → Prop)
    (program : ExceptT ε (Program τ Req Resp) α) : Prop :=
  ∀ exchanges, inv exchanges → program.run.Meets asks (fun exchanges _ => inv exchanges) exchanges

theorem keeps_pure (value : α) :
    Keeps asks inv (pure value : ExceptT ε (Program τ Req Resp) α) := fun _ hinv => hinv

theorem keeps_ofExcept (result : Except ε α) :
    Keeps asks inv (ofExcept result : ExceptT ε (Program τ Req Resp) α) := fun _ hinv => hinv

/-- A sequence keeps what its programs keep. -/
theorem keeps_bind {next : α → ExceptT ε (Program τ Req Resp) β} (hfirst : Keeps asks inv first)
    (hnext : ∀ value, Keeps asks inv (next value)) : Keeps asks inv (first >>= next) := by
  intro exchanges hinv
  rw [meets_run_bind]
  apply (hfirst exchanges hinv).mono (fun _ _ hasks => hasks)
  intro exchanges result hinv
  exact ⟨fun value _ => hnext value exchanges hinv, fun _ _ => hinv⟩

end Program

end Redloop
