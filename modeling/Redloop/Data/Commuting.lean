/-
# Steps that commute

The labels of a machine use resources, and two labels that share none commute. Then only the
order in which each resource is used matters: two runs that use every resource by the same
labels in the same order end in the same state, and give the same answers to the labels of
each key.
-/

import Mathlib.Data.List.Basic
import Mathlib.Logic.Function.Basic

namespace Redloop

variable {σ α ρ κ β : Type*} {step : σ → α → σ} {good : σ → Prop} {uses : α → ρ → Bool}

/-- Two labels share no resource. -/
def Independent (uses : α → ρ → Bool) (first second : α) : Prop :=
  ∀ resource, uses first resource → ¬ uses second resource

/-- The labels of a run that use a resource, in order. -/
def usersOf (uses : α → ρ → Bool) (resource : ρ) (labels : List α) : List α :=
  labels.filter fun label => uses label resource

/-- Two runs use every resource by the same labels in the same order. -/
def SameUses (uses : α → ρ → Bool) (first second : List α) : Prop :=
  ∀ resource, usersOf uses resource first = usersOf uses resource second

/-- The good states stay good, and in them the steps of independent labels commute. -/
structure Commutes (step : σ → α → σ) (good : σ → Prop) (uses : α → ρ → Bool) : Prop where
  kept : ∀ state label, good state → good (step state label)
  commute : ∀ state first second, good state → Independent uses first second →
    step (step state first) second = step (step state second) first

/-! ## The users of a resource -/

theorem usersOf_cons_of_uses {label : α} {resource : ρ} (huses : uses label resource)
    (labels : List α) :
    usersOf uses resource (label :: labels) = label :: usersOf uses resource labels :=
  List.filter_cons_of_pos huses

theorem usersOf_cons_of_not_uses {label : α} {resource : ρ} (huses : ¬ uses label resource)
    (labels : List α) : usersOf uses resource (label :: labels) = usersOf uses resource labels :=
  List.filter_cons_of_neg huses

theorem usersOf_append (resource : ρ) (first second : List α) :
    usersOf uses resource (first ++ second) =
      usersOf uses resource first ++ usersOf uses resource second :=
  List.filter_append ..

theorem mem_usersOf {label : α} {resource : ρ} {labels : List α} :
    label ∈ usersOf uses resource labels ↔ label ∈ labels ∧ uses label resource :=
  List.mem_filter

/-! ## Reordering -/

/-- A label that is independent of a run can come before or after it. -/
theorem foldl_step_of_independent (hcommutes : Commutes step good uses) {state : σ}
    (hgood : good state) {label : α} {labels : List α}
    (hindependent : ∀ other ∈ labels, Independent uses label other) :
    labels.foldl step (step state label) = step (labels.foldl step state) label := by
  induction labels generalizing state with
  | nil => rfl
  | cons other rest ih =>
      obtain ⟨hother, hrest⟩ := List.forall_mem_cons.mp hindependent
      calc rest.foldl step (step (step state label) other)
          = rest.foldl step (step (step state other) label) := by
            rw [hcommutes.commute state label other hgood hother]
        _ = step (rest.foldl step (step state other)) label :=
            ih (hcommutes.kept state other hgood) hrest

/-- The first label of a run stands in every run with the same uses behind labels that are
independent of it. -/
theorem SameUses.exists_split (hsome : ∀ label, ∃ resource, uses label resource) {label : α}
    {rest second : List α} (hsame : SameUses uses (label :: rest) second) :
    ∃ before after, second = before ++ label :: after ∧
      (∀ other ∈ before, Independent uses label other) ∧
        SameUses uses rest (before ++ after) := by
  obtain ⟨used, hused⟩ := hsome label
  have hfirst := hsame used
  rw [usersOf_cons_of_uses hused] at hfirst
  obtain ⟨before, after, rfl, hbefore, _, _⟩ := List.filter_eq_cons_iff.mp hfirst.symm
  have hindependent : ∀ other ∈ before, Independent uses label other := by
    intro other hmem resource huses hother
    have hfound := hsame resource
    rw [usersOf_cons_of_uses huses, usersOf_append] at hfound
    -- the first label that uses the resource is the given one, and it is not among these
    cases hprior : usersOf uses resource before with
    | nil =>
        have hused := mem_usersOf.mpr ⟨hmem, hother⟩
        rw [hprior] at hused
        cases hused
    | cons found others =>
        rw [hprior] at hfound
        obtain ⟨rfl, _⟩ := List.cons.inj hfound
        have hbetween : label ∈ usersOf uses resource before := hprior ▸ List.mem_cons_self
        exact hbefore label (mem_usersOf.mp hbetween).1 hused
  refine ⟨before, after, rfl, hindependent, fun resource => ?_⟩
  have hrest := hsame resource
  rw [usersOf_append] at hrest ⊢
  by_cases huses : uses label resource
  · have hnone : usersOf uses resource before = [] :=
      List.filter_eq_nil_iff.mpr fun other hmem => hindependent other hmem resource huses
    rw [usersOf_cons_of_uses huses, usersOf_cons_of_uses huses, hnone] at hrest
    rw [hnone]
    exact (List.cons.inj hrest).2
  · rwa [usersOf_cons_of_not_uses huses, usersOf_cons_of_not_uses huses] at hrest

/-- Runs with the same uses end in the same state. -/
theorem foldl_eq_of_sameUses (hcommutes : Commutes step good uses)
    (hsome : ∀ label, ∃ resource, uses label resource) {state : σ} (hgood : good state)
    {first second : List α} (hsame : SameUses uses first second) :
    first.foldl step state = second.foldl step state := by
  induction first generalizing state second with
  | nil =>
      cases second with
      | nil => rfl
      | cons label rest =>
          obtain ⟨resource, huses⟩ := hsome label
          have hnone := hsame resource
          rw [usersOf_cons_of_uses huses] at hnone
          cases hnone
  | cons label rest ih =>
      obtain ⟨before, after, rfl, hindependent, hrest⟩ := hsame.exists_split hsome
      calc rest.foldl step (step state label)
          = (before ++ after).foldl step (step state label) :=
            ih (hcommutes.kept state label hgood) hrest
        _ = after.foldl step (step (before.foldl step state) label) := by
            rw [List.foldl_append, foldl_step_of_independent hcommutes hgood hindependent]
        _ = (before ++ label :: after).foldl step state := by
            rw [List.foldl_append, List.foldl_cons]

/-! ## Answers -/

section Answers

variable [DecidableEq κ] (step) (reply : σ → α → β) (key : α → κ)

/-- The answers that a run gives to the labels of a key. -/
def answersTo (wanted : κ) : σ → List α → List β
  | _, [] => []
  | state, label :: rest =>
      (if key label = wanted then [reply state label] else []) ++
        answersTo wanted (step state label) rest

/-- A step that also writes down what it answers. -/
def answeringStep (state : σ × (κ → List β)) (label : α) : σ × (κ → List β) :=
  (step state.1 label,
    Function.update state.2 (key label) (state.2 (key label) ++ [reply state.1 label]))

/-- A run writes its answers down. -/
theorem foldl_answeringStep (labels : List α) (state : σ) (written : κ → List β) :
    labels.foldl (answeringStep step reply key) (state, written) =
      (labels.foldl step state,
        fun wanted => written wanted ++ answersTo step reply key wanted state labels) := by
  induction labels generalizing state written with
  | nil => simp [answersTo]
  | cons label rest ih =>
      rw [List.foldl_cons, answeringStep, ih, List.foldl_cons]
      refine Prod.ext rfl (funext fun wanted => ?_)
      by_cases hkey : key label = wanted
      · subst hkey
        simp [answersTo]
      · simp [answersTo, hkey, Function.update_of_ne (Ne.symm hkey)]

variable {step reply key}

/-- Runs with the same uses give the same answers to the labels of each key, when independent
labels have different keys and do not change each other's answers. -/
theorem answersTo_eq_of_sameUses (hcommutes : Commutes step good uses)
    (hsome : ∀ label, ∃ resource, uses label resource)
    (hkeys : ∀ first second, Independent uses first second → key first ≠ key second)
    (hreplies : ∀ state first second, good state → Independent uses first second →
      reply (step state first) second = reply state second)
    {state : σ} (hgood : good state) {first second : List α}
    (hsame : SameUses uses first second) (wanted : κ) :
    answersTo step reply key wanted state first = answersTo step reply key wanted state second := by
  have hanswering : Commutes (answeringStep step reply key) (fun state => good state.1) uses := by
    refine ⟨fun state label hgood => hcommutes.kept state.1 label hgood, ?_⟩
    rintro ⟨state, written⟩ first second hgood hindependent
    have hne := hkeys first second hindependent
    have hother : Independent uses second first := fun resource hsecond hfirst =>
      hindependent resource hfirst hsecond
    refine Prod.ext (hcommutes.commute state first second hgood hindependent) ?_
    simp only [answeringStep, Function.update_of_ne hne, Function.update_of_ne hne.symm,
      hreplies state first second hgood hindependent,
      hreplies state second first hgood hother]
    exact Function.update_comm hne _ _ _
  have hrun : first.foldl (answeringStep step reply key) (state, fun _ => []) =
      second.foldl (answeringStep step reply key) (state, fun _ => []) :=
    foldl_eq_of_sameUses hanswering hsome hgood hsame
  rw [foldl_answeringStep, foldl_answeringStep] at hrun
  exact congrFun (congrArg Prod.snd hrun) wanted

end Answers

end Redloop
