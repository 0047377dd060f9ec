/-
# Runs of a partial step function

A machine is a step function that may refuse a label in a state. It runs along a
list of labels and stops at the first refusal, which is the monadic fold of its
step. Facts about runs come from one induction: what holds at the start and is
kept by every step, given the run before it, holds wherever a run ends.
-/

import Mathlib.Data.List.Induction

namespace Redloop

variable {σ α : Type*} {step : σ → α → Option σ} {start state : σ}

/-- The state a run along the labels ends in. -/
def runTrace (step : σ → α → Option σ) (start : σ) (labels : List α) : Option σ :=
  labels.foldlM step start

@[simp]
theorem runTrace_nil : runTrace step start [] = some start := rfl

/-- A run along two traces runs along the second from where the first ends. -/
theorem runTrace_append_eq_some {first second : List α} :
    runTrace step start (first ++ second) = some state ↔
      ∃ middle, runTrace step start first = some middle ∧
        runTrace step middle second = some state := by
  simp only [runTrace, List.foldlM_append, Option.bind_eq_bind, Option.bind_eq_some_iff]

/-- The first step of a run. -/
theorem runTrace_cons_eq_some {label : α} {rest : List α} :
    runTrace step start (label :: rest) = some state ↔
      ∃ middle, step start label = some middle ∧ runTrace step middle rest = some state := by
  simp only [runTrace, List.foldlM_cons, Option.bind_eq_bind, Option.bind_eq_some_iff]

/-- The last step of a run. -/
theorem runTrace_concat_eq_some {first : List α} {label : α} :
    runTrace step start (first ++ [label]) = some state ↔
      ∃ middle, runTrace step start first = some middle ∧ step middle label = some state := by
  rw [runTrace_append_eq_some]
  simp only [runTrace_cons_eq_some, runTrace_nil, Option.some.injEq, exists_eq_right]

/-- The induction rule of runs, with the trace so far at hand. -/
theorem runTrace_induction {motive : List α → σ → Prop} (initial : motive [] start)
    (advance : ∀ first middle label next, runTrace step start first = some middle →
      motive first middle → step middle label = some next → motive (first ++ [label]) next)
    {labels : List α} (hrun : runTrace step start labels = some state) :
    motive labels state := by
  induction labels using List.reverseRecOn generalizing state with
  | nil =>
      cases hrun
      exact initial
  | append_singleton first label ih =>
      obtain ⟨middle, hfirst, hstep⟩ := runTrace_concat_eq_some.mp hrun
      exact advance first middle label state hfirst (ih hfirst) hstep

/-- An invariant of the start and of every step holds wherever a run ends. -/
theorem runTrace_invariant {motive : σ → Prop} (initial : motive start)
    (advance : ∀ middle label next, motive middle → step middle label = some next →
      motive next)
    {labels : List α} (hrun : runTrace step start labels = some state) : motive state := by
  apply runTrace_induction (motive := fun _ middle => motive middle) initial _ hrun
  intro _ middle label next _ hmiddle hstep
  exact advance middle label next hmiddle hstep

end Redloop
