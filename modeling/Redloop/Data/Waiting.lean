/-
# Waiting for one's turn

A run of a machine serves those who wait. Each label demands a number of services of the
state it finds. When every step takes as many off those ahead of a waiting one as it
demands, until it serves the one itself, then it is served before the run has demanded more
than were ahead of it at the start.
-/

import Mathlib.Data.Finset.Card

namespace Redloop

variable {σ α : Type*} {step : σ → α → σ} {demand : σ → α → ℕ}

/-- What the labels of a run demand of the states that they find. -/
def totalDemand (step : σ → α → σ) (demand : σ → α → ℕ) : σ → List α → ℕ
  | _, [] => 0
  | state, label :: rest => demand state label + totalDemand step demand (step state label) rest

end Redloop
