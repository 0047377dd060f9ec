/-
# Counting what moves

The members of several classes are counted one class after the other, while the items move
from class to class. An item that stays in its class is counted once. Each move makes an
item be missed or be counted once more, so the counts differ from the number of items at
the start by at most the number of moves.
-/

import Mathlib.Algebra.BigOperators.Group.Finset.Piecewise
import Mathlib.Algebra.Order.BigOperators.Group.Finset
import Mathlib.Algebra.Ring.Nat

namespace Redloop

/-- One count: the class that is counted, and the classes of the items at that time. -/
structure Reading (α κ : Type*) where
  counted : κ
  place : α → Option κ

variable {α κ : Type*} [DecidableEq κ]

/-! ## One item -/

/-- An item is counted when it has the counted class. -/
def Reading.Counts (reading : Reading α κ) (item : α) : Prop :=
  reading.place item = some reading.counted

instance (reading : Reading α κ) (item : α) : Decidable (reading.Counts item) := by
  unfold Reading.Counts
  infer_instance

/-- How often an item is counted. -/
def timesCounted (item : α) : List (Reading α κ) → ℕ
  | [] => 0
  | reading :: rest => (if reading.Counts item then 1 else 0) + timesCounted item rest

/-- How often an item has another class than at the reading before. -/
def timesMoved (item : α) : (α → Option κ) → List (Reading α κ) → ℕ
  | _, [] => 0
  | before, reading :: rest =>
      (if reading.place item ≠ before item then 1 else 0) + timesMoved item reading.place rest

/-- A class is still to be counted. -/
def ToCount (readings : List (Reading α κ)) (place : Option κ) : Prop :=
  ∃ reading ∈ readings, place = some reading.counted

instance (readings : List (Reading α κ)) (place : Option κ) :
    Decidable (ToCount readings place) := by
  unfold ToCount
  infer_instance

omit [DecidableEq κ] in
theorem toCount_iff {readings : List (Reading α κ)} {place : Option κ} :
    ToCount readings place ↔ ∃ counted ∈ readings.map Reading.counted, place = some counted := by
  simp [ToCount]

variable {item : α} {before : α → Option κ} {readings : List (Reading α κ)}

omit [DecidableEq κ] in
/-- The class of an item that is counted was still to be counted. -/
theorem toCount_of_counts {reading : Reading α κ} (rest : List (Reading α κ))
    (hcounts : reading.Counts item) : ToCount (reading :: rest) (reading.place item) :=
  ⟨reading, List.mem_cons_self, hcounts⟩

omit [DecidableEq κ] in
/-- The class of an item that is not counted is still to be counted if it was. -/
theorem toCount_of_not_counts {reading : Reading α κ} {rest : List (Reading α κ)}
    (hcounts : ¬ reading.Counts item) :
    ToCount (reading :: rest) (reading.place item) ↔ ToCount rest (reading.place item) := by
  simp only [ToCount, List.exists_mem_cons_iff]
  exact or_iff_right hcounts

/-- An item is counted once for its class and at most once more for each move. -/
theorem timesCounted_le (hnodup : (readings.map Reading.counted).Nodup) :
    timesCounted item readings ≤
      (if ToCount readings (before item) then 1 else 0) + timesMoved item before readings := by
  induction readings generalizing before with
  | nil => exact Nat.zero_le _
  | cons reading rest ih =>
      rw [List.map_cons, List.nodup_cons] at hnodup
      have hrest : timesCounted item rest ≤
          (if ToCount rest (reading.place item) then 1 else 0) +
            timesMoved item reading.place rest := ih hnodup.2
      have honce (hcounts : reading.Counts item) : ¬ ToCount rest (reading.place item) := by
        rintro ⟨other, hmem, hplace⟩
        have hsame : reading.counted = other.counted :=
          Option.some.inj (hcounts.symm.trans hplace)
        exact hnodup.1 (hsame ▸ List.mem_map_of_mem hmem)
      have hcounted : timesCounted item (reading :: rest) ≤
          (if ToCount (reading :: rest) (reading.place item) then 1 else 0) +
            timesMoved item reading.place rest := by
        rw [timesCounted]
        by_cases hcounts : reading.Counts item
        · rw [if_neg (honce hcounts)] at hrest
          rw [if_pos hcounts, if_pos (toCount_of_counts rest hcounts)]
          omega
        · simpa only [hcounts, toCount_of_not_counts hcounts, if_false, Nat.zero_add] using hrest
      rw [timesMoved]
      by_cases hmoved : reading.place item = before item
      · rwa [if_neg (not_not.mpr hmoved), Nat.zero_add, ← hmoved]
      · rw [if_pos hmoved]
        split_ifs at hcounted ⊢ <;> omega

/-- An item whose class is counted is counted or moves. -/
theorem le_timesCounted_add :
    (if ToCount readings (before item) then 1 else 0) ≤
      timesCounted item readings + timesMoved item before readings := by
  induction readings generalizing before with
  | nil => simp [ToCount]
  | cons reading rest ih =>
      have hrest : (if ToCount rest (reading.place item) then 1 else 0) ≤
          timesCounted item rest + timesMoved item reading.place rest := ih
      rw [timesCounted, timesMoved]
      by_cases hmoved : reading.place item = before item
      · rw [← hmoved]
        by_cases hcounts : reading.Counts item
        · rw [if_pos hcounts, if_pos (toCount_of_counts rest hcounts)]
          omega
        · simpa only [hcounts, toCount_of_not_counts hcounts, ne_eq, not_true_eq_false, if_false,
            Nat.zero_add] using hrest
      · rw [if_pos hmoved]
        split_ifs <;> omega

/-! ## All items -/

variable {items : Finset α}

/-- How many items are counted at a reading. -/
def Reading.count (reading : Reading α κ) (items : Finset α) : ℕ :=
  (items.filter reading.Counts).card

/-- How many times an item of the set is counted. -/
theorem sum_timesCounted (items : Finset α) (readings : List (Reading α κ)) :
    ∑ item ∈ items, timesCounted item readings =
      (readings.map fun reading => reading.count items).sum := by
  induction readings with
  | nil => exact Finset.sum_const_zero
  | cons reading rest ih =>
      rw [List.map_cons, List.sum_cons, ← ih, Reading.count, Finset.card_filter,
        ← Finset.sum_add_distrib]
      rfl

/-- The items that have different classes at two times. -/
def moved (items : Finset α) (before after : α → Option κ) : Finset α :=
  items.filter fun item => after item ≠ before item

/-- How many times an item of the set moves between the readings. -/
def totalMoved (items : Finset α) : (α → Option κ) → List (Reading α κ) → ℕ
  | _, [] => 0
  | before, reading :: rest =>
      (moved items before reading.place).card + totalMoved items reading.place rest

theorem sum_timesMoved (items : Finset α) (before : α → Option κ)
    (readings : List (Reading α κ)) :
    ∑ item ∈ items, timesMoved item before readings = totalMoved items before readings := by
  induction readings generalizing before with
  | nil => exact Finset.sum_const_zero
  | cons reading rest ih =>
      rw [totalMoved, ← ih, moved, Finset.card_filter, ← Finset.sum_add_distrib]
      rfl

/-- Every item that moves has moved on the way. -/
theorem card_moved_le [DecidableEq α] (items : Finset α) (first second third : α → Option κ) :
    (moved items first third).card ≤
      (moved items first second).card + (moved items second third).card := by
  refine le_trans (Finset.card_le_card ?_) (Finset.card_union_le _ _)
  intro item hmem
  obtain ⟨hitem, hmoved⟩ := Finset.mem_filter.mp hmem
  rw [Finset.mem_union]
  by_cases hsame : second item = first item
  · exact Or.inr (Finset.mem_filter.mpr ⟨hitem, hsame ▸ hmoved⟩)
  · exact Or.inl (Finset.mem_filter.mpr ⟨hitem, hsame⟩)

/-- The counts exceed the number of the items with a counted class by at most the moves. -/
theorem sum_count_le (hnodup : (readings.map Reading.counted).Nodup) :
    (readings.map fun reading => reading.count items).sum ≤
      (items.filter fun item => ToCount readings (before item)).card +
        totalMoved items before readings := by
  rw [← sum_timesCounted, ← sum_timesMoved, Finset.card_filter, ← Finset.sum_add_distrib]
  exact Finset.sum_le_sum fun _ _ => timesCounted_le hnodup

/-- The counts fall short of it by at most the moves. -/
theorem card_le_sum_count :
    (items.filter fun item => ToCount readings (before item)).card ≤
      (readings.map fun reading => reading.count items).sum + totalMoved items before readings := by
  rw [← sum_timesCounted, ← sum_timesMoved, Finset.card_filter, ← Finset.sum_add_distrib]
  exact Finset.sum_le_sum fun _ _ => le_timesCounted_add

/-! ## Counting along a run -/

section Run

variable {σ ι : Type*} (step : σ → ι → σ) (place : σ → α → Option κ)

/-- How many times an item of the set moves in the steps of a run. -/
def movesOf (items : Finset α) : σ → List ι → ℕ
  | _, [] => 0
  | state, label :: rest =>
      (moved items (place state) (place (step state label))).card +
        movesOf items (step state label) rest

/-- The items that a run has moved in the end have moved in its steps. -/
theorem card_moved_foldl_le [DecidableEq α] (items : Finset α) (state : σ) (labels : List ι) :
    (moved items (place state) (place (labels.foldl step state))).card ≤
      movesOf step place items state labels := by
  induction labels generalizing state with
  | nil => simp [moved, movesOf]
  | cons label rest ih =>
      exact (card_moved_le items _ (place (step state label)) _).trans
        (Nat.add_le_add_left (ih (step state label)) _)

theorem movesOf_append (items : Finset α) (state : σ) (first second : List ι) :
    movesOf step place items state (first ++ second) =
      movesOf step place items state first +
        movesOf step place items (first.foldl step state) second := by
  induction first generalizing state with
  | nil => exact (Nat.zero_add _).symm
  | cons label rest ih =>
      rw [List.cons_append, movesOf, ih, movesOf, List.foldl_cons, Nat.add_assoc]

/-- Count one class after the other, with the steps of a run after each count. -/
def readingsAlong : σ → List (κ × List ι) → List (Reading α κ)
  | _, [] => []
  | state, (counted, labels) :: rest =>
      ⟨counted, place state⟩ :: readingsAlong (labels.foldl step state) rest

omit [DecidableEq κ] in
theorem counted_readingsAlong (state : σ) (counts : List (κ × List ι)) :
    (readingsAlong step place state counts).map Reading.counted = counts.map Prod.fst := by
  induction counts generalizing state with
  | nil => rfl
  | cons count rest ih => exact congrArg (count.1 :: ·) (ih _)

/-- What moves between the counts moves in the steps of the run. -/
theorem totalMoved_readingsAlong_le [DecidableEq α] (items : Finset α) (state : σ)
    (labels : List ι) (counts : List (κ × List ι)) :
    totalMoved items (place state) (readingsAlong step place (labels.foldl step state) counts) ≤
      movesOf step place items state (labels ++ counts.flatMap Prod.snd) := by
  induction counts generalizing state labels with
  | nil => exact Nat.zero_le _
  | cons count rest ih =>
      have hlabels := card_moved_foldl_le step place items state labels
      have hrest := ih (labels.foldl step state) count.2
      rw [movesOf_append, List.flatMap_cons]
      exact Nat.add_le_add hlabels hrest

end Run

end Redloop
