/-
# Sorted sets

A sorted set keeps one score for each member and lists its members by score,
ties broken by the member itself. It is stored as the list it enumerates, with
the order and the uniqueness of members as fields, so a set that lists a member
twice or out of order cannot be built.

Two sorted sets that give every member the same score are equal. Every
operation is therefore determined by its effect on scores, and later modules
reason about scores alone.
-/

import Mathlib.Data.Finset.Dedup
import Mathlib.Data.List.Sort
import Mathlib.Data.Prod.Lex
import Mathlib.Order.Bounds.Basic
import Mathlib.Order.Lattice

namespace Redloop

universe u v

/-- Members with scores, listed in increasing `(score, member)` order. -/
@[ext]
structure SortedSet (σ : Type u) (α : Type v) [LinearOrder σ] [LinearOrder α] where
  /-- The entries in the order a range query returns them. -/
  entries : List (σ ×ₗ α)
  /-- Entries are listed by score, then by member. -/
  sorted : entries.Pairwise (· < ·)
  /-- No member has two scores. -/
  members_nodup : (entries.map fun entry => (ofLex entry).2).Nodup

namespace SortedSet

variable {σ : Type u} {α : Type v} [LinearOrder σ] [LinearOrder α]

instance : DecidableEq (SortedSet σ α) := fun first second =>
  decidable_of_iff (first.entries = second.entries) SortedSet.ext_iff.symm

/-- The set without members. -/
def empty : SortedSet σ α := ⟨[], List.Pairwise.nil, List.nodup_nil⟩

instance : EmptyCollection (SortedSet σ α) := ⟨empty⟩

/-- The score of a member, if it is one. -/
def score (set : SortedSet σ α) (member : α) : Option σ :=
  (set.entries.find? fun entry => (ofLex entry).2 = member).map fun entry => (ofLex entry).1

/-- Remove a member. A value that is not a member leaves the set as it is. -/
def erase (set : SortedSet σ α) (member : α) : SortedSet σ α where
  entries := set.entries.filter fun entry => (ofLex entry).2 ≠ member
  sorted := set.sorted.filter _
  members_nodup := set.members_nodup.sublist (List.filter_sublist.map _)

/-- Give a member a score, replacing the score it had. -/
def add (set : SortedSet σ α) (member : α) (value : σ) : SortedSet σ α where
  entries := (set.erase member).entries.orderedInsert (· ≤ ·) (toLex (value, member))
  sorted := by
    have hperm := List.perm_orderedInsert (· ≤ ·) (toLex (value, member)) (set.erase member).entries
    have hle := List.Pairwise.orderedInsert (r := (· ≤ ·)) (toLex (value, member)) _
      ((set.erase member).sorted.imp le_of_lt)
    have hnodup : (toLex (value, member) :: (set.erase member).entries).Nodup :=
      List.nodup_cons.mpr ⟨by simp [erase], (set.erase member).sorted.imp ne_of_lt⟩
    exact hle.imp₂ (fun _ _ => lt_of_le_of_ne) (hperm.nodup_iff.mpr hnodup)
  members_nodup := by
    have hperm := (List.perm_orderedInsert (· ≤ ·) (toLex (value, member))
      (set.erase member).entries).map fun entry => (ofLex entry).2
    refine hperm.nodup_iff.mpr (List.nodup_cons.mpr ⟨?_, (set.erase member).members_nodup⟩)
    simp [erase]

/-- The entries whose score satisfies a bound, in order. -/
def rangeByScore (set : SortedSet σ α) (bound : σ → Bool) : List (σ ×ₗ α) :=
  set.entries.filter fun entry => bound (ofLex entry).1

/-- The members without their scores. -/
def members (set : SortedSet σ α) : Finset α :=
  (set.entries.map fun entry => (ofLex entry).2).toFinset

/-- How many members there are. -/
def card (set : SortedSet σ α) : ℕ := set.entries.length

/-- Two entries of one member are the same entry. -/
theorem eq_of_mem_of_member_eq {set : SortedSet σ α} {first second : σ ×ₗ α}
    (hfirst : first ∈ set.entries) (hsecond : second ∈ set.entries)
    (hmember : (ofLex first).2 = (ofLex second).2) : first = second :=
  List.inj_on_of_nodup_map set.members_nodup hfirst hsecond hmember

/-- A score is read off the one entry of its member. -/
theorem score_eq_some_iff {set : SortedSet σ α} {member : α} {value : σ} :
    set.score member = some value ↔ toLex (value, member) ∈ set.entries := by
  constructor
  · intro hscore
    obtain ⟨entry, hfind, rfl⟩ := Option.map_eq_some_iff.mp hscore
    have hmem := List.mem_of_find?_eq_some hfind
    have hmember : (ofLex entry).2 = member := by simpa using List.find?_some hfind
    subst hmember
    exact hmem
  · intro hmem
    cases hfind : set.entries.find? fun entry => (ofLex entry).2 = member with
    | none => simpa using List.find?_eq_none.mp hfind _ hmem
    | some entry =>
        have hmember : (ofLex entry).2 = member := by simpa using List.find?_some hfind
        have hentry := eq_of_mem_of_member_eq (List.mem_of_find?_eq_some hfind) hmem hmember
        simp [score, hfind, hentry]

theorem mem_entries_iff {set : SortedSet σ α} {entry : σ ×ₗ α} :
    entry ∈ set.entries ↔ set.score (ofLex entry).2 = some (ofLex entry).1 :=
  score_eq_some_iff.symm

/-- A member keeps its score in a set that continues the entries. -/
theorem score_eq_some_of_isPrefix {first second : SortedSet σ α}
    (hbegins : first.entries <+: second.entries) {member : α} {value : σ}
    (hscore : first.score member = some value) : second.score member = some value :=
  score_eq_some_iff.mpr (hbegins.subset (score_eq_some_iff.mp hscore))

/-- A sorted set is determined by its scores. -/
theorem ext_score {first second : SortedSet σ α}
    (hscore : ∀ member, first.score member = second.score member) : first = second := by
  have hmem (entry : σ ×ₗ α) : entry ∈ first.entries ↔ entry ∈ second.entries := by
    rw [mem_entries_iff, mem_entries_iff, hscore]
  have hperm : first.entries.Perm second.entries :=
    (List.perm_ext_iff_of_nodup (first.sorted.imp ne_of_lt) (second.sorted.imp ne_of_lt)).mpr hmem
  refine SortedSet.ext (hperm.eq_of_pairwise ?_ first.sorted second.sorted)
  intro _ _ _ _ hlt hgt
  exact absurd hlt hgt.asymm

@[simp]
theorem score_empty (member : α) : (∅ : SortedSet σ α).score member = none := rfl

theorem score_erase (set : SortedSet σ α) (member other : α) :
    (set.erase member).score other = if other = member then none else set.score other := by
  apply Option.ext
  intro value
  rw [score_eq_some_iff]
  by_cases hother : other = member
  · simp [erase, hother]
  · simp [erase, hother, score_eq_some_iff]

@[simp]
theorem score_erase_self (set : SortedSet σ α) (member : α) :
    (set.erase member).score member = none := by
  simp [score_erase]

@[simp]
theorem score_erase_of_ne (set : SortedSet σ α) {member other : α} (hne : other ≠ member) :
    (set.erase member).score other = set.score other := by
  simp [score_erase, hne]

theorem score_add (set : SortedSet σ α) (member other : α) (value : σ) :
    (set.add member value).score other =
      if other = member then some value else set.score other := by
  apply Option.ext
  intro found
  rw [score_eq_some_iff]
  simp only [add, List.mem_orderedInsert, ← score_eq_some_iff, score_erase]
  by_cases hother : other = member
  · simp [hother, eq_comm]
  · simp [hother]

@[simp]
theorem score_add_self (set : SortedSet σ α) (member : α) (value : σ) :
    (set.add member value).score member = some value := by
  simp [score_add]

@[simp]
theorem score_add_of_ne (set : SortedSet σ α) {member other : α} (value : σ)
    (hne : other ≠ member) : (set.add member value).score other = set.score other := by
  simp [score_add, hne]

theorem mem_members {set : SortedSet σ α} {member : α} :
    member ∈ set.members ↔ (set.score member).isSome := by
  rw [members, List.mem_toFinset, List.mem_map, Option.isSome_iff_exists]
  constructor
  · rintro ⟨entry, hmem, rfl⟩
    exact ⟨_, mem_entries_iff.mp hmem⟩
  · rintro ⟨value, hscore⟩
    exact ⟨_, score_eq_some_iff.mp hscore, rfl⟩

/-- Erasing a member makes the set smaller. -/
theorem card_erase_lt {set : SortedSet σ α} {member : α} {value : σ}
    (hscore : set.score member = some value) : (set.erase member).card < set.card := by
  refine List.length_filter_lt_length_iff_exists.mpr ?_
  exact ⟨toLex (value, member), score_eq_some_iff.mp hscore, by simp⟩

/-- The first entry of a range is its least entry. -/
theorem head?_rangeByScore_eq_some_iff {set : SortedSet σ α} {bound : σ → Bool}
    {entry : σ ×ₗ α} :
    (set.rangeByScore bound).head? = some entry ↔
      set.score (ofLex entry).2 = some (ofLex entry).1 ∧ bound (ofLex entry).1 ∧
        ∀ member value, set.score member = some value → bound value →
          entry ≤ toLex (value, member) := by
  have hsorted : (set.rangeByScore bound).Pairwise (· < ·) := set.sorted.filter _
  have hmem (other : σ ×ₗ α) : other ∈ set.rangeByScore bound ↔
      set.score (ofLex other).2 = some (ofLex other).1 ∧ bound (ofLex other).1 := by
    simp [rangeByScore, mem_entries_iff]
  constructor
  · intro hhead
    obtain ⟨rest, hrest⟩ := List.head?_eq_some_iff.mp hhead
    have hentry := (hmem entry).mp (by simp [hrest])
    refine ⟨hentry.1, hentry.2, fun member value hscore hbound => ?_⟩
    have hother := (hmem (toLex (value, member))).mpr ⟨hscore, hbound⟩
    rw [hrest] at hother hsorted
    rcases List.mem_cons.mp hother with heq | htail
    · exact heq.ge
    · exact (List.rel_of_pairwise_cons hsorted htail).le
  · rintro ⟨hscore, hbound, hleast⟩
    have hentry := (hmem entry).mpr ⟨hscore, hbound⟩
    cases hrange : set.rangeByScore bound with
    | nil => simp [hrange] at hentry
    | cons first rest =>
        have hfirst := (hmem first).mp (by simp [hrange])
        have hle : entry ≤ first := hleast _ _ hfirst.1 hfirst.2
        rw [hrange] at hentry hsorted
        rcases List.mem_cons.mp hentry with heq | htail
        · simp [heq]
        · exact absurd (List.rel_of_pairwise_cons hsorted htail) hle.not_gt

/-- A range is empty exactly when no score satisfies its bound. -/
theorem head?_rangeByScore_eq_none_iff {set : SortedSet σ α} {bound : σ → Bool} :
    (set.rangeByScore bound).head? = none ↔
      ∀ member value, set.score member = some value → bound value = false := by
  simp only [List.head?_eq_none_iff, rangeByScore, List.filter_eq_nil_iff, Bool.not_eq_true]
  constructor
  · intro hnone member value hscore
    exact hnone (toLex (value, member)) (score_eq_some_iff.mp hscore)
  · intro hnone entry hentry
    exact hnone _ _ (mem_entries_iff.mp hentry)

/-- The first score of a range is the least score within its bound. -/
theorem score_head?_rangeByScore_eq_some_iff {set : SortedSet σ α} {bound : σ → Bool} {value : σ} :
    (set.rangeByScore bound).head?.map (fun entry => (ofLex entry).1) = some value ↔
      IsLeast {score | ∃ member, set.score member = some score ∧ bound score} value := by
  constructor
  · intro hfirst
    obtain ⟨entry, hhead, rfl⟩ := Option.map_eq_some_iff.mp hfirst
    obtain ⟨hscore, hbound, hleast⟩ := head?_rangeByScore_eq_some_iff.mp hhead
    refine ⟨⟨_, hscore, hbound⟩, ?_⟩
    rintro score ⟨member, hmember, hscoreBound⟩
    exact Prod.Lex.monotone_fst _ _ (hleast member score hmember hscoreBound)
  · rintro ⟨⟨member, hscore, hbound⟩, hleast⟩
    cases hhead : (set.rangeByScore bound).head? with
    | none =>
        have hnone := head?_rangeByScore_eq_none_iff.mp hhead member value hscore
        rw [hnone] at hbound
        cases hbound
    | some entry =>
        obtain ⟨hentry, hentryBound, hfirst⟩ := head?_rangeByScore_eq_some_iff.mp hhead
        have hle := Prod.Lex.monotone_fst _ _ (hfirst member value hscore hbound)
        exact congrArg some (le_antisymm hle (hleast ⟨_, hentry, hentryBound⟩))

/-- A range without a first score has no score within its bound. -/
theorem score_head?_rangeByScore_eq_none_iff {set : SortedSet σ α} {bound : σ → Bool} :
    (set.rangeByScore bound).head?.map (fun entry => (ofLex entry).1) = none ↔
      ∀ score, ¬ ∃ member, set.score member = some score ∧ bound score := by
  rw [Option.map_eq_none_iff, head?_rangeByScore_eq_none_iff]
  constructor
  · rintro hnone score ⟨member, hscore, hbound⟩
    rw [hnone member score hscore] at hbound
    cases hbound
  · intro hnone member score hscore
    exact Bool.eq_false_iff.mpr fun hbound => hnone score ⟨member, hscore, hbound⟩

/-- Erasing the first member of a range leaves the rest of the range. -/
theorem rangeByScore_erase_of_cons {set : SortedSet σ α} {bound : σ → Bool} {entry : σ ×ₗ α}
    {rest : List (σ ×ₗ α)} (hrange : set.rangeByScore bound = entry :: rest) :
    (set.erase (ofLex entry).2).rangeByScore bound = rest := by
  have hnodup : ((set.rangeByScore bound).map fun entry => (ofLex entry).2).Nodup :=
    set.members_nodup.sublist (List.filter_sublist.map _)
  rw [hrange, List.map_cons, List.nodup_cons] at hnodup
  calc (set.erase (ofLex entry).2).rangeByScore bound
      = (set.rangeByScore bound).filter fun other => (ofLex other).2 ≠ (ofLex entry).2 :=
        List.filter_comm _ _ _
    _ = rest.filter fun other => (ofLex other).2 ≠ (ofLex entry).2 := by
        rw [hrange, List.filter_cons_of_neg (by simp)]
    _ = rest := List.filter_eq_self.mpr fun other hmem => by
        simp only [ne_eq, decide_eq_true_eq]
        intro hsame
        exact hnodup.1 (hsame ▸ List.mem_map_of_mem hmem)

/-- All entries form the range without a bound. -/
theorem rangeByScore_true (set : SortedSet σ α) :
    set.rangeByScore (fun _ => true) = set.entries := List.filter_true _

end SortedSet

end Redloop
