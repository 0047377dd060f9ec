/-
# Paging through a growing list

A long list is read in pages of equal size, each page from the list as it is when it is
read. Between the pages the list may grow at its end. Read until a page reaches the end
of its list, the pages together are the list that the last of them was read from.
-/

import Mathlib.Data.List.Basic
import Mathlib.Order.Bounds.Basic
import Mathlib.Order.Nat

namespace Redloop

universe u

variable {α : Type u}

/-! ## Pages -/

/-- The page with a given number, counted from zero, of a list that is read in pages. -/
def pageOf (entries : List α) (limit page : ℕ) : List α :=
  (entries.drop (page * limit)).take limit

/-- The first pages of a list are its first entries. -/
theorem flatMap_pageOf (entries : List α) (limit pages : ℕ) :
    (List.range pages).flatMap (pageOf entries limit) = entries.take (pages * limit) := by
  induction pages with
  | zero => simp
  | succ pages ih =>
      rw [List.range_succ, List.flatMap_append, List.flatMap_singleton, ih, pageOf,
        Nat.succ_mul, List.take_add]

/-- A page that a list has in full is the same page of every longer list. -/
theorem pageOf_eq_of_isPrefix {first second : List α} (hbegins : first <+: second)
    {limit page : ℕ} (hfull : (page + 1) * limit ≤ first.length) :
    pageOf first limit page = pageOf second limit page := by
  obtain ⟨added, rfl⟩ := hbegins
  have hsize : (page + 1) * limit = page * limit + limit := Nat.succ_mul page limit
  rw [pageOf, pageOf, List.drop_append_of_le_length (by omega), List.take_append_of_le_length]
  rw [List.length_drop]
  omega

/-- A page that a list has in full has as many entries as a page can have. -/
theorem length_pageOf {entries : List α} {limit page : ℕ}
    (hfull : (page + 1) * limit ≤ entries.length) : (pageOf entries limit page).length = limit := by
  have hsize : (page + 1) * limit = page * limit + limit := Nat.succ_mul page limit
  rw [pageOf, List.length_take_of_le]
  rw [List.length_drop]
  omega

/-! ## A list that grows -/

section Growing

variable {entries : ℕ → List α} {limit last : ℕ}

/-- A list that only grows has every earlier list as a prefix. -/
theorem prefix_of_le (hgrows : ∀ page, entries page <+: entries (page + 1)) {first second : ℕ}
    (hle : first ≤ second) : entries first <+: entries second := by
  induction second, hle using Nat.le_induction with
  | base => exact List.prefix_rfl
  | succ second _ ih => exact ih.trans (hgrows second)

/-- Some page of a list that grows up to a bound reaches the end of its list. -/
theorem exists_isLeast_lastPage (hlimit : 0 < limit)
    (hbounded : ∃ bound, ∀ page, (entries page).length ≤ bound) :
    ∃ last, IsLeast {page | (entries page).length ≤ (page + 1) * limit} last := by
  obtain ⟨bound, hbound⟩ := hbounded
  have hreached : ∃ page, (entries page).length ≤ (page + 1) * limit :=
    ⟨bound, (hbound bound).trans (Nat.le_trans (Nat.le_succ bound)
      (Nat.le_mul_of_pos_right _ hlimit))⟩
  classical
  exact ⟨Nat.find hreached, Nat.find_spec hreached, fun _ hpage => Nat.find_min' hreached hpage⟩

/-- The page before the last is read from a list that goes on after it. -/
theorem lt_length_of_lt_last
    (hlast : IsLeast {page | (entries page).length ≤ (page + 1) * limit} last) {page : ℕ}
    (hlt : page < last) : (page + 1) * limit < (entries page).length :=
  not_le.mp fun hle => absurd (hlast.2 hle) (not_le.mpr hlt)

/-- The pages of a growing list, up to the first that reaches the end, are the list that
this page is read from. -/
theorem flatMap_pageOf_growing (hgrows : ∀ page, entries page <+: entries (page + 1))
    (hlast : IsLeast {page | (entries page).length ≤ (page + 1) * limit} last) :
    ((List.range (last + 1)).flatMap fun page => pageOf (entries page) limit page) =
      entries last := by
  have hpages : ∀ page ∈ List.range (last + 1),
      pageOf (entries page) limit page = pageOf (entries last) limit page := by
    intro page hmem
    rcases (Nat.lt_succ_iff.mp (List.mem_range.mp hmem)).eq_or_lt with rfl | hlt
    · rfl
    · exact pageOf_eq_of_isPrefix (prefix_of_le hgrows hlt.le) (lt_length_of_lt_last hlast hlt).le
  calc ((List.range (last + 1)).flatMap fun page => pageOf (entries page) limit page)
      = (List.range (last + 1)).flatMap (pageOf (entries last) limit) :=
        List.flatMap_congr hpages
    _ = (entries last).take ((last + 1) * limit) := flatMap_pageOf _ _ _
    _ = entries last := List.take_of_length_le hlast.1

end Growing

/-! ## Growing in order -/

/-- A sorted list whose further entries all come later is continued by the list with them. -/
theorem prefix_of_later [LinearOrder α] {first second : List α}
    (hfirst : first.Pairwise (· < ·)) (hsecond : second.Pairwise (· < ·))
    (hkept : first ⊆ second)
    (hlater : ∀ entry ∈ second, entry ∉ first → ∀ existing ∈ first, existing < entry) :
    first <+: second := by
  induction first generalizing second with
  | nil => exact List.nil_prefix
  | cons entry rest ih =>
      cases second with
      | nil => exact absurd (hkept List.mem_cons_self) List.not_mem_nil
      | cons other others =>
          have hrest := (List.pairwise_cons.mp hfirst).1
          have hothers := (List.pairwise_cons.mp hsecond).1
          -- the least entry of the second list is no further one
          obtain rfl : entry = other := by
            rcases List.mem_cons.mp (hkept List.mem_cons_self) with heq | hmem
            · exact heq
            · have hlt : other < entry := hothers entry hmem
              have hnew : other ∉ entry :: rest := by
                intro hother
                rcases List.mem_cons.mp hother with rfl | hother
                · exact lt_irrefl _ hlt
                · exact lt_asymm hlt (hrest other hother)
              exact absurd (hlater other List.mem_cons_self hnew entry List.mem_cons_self)
                (lt_asymm hlt)
          have hmem {existing : α} (hexisting : existing ∈ rest) : existing ∈ others := by
            rcases List.mem_cons.mp (hkept (List.mem_cons_of_mem _ hexisting)) with rfl | hmem
            · exact absurd (hrest _ hexisting) (lt_irrefl _)
            · exact hmem
          refine (List.prefix_cons_inj entry).mpr
            (ih hfirst.of_cons hsecond.of_cons (fun _ => hmem) ?_)
          intro further hfurther hnew existing hexisting
          refine hlater further (List.mem_cons_of_mem _ hfurther) ?_ existing
            (List.mem_cons_of_mem _ hexisting)
          intro hfound
          rcases List.mem_cons.mp hfound with rfl | hfound
          · exact lt_irrefl _ (hothers _ hfurther)
          · exact hnew hfound

end Redloop
