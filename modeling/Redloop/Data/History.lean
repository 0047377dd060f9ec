/-
# Justified histories

A history lists what has happened, the latest entry last. It is justified when
every entry has its cause among the entries before it. Appending justified entries
keeps it so, and a chain of causes stands in a history in its order.
-/

import Mathlib.Data.List.Induction

namespace Redloop

variable {α : Type*} {justifies : List α → α → Prop} {history added : List α} {entry : α}

/-- Every entry of a history is justified by the entries before it. -/
def Justified (justifies : List α → α → Prop) (history : List α) : Prop :=
  ∀ before entry after, history = before ++ entry :: after → justifies before entry

namespace Justified

theorem nil : Justified justifies [] := by
  intro before entry after hsplit
  simp at hsplit

/-- A history grows by an entry that it justifies. -/
theorem concat (hhistory : Justified justifies history) (hentry : justifies history entry) :
    Justified justifies (history ++ [entry]) := by
  intro before other after hsplit
  rcases List.eq_nil_or_concat after with rfl | ⟨middle, last, rfl⟩
  · obtain ⟨rfl, hsame⟩ := List.append_inj' hsplit rfl
    cases hsame
    exact hentry
  · have hsplit : history ++ [entry] = (before ++ other :: middle) ++ [last] := by
      simpa using hsplit
    obtain ⟨hbefore, _⟩ := List.append_inj' hsplit rfl
    exact hhistory before other middle hbefore

/-- A history grows by entries that it justifies, whatever follows it. -/
theorem append (hhistory : Justified justifies history)
    (hadded : ∀ entry ∈ added, ∀ more, justifies (history ++ more) entry) :
    Justified justifies (history ++ added) := by
  induction added using List.reverseRecOn with
  | nil => rwa [List.append_nil]
  | append_singleton first last ih =>
      rw [← List.append_assoc]
      apply concat
      · exact ih fun entry hmem => hadded entry (List.mem_append_left _ hmem)
      · exact hadded last (by simp) first

/-- A weaker justification. -/
theorem mono {justifies' : List α → α → Prop} (hhistory : Justified justifies history)
    (hweaker : ∀ before entry, justifies before entry → justifies' before entry) :
    Justified justifies' history := by
  intro before entry after hsplit
  exact hweaker before entry (hhistory before entry after hsplit)

/-- The first part of a justified history is justified. -/
theorem of_append (hhistory : Justified justifies (history ++ added)) :
    Justified justifies history := by
  intro before entry after hsplit
  apply hhistory before entry (after ++ added)
  rw [hsplit, List.append_assoc, List.cons_append]

/-- What stands in a history was justified when it happened. -/
theorem of_mem (hhistory : Justified justifies history) (hmem : entry ∈ history) :
    ∃ before after, history = before ++ entry :: after ∧ justifies before entry := by
  obtain ⟨before, after, hsplit⟩ := List.append_of_mem hmem
  exact ⟨before, after, hsplit, hhistory before entry after hsplit⟩

end Justified

/-- A chain is continued by an entry that happens after it. -/
theorem sublist_concat_of_split {chain before after : List α}
    (hchain : chain.Sublist before) (hsplit : history = before ++ entry :: after) :
    (chain ++ [entry]).Sublist history := by
  rw [hsplit]
  apply hchain.append
  exact List.singleton_sublist.mpr List.mem_cons_self

/-- A chain that does not start in the first part of a history is in its second part. -/
theorem sublist_of_sublist_append {chain before after : List α}
    (hchain : (entry :: chain).Sublist (before ++ after)) (hnot : entry ∉ before) :
    (entry :: chain).Sublist after := by
  induction before with
  | nil => exact hchain
  | cons first rest ih =>
      rw [List.mem_cons, not_or] at hnot
      cases hchain with
      | cons _ hrest => exact ih hrest hnot.2
      | cons_cons _ _ => exact absurd rfl hnot.1

end Redloop
