/-
# Hash slots

A Redis Cluster places a key by its hash tag: the text between the first opening
brace and the next closing one, when it is not empty, and otherwise the whole
key. The keys of a namespace have their slot in braces, so they share the tag
unless an empty pair of braces comes first: one in the key prefix, or the one
around the slot of the empty name.
-/

import Mathlib.Data.List.TakeWhile
import Redloop.Keyspace.Keys

namespace Redloop

/-- The part of a key that decides where a cluster keeps it. -/
def hashInput (key : Bytes) : Bytes :=
  match key.dropWhile (· ≠ openBrace) with
  | [] => key
  | _ :: rest =>
      if closeBrace ∈ rest ∧ rest.takeWhile (· ≠ closeBrace) ≠ [] then
        rest.takeWhile (· ≠ closeBrace)
      else key

/-- All keys of a namespace are placed together. -/
def NamespaceKeys.SameSlot (keys : NamespaceKeys) : Prop :=
  ∀ kind other, hashInput (keys.key kind) = hashInput (keys.key other)

instance (keys : NamespaceKeys) : Decidable keys.SameSlot :=
  inferInstanceAs (Decidable (∀ _ _, _ = _))

/-- The first braces of the namespace's keys are not empty. -/
def HasHashTag (keyPrefix namespaceName : Bytes) : Prop :=
  match keyPrefix.dropWhile (· ≠ openBrace) with
  | [] => namespaceName ≠ []
  | _ :: rest => rest.head? ≠ some closeBrace

instance (keyPrefix namespaceName : Bytes) : Decidable (HasHashTag keyPrefix namespaceName) := by
  unfold HasHashTag
  split <;> infer_instance

/-- The text in the first braces of the namespace's keys. -/
def hashTag (keyPrefix namespaceName : Bytes) : Bytes :=
  match keyPrefix.dropWhile (· ≠ openBrace) with
  | [] => hexBytes namespaceName
  | _ :: rest => (rest ++ openBrace :: hexBytes namespaceName).takeWhile (· ≠ closeBrace)

theorem hashTag_ne_nil_iff (keyPrefix namespaceName : Bytes) :
    hashTag keyPrefix namespaceName ≠ [] ↔ HasHashTag keyPrefix namespaceName := by
  unfold hashTag HasHashTag
  split
  · cases namespaceName <;> simp [hexBytes, hexByte]
  · next rest _ =>
      cases rest with
      | nil => simp [openBrace, closeBrace]
      | cons first rest =>
          by_cases hclosed : first = closeBrace
          · simp [hclosed]
          · simp [hclosed]

/-- A text before a closing brace is read up to its own first one. -/
theorem takeWhile_append_closeBrace (text rest : Bytes) :
    (text ++ closeBrace :: rest).takeWhile (· ≠ closeBrace) =
      text.takeWhile (· ≠ closeBrace) := by
  induction text with
  | nil => simp
  | cons byte text ih =>
      by_cases hclosed : byte = closeBrace
      · simp [hclosed]
      · simpa [hclosed] using ih

/-- The keys of a namespace are placed by their tag, or one by one without it. -/
theorem hashInput_key (keyPrefix namespaceName : Bytes) (kind : KeyKind) :
    hashInput ((namespaceKeys keyPrefix namespaceName).key kind) =
      if hashTag keyPrefix namespaceName ≠ [] then hashTag keyPrefix namespaceName
      else (namespaceKeys keyPrefix namespaceName).key kind := by
  have hslot : (hexBytes namespaceName).takeWhile (· ≠ closeBrace) = hexBytes namespaceName := by
    rw [List.takeWhile_eq_self_iff]
    intro byte hbyte
    have hne : byte ≠ closeBrace := ne_of_mem_of_not_mem hbyte (not_mem_hexBytes (by decide))
    simpa using hne
  unfold hashInput hashTag
  rw [key_namespaceKeys]
  cases hprefix : keyPrefix.dropWhile (· ≠ openBrace) with
  | nil =>
      have hnone : ∀ byte ∈ keyPrefix, byte ≠ openBrace := by
        simpa using List.dropWhile_eq_nil_iff.mp hprefix
      rw [List.dropWhile_append_of_pos (by simpa using hnone)]
      simp only [ne_eq, not_true_eq_false, decide_false, Bool.false_eq_true, not_false_eq_true,
        List.dropWhile_cons_of_neg, takeWhile_append_closeBrace, hslot]
      simp
  | cons brace rest =>
      have hdrop : (keyPrefix ++ openBrace ::
          (hexBytes namespaceName ++ closeBrace :: colon :: kind.suffix)).dropWhile
            (· ≠ openBrace) =
          brace :: (rest ++ openBrace :: hexBytes namespaceName ++
            closeBrace :: colon :: kind.suffix) := by
        rw [List.dropWhile_append, hprefix]
        simp
      rw [hdrop]
      simp only [takeWhile_append_closeBrace]
      simp

/-- The keys of a namespace share a slot exactly when their first braces are not
empty. -/
theorem sameSlot_iff (keyPrefix namespaceName : Bytes) :
    (namespaceKeys keyPrefix namespaceName).SameSlot ↔ HasHashTag keyPrefix namespaceName := by
  rw [← hashTag_ne_nil_iff]
  constructor
  · intro hsame htag
    have hkeys := hsame .cfg .ready
    rw [hashInput_key, hashInput_key, if_neg (not_not.mpr htag), if_neg (not_not.mpr htag),
      key_namespaceKeys_inj] at hkeys
    cases hkeys.2.2
  · intro htag kind other
    rw [hashInput_key, hashInput_key, if_pos htag, if_pos htag]

/-- A prefix with an empty pair of braces spreads the keys of a namespace. -/
theorem not_sameSlot_of_empty_braces : ¬ (namespaceKeys "app{}" "jobs").SameSlot := by decide

end Redloop
