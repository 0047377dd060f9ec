/-
# Characters in byte strings

A text is encoded in UTF-8, where a character takes one to four bytes. Slicing a text at
a byte offset inside a character panics. A byte below 128 is a character by itself, so
a text that is split at such a byte falls into two texts.
-/

import Mathlib.Algebra.Group.Nat.Defs
import Redloop.Data.Bytes

namespace Redloop

/-- Whether a byte starts a character of a UTF-8 text or is one by itself. -/
def StartsCharacter (byte : UInt8) : Prop := byte < 128 ∨ 192 ≤ byte

instance (byte : UInt8) : Decidable (StartsCharacter byte) :=
  inferInstanceAs (Decidable (_ ∨ _))

/-- Split a text before a byte offset, as a slice does. A slice inside a character or
behind the end panics. -/
def splitAtByte (text : Bytes) (offset : ℕ) : Option (Bytes × Bytes) :=
  if offset = 0 ∨ offset ≤ text.length ∧ text[offset]?.all (StartsCharacter ·) then
    some (text.take offset, text.drop offset)
  else none

/-- Two parts of a text are split between them when the second starts with a character. -/
theorem splitAtByte_append {first rest : Bytes} (hrest : rest.head?.all (StartsCharacter ·)) :
    splitAtByte (first ++ rest) first.length = some (first, rest) := by
  unfold splitAtByte
  rw [if_pos]
  · rw [List.take_left, List.drop_left]
  · right
    rw [List.getElem?_append_right le_rfl, Nat.sub_self, ← List.head?_eq_getElem?]
    exact ⟨by simp, hrest⟩

/-! ## Encoded characters -/

/-- A character takes one byte below 128, or it takes a byte that starts a character and
bytes that do not. -/
theorem utf8EncodeChar_cases (char : Char) :
    (∃ byte, String.utf8EncodeChar char = [byte] ∧ byte < 128) ∨
      ∃ byte rest, String.utf8EncodeChar char = byte :: rest ∧ 192 ≤ byte ∧
        ∀ next ∈ rest, 128 ≤ next := by
  have hsmall : (128 : UInt8).toNat = 128 := rfl
  have hlead : (192 : UInt8).toNat = 192 := rfl
  unfold String.utf8EncodeChar
  dsimp only
  split_ifs with hone htwo hthree
  · left
    refine ⟨_, rfl, ?_⟩
    rw [UInt8.lt_iff_toNat_lt, UInt8.toNat_ofNat', hsmall]
    omega
  all_goals
    right
    refine ⟨_, _, rfl, ?_, ?_⟩
    · rw [UInt8.le_iff_toNat_le, UInt8.toNat_ofNat', hlead]
      omega
    · simp only [List.mem_cons, List.not_mem_nil, or_false, forall_eq_or_imp, forall_eq,
        UInt8.le_iff_toNat_le, UInt8.toNat_ofNat', hsmall]
      omega

/-- The first byte of a character starts it. -/
theorem head?_utf8EncodeChar (char : Char) :
    (String.utf8EncodeChar char).head?.all (StartsCharacter ·) := by
  rcases utf8EncodeChar_cases char with ⟨byte, hone, hsmall⟩ | ⟨byte, rest, hmore, hlead, _⟩
  · rw [hone]
    exact decide_eq_true (Or.inl hsmall)
  · rw [hmore]
    exact decide_eq_true (Or.inr hlead)

/-- A byte below 128 in a character is all of it. -/
theorem utf8EncodeChar_eq_singleton {char : Char} {mark : UInt8}
    (hmem : mark ∈ String.utf8EncodeChar char) (hmark : mark < 128) :
    String.utf8EncodeChar char = [mark] := by
  rcases utf8EncodeChar_cases char with ⟨byte, hone, _⟩ | ⟨byte, rest, hmore, hlead, hrest⟩
  · rw [hone, List.mem_singleton] at hmem
    rw [hone, hmem]
  · rw [hmore, List.mem_cons] at hmem
    rcases hmem with rfl | hmem
    · exact absurd (hlead.trans_lt hmark) (by decide)
    · exact absurd (hrest mark hmem) hmark.not_ge

/-! ## Texts -/

/-- A byte string is the encoding of a text. -/
def IsUtf8 (bytes : Bytes) : Prop := ∃ text : String, utf8 text = bytes

/-- A text starts with a character. -/
theorem IsUtf8.head? {bytes : Bytes} (htext : IsUtf8 bytes) :
    bytes.head?.all (StartsCharacter ·) := by
  obtain ⟨text, rfl⟩ := htext
  unfold utf8
  cases text.toList with
  | nil => rfl
  | cons char chars =>
      rw [List.flatMap_cons, List.head?_append_of_ne_nil _ String.utf8EncodeChar_ne_nil]
      exact head?_utf8EncodeChar char

/-- A text is split into two texts at every byte below 128. -/
theorem IsUtf8.split {first rest : Bytes} {mark : UInt8} (hmark : mark < 128)
    (htext : IsUtf8 (first ++ mark :: rest)) : IsUtf8 first ∧ IsUtf8 rest := by
  obtain ⟨text, htext⟩ := htext
  unfold utf8 at htext
  generalize text.toList = chars at htext
  induction chars generalizing first with
  | nil => simp at htext
  | cons char chars ih =>
      rw [List.flatMap_cons] at htext
      rcases List.append_eq_append_iff.mp htext with
        ⟨middle, hfirst, hchars⟩ | ⟨middle, hchar, hrest⟩
      · -- the mark is behind the first character
        obtain ⟨⟨before, hbefore⟩, hafter⟩ := ih hchars
        refine ⟨⟨String.ofList (char :: before.toList), ?_⟩, hafter⟩
        rw [hfirst, ← hbefore, utf8, String.toList_ofList, List.flatMap_cons]
        rfl
      · cases middle with
        | nil =>
            have hchars : chars.flatMap String.utf8EncodeChar = [] ++ mark :: rest := hrest.symm
            obtain ⟨_, hafter⟩ := ih hchars
            refine ⟨⟨String.ofList [char], ?_⟩, hafter⟩
            rw [utf8, String.toList_ofList, List.flatMap_singleton, hchar, List.append_nil]
        | cons head middle =>
            -- the mark is all of the first character
            obtain ⟨rfl, rfl⟩ := List.cons.inj hrest
            have hsingle : String.utf8EncodeChar char = [mark] :=
              utf8EncodeChar_eq_singleton (by simp [hchar]) hmark
            rw [hsingle] at hchar
            cases first with
            | cons => simp at hchar
            | nil =>
                cases hchar
                exact ⟨⟨"", rfl⟩, String.ofList chars, by rw [utf8, String.toList_ofList]; rfl⟩

/-- A text of a client program: UTF-8, and no longer than an allocation may be. -/
structure Text where
  bytes : Bytes
  isUtf8 : IsUtf8 bytes
  length_le : bytes.length ≤ 2 ^ 63 - 1

namespace Text

theorem ext_bytes {first second : Text} (heq : first.bytes = second.bytes) : first = second := by
  cases first
  cases second
  cases heq
  rfl

/-- The text of a literal. -/
def ofString (text : String) (hle : (utf8 text).length ≤ 2 ^ 63 - 1 := by decide) : Text :=
  ⟨utf8 text, ⟨text, rfl⟩, hle⟩

end Text

end Redloop
