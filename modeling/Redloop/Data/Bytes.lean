/-
# Byte strings and decimal numerals

Lua strings and Redis strings are sequences of bytes compared byte by byte, so
identifiers, records and replies are byte lists here, and a string literal
stands for its UTF-8 bytes. Integers cross between programs as decimal
numerals; reading a printed numeral gives the integer back.
-/

import Mathlib.Data.List.Lex
import Mathlib.Order.Lattice

namespace Redloop

/-- Bytes are ordered as unsigned numbers. -/
instance byteLinearOrder : LinearOrder UInt8 where
  le := (· ≤ ·)
  lt := (· < ·)
  le_refl := UInt8.le_refl
  le_trans _ _ _ := UInt8.le_trans
  le_antisymm _ _ := UInt8.le_antisymm
  le_total := UInt8.le_total
  lt_iff_le_not_ge first second := by
    simp only [UInt8.le_iff_toNat_le, UInt8.lt_iff_toNat_lt]
    omega
  toDecidableLE := inferInstance
  toDecidableEq := inferInstance
  toDecidableLT := inferInstance

/-- A byte string. Lists of bytes are compared lexicographically. -/
abbrev Bytes := List UInt8

/-- The UTF-8 encoding of a text. -/
def utf8 (text : String) : Bytes := text.toList.flatMap String.utf8EncodeChar

instance : Coe String Bytes := ⟨utf8⟩

/-- The byte of a colon, which separates the fields of packed records. -/
def colon : UInt8 := 58

/-- The decimal numeral of a natural number. -/
def decimal (n : ℕ) : Bytes := (Nat.toDigits 10 n).map fun digit => digit.toNat.toUInt8

/-- The decimal numeral of an integer. -/
def decimalInt (z : ℤ) : Bytes := if z < 0 then 45 :: decimal z.natAbs else decimal z.natAbs

/-- Read a decimal numeral. Anything but a nonempty run of digits is refused. -/
def parseDecimal (text : Bytes) : Option ℕ :=
  let chars := text.map fun byte => Char.ofNat byte.toNat
  if chars ≠ [] ∧ chars.all Char.isDigit then some (Nat.ofDigitChars 10 chars 0) else none

/-- Read a decimal numeral with an optional sign. -/
def parseDecimalInt : Bytes → Option ℤ
  | 43 :: digits => (parseDecimal digits).map Int.ofNat
  | 45 :: digits => (parseDecimal digits).map fun n : ℕ => -(n : ℤ)
  | digits => (parseDecimal digits).map Int.ofNat

private theorem byte_of_isDigit {digit : Char} (hdigit : digit.isDigit) :
    48 ≤ digit.toNat ∧ digit.toNat ≤ 57 := by
  simp only [Char.isDigit, Bool.and_eq_true, decide_eq_true_eq] at hdigit
  exact hdigit

private theorem isDigit_of_mem_toDigits {n : ℕ} {digit : Char}
    (hmem : digit ∈ Nat.toDigits 10 n) : digit.isDigit :=
  Nat.isDigit_of_mem_toDigits (by decide) (by decide) hmem

/-- Every byte of a numeral is a digit. -/
theorem mem_decimal {n : ℕ} {byte : UInt8} (hmem : byte ∈ decimal n) :
    48 ≤ byte.toNat ∧ byte.toNat ≤ 57 := by
  obtain ⟨digit, hdigit, rfl⟩ := List.mem_map.mp hmem
  have hrange := byte_of_isDigit (isDigit_of_mem_toDigits hdigit)
  rw [Nat.toUInt8, UInt8.toNat_ofNat', Nat.mod_eq_of_lt (by omega)]
  exact hrange

theorem colon_not_mem_decimal (n : ℕ) : colon ∉ decimal n := fun hmem => by
  have hrange := mem_decimal hmem
  simp [colon] at hrange

private theorem chars_decimal (n : ℕ) :
    (decimal n).map (fun byte => Char.ofNat byte.toNat) = Nat.toDigits 10 n := by
  rw [decimal, List.map_map]
  refine (List.map_congr_left fun digit hdigit => ?_).trans (List.map_id _)
  have hrange := byte_of_isDigit (isDigit_of_mem_toDigits hdigit)
  simp only [Function.comp_apply, Nat.toUInt8, UInt8.toNat_ofNat', id_eq]
  rw [Nat.mod_eq_of_lt (by omega), Char.ofNat_toNat]

/-- Reading a printed natural number gives it back. -/
@[simp]
theorem parseDecimal_decimal (n : ℕ) : parseDecimal (decimal n) = some n := by
  have hdigits : (Nat.toDigits 10 n).all Char.isDigit := by
    rw [List.all_eq_true]
    exact fun digit hdigit => isDigit_of_mem_toDigits hdigit
  simp only [parseDecimal, chars_decimal, hdigits]
  simp

/-- Numerals of different numbers differ. -/
theorem decimal_injective : Function.Injective decimal := fun first second heq => by
  have hparse := congrArg parseDecimal heq
  simpa using hparse

/-- Reading a printed integer gives it back. -/
@[simp]
theorem parseDecimalInt_decimalInt (z : ℤ) : parseDecimalInt (decimalInt z) = some z := by
  by_cases hneg : z < 0
  · have habs : -((z.natAbs : ℕ) : ℤ) = z := by omega
    simp only [decimalInt, if_pos hneg, parseDecimalInt, parseDecimal_decimal, Option.map_some,
      habs]
  · have hsign : parseDecimalInt (decimal z.natAbs) =
        (parseDecimal (decimal z.natAbs)).map Int.ofNat := by
      rw [parseDecimalInt]
      · rintro rest hrest
        have hmem : 43 ∈ decimal z.natAbs := by simp [hrest]
        have hrange := mem_decimal hmem
        simp at hrange
      · rintro rest hrest
        have hmem : 45 ∈ decimal z.natAbs := by simp [hrest]
        have hrange := mem_decimal hmem
        simp at hrange
    have habs : Int.ofNat z.natAbs = z := Int.natAbs_of_nonneg (not_lt.mp hneg)
    simp only [decimalInt, if_neg hneg, hsign, parseDecimal_decimal, Option.map_some, habs]

/-- A text with a byte that is not a digit is no numeral. -/
theorem parseDecimal_eq_none_of_mem {text : Bytes} {byte : UInt8} (hmem : byte ∈ text)
    (hbyte : byte.toNat < 48 ∨ 57 < byte.toNat) : parseDecimal text = none := by
  unfold parseDecimal
  refine if_neg fun hdigits => ?_
  have hdigit := byte_of_isDigit
    (List.all_eq_true.mp hdigits.2 (Char.ofNat byte.toNat) (List.mem_map_of_mem hmem))
  have hvalid : byte.toNat.isValidChar := Or.inl (byte.toNat_lt.trans (by decide))
  have hchar : (Char.ofNat byte.toNat).toNat = byte.toNat := by
    rw [Char.ofNat, dif_pos hvalid]
    rfl
  omega

theorem parseDecimalInt_eq_none_of_mem {text : Bytes} {byte : UInt8} (hmem : byte ∈ text)
    (hbyte : 57 < byte.toNat) : parseDecimalInt text = none := by
  have htail (sign : UInt8) (hsign : sign.toNat ≤ 57) (digits : Bytes)
      (htext : text = sign :: digits) : parseDecimal digits = none := by
    rw [htext] at hmem
    rcases List.mem_cons.mp hmem with rfl | hdigits
    · omega
    · exact parseDecimal_eq_none_of_mem hdigits (Or.inr hbyte)
  unfold parseDecimalInt
  split
  · rw [htail 43 (by decide) _ rfl, Option.map_none]
  · rw [htail 45 (by decide) _ rfl, Option.map_none]
  · rw [parseDecimal_eq_none_of_mem hmem (Or.inr hbyte), Option.map_none]

/-! ## Marks -/

/-- What stands before the first mark. -/
theorem takeWhile_append_mark {mark : UInt8} {first : Bytes} (hfirst : mark ∉ first)
    (rest : Bytes) : (first ++ mark :: rest).takeWhile (· ≠ mark) = first := by
  rw [List.takeWhile_append_of_pos]
  · simp
  · intro byte hbyte
    simpa using ne_of_mem_of_not_mem hbyte hfirst

/-- What is left from the first mark on. -/
theorem dropWhile_append_mark {mark : UInt8} {first : Bytes} (hfirst : mark ∉ first)
    (rest : Bytes) : (first ++ mark :: rest).dropWhile (· ≠ mark) = mark :: rest := by
  rw [List.dropWhile_append_of_pos]
  · simp
  · intro byte hbyte
    simpa using ne_of_mem_of_not_mem hbyte hfirst

/-- Two splits of a list at a mark are one split, or the mark stands behind one of them
and before the other. -/
theorem split_eq_or_mem {α : Type} {mark : α} {first second firstRest secondRest : List α}
    (heq : first ++ mark :: firstRest = second ++ mark :: secondRest) :
    (first = second ∧ firstRest = secondRest) ∨
      (mark ∈ second ∧ mark ∈ firstRest) ∨ (mark ∈ first ∧ mark ∈ secondRest) := by
  rcases List.append_eq_append_iff.mp heq with ⟨middle, hsecond, hrest⟩ | ⟨middle, hfirst, hrest⟩
  · cases middle with
    | nil => simp_all
    | cons head rest => simp_all
  · cases middle with
    | nil => simp_all
    | cons head rest => simp_all

/-- The first occurrence of an element splits a list in one way. -/
theorem append_cons_inj_of_first {α : Type} {mark : α} {first second firstRest secondRest : List α}
    (hfirst : mark ∉ first) (hsecond : mark ∉ second) :
    first ++ mark :: firstRest = second ++ mark :: secondRest ↔
      first = second ∧ firstRest = secondRest := by
  constructor
  · intro heq
    rcases split_eq_or_mem heq with hsplit | ⟨hmem, _⟩ | ⟨hmem, _⟩
    · exact hsplit
    · exact absurd hmem hsecond
    · exact absurd hmem hfirst
  · rintro ⟨rfl, rfl⟩
    rfl

/-- The last occurrence of an element splits a list in one way. -/
theorem append_cons_inj_of_last {α : Type} {mark : α} {first second firstRest secondRest : List α}
    (hfirst : mark ∉ firstRest) (hsecond : mark ∉ secondRest) :
    first ++ mark :: firstRest = second ++ mark :: secondRest ↔
      first = second ∧ firstRest = secondRest := by
  constructor
  · intro heq
    rcases split_eq_or_mem heq with hsplit | ⟨_, hmem⟩ | ⟨_, hmem⟩
    · exact hsplit
    · exact absurd hmem hfirst
    · exact absurd hmem hsecond
  · rintro ⟨rfl, rfl⟩
    rfl

end Redloop
