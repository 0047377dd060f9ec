/-
# Integers as double-precision numbers

A program whose only number type is the IEEE double sees an integer as the
nearest integer with at most 53 significant bits, and rounds the exact result
of every addition and multiplication the same way. Integers up to `2 ^ 53` in
absolute value are represented exactly; beyond that neighbours collapse.

The `%.Ng` conversion of C prints at most `N` significant decimal digits, so a
longer integer is printed in exponent form and denotes a rounded value.
-/

import Mathlib.Algebra.Order.Ring.Int
import Mathlib.Data.Int.Order.Basic
import Mathlib.Tactic.Linarith
import Redloop.Data.Bytes

namespace Redloop

/-- The quotient rounded to the nearest natural number, ties to even. -/
def roundHalfEven (n d : ℕ) : ℕ :=
  if 2 * (n % d) < d ∨ (2 * (n % d) = d ∧ n / d % 2 = 0) then n / d else n / d + 1

@[simp]
theorem roundHalfEven_one (n : ℕ) : roundHalfEven n 1 = n := by
  simp [roundHalfEven, Nat.mod_one]

theorem div_le_roundHalfEven (n d : ℕ) : n / d ≤ roundHalfEven n d := by
  unfold roundHalfEven
  split <;> omega

theorem roundHalfEven_mono {m n : ℕ} (d : ℕ) (hle : m ≤ n) :
    roundHalfEven m d ≤ roundHalfEven n d := by
  have hdiv : m / d ≤ n / d := Nat.div_le_div_right hle
  unfold roundHalfEven
  rcases hdiv.eq_or_lt with heq | hlt
  · -- with one quotient the remainders are ordered like the numbers
    have hm := Nat.div_add_mod m d
    have hn := Nat.div_add_mod n d
    rw [heq] at hm ⊢
    have hmod : m % d ≤ n % d := by omega
    split_ifs <;> omega
  · split_ifs <;> omega

theorem roundHalfEven_le {n d q : ℕ} (hle : n ≤ q * d) : roundHalfEven n d ≤ q := by
  rcases Nat.eq_zero_or_pos d with rfl | hpos
  · obtain rfl : n = 0 := by omega
    simp [roundHalfEven]
  · calc roundHalfEven n d ≤ roundHalfEven (q * d) d := roundHalfEven_mono d hle
      _ = q := by simp [roundHalfEven, hpos]

namespace Double

/-- How many low bits of a natural number do not fit into 53 significant bits. -/
def excessBits (n : ℕ) : ℕ := n.log2 - 52

/-- The nearest natural number with at most 53 significant bits. -/
def ofNat (n : ℕ) : ℕ := roundHalfEven n (2 ^ excessBits n) * 2 ^ excessBits n

/-- The double nearest to an integer. -/
def ofInt (z : ℤ) : ℤ := if z < 0 then -(ofNat z.natAbs : ℤ) else ofNat z.natAbs

/-- Addition of doubles. -/
def add (first second : ℤ) : ℤ := ofInt (first + second)

/-- Multiplication of doubles. -/
def mul (first second : ℤ) : ℤ := ofInt (first * second)

theorem ofNat_of_lt {n : ℕ} (hlt : n < 2 ^ 53) : ofNat n = n := by
  have hlog : n.log2 ≤ 52 := by
    rcases Nat.eq_zero_or_pos n with rfl | hpos
    · simp
    · exact Nat.lt_succ_iff.mp ((Nat.log2_lt hpos.ne').mpr hlt)
  simp [ofNat, excessBits, Nat.sub_eq_zero_of_le hlog]

/-- A number with at least 53 bits is rounded to one with as many. -/
theorem two_pow_mul_le_ofNat {n : ℕ} (hle : 2 ^ 52 ≤ n) :
    2 ^ 52 * 2 ^ excessBits n ≤ ofNat n := by
  have hne : n ≠ 0 := by rintro rfl; simp at hle
  have hlog : 52 ≤ n.log2 := (Nat.le_log2 hne).mpr hle
  have hquotient : 2 ^ 52 ≤ n / 2 ^ excessBits n := by
    rw [Nat.le_div_iff_mul_le (Nat.two_pow_pos _), ← pow_add,
      show 52 + excessBits n = n.log2 by unfold excessBits; omega]
    exact Nat.log2_self_le hne
  exact Nat.mul_le_mul_right _ (hquotient.trans (div_le_roundHalfEven _ _))

/-- Rounding never takes a large number below the exactly represented range. -/
theorem two_pow_le_ofNat {n : ℕ} (hle : 2 ^ 53 ≤ n) : 2 ^ 53 ≤ ofNat n := by
  have hne : n ≠ 0 := by rintro rfl; simp at hle
  have hlog : 53 ≤ n.log2 := (Nat.le_log2 hne).mpr hle
  calc 2 ^ 53 ≤ 2 ^ n.log2 := Nat.pow_le_pow_right (by decide) hlog
    _ = 2 ^ 52 * 2 ^ excessBits n := by
      rw [← pow_add, show 52 + excessBits n = n.log2 by unfold excessBits; omega]
    _ ≤ ofNat n := two_pow_mul_le_ofNat (by omega)

theorem ofNat_mono {m n : ℕ} (hle : m ≤ n) : ofNat m ≤ ofNat n := by
  rcases Nat.eq_zero_or_pos m with rfl | hpos
  · exact Nat.zero_le _
  have hlog : m.log2 ≤ n.log2 :=
    (Nat.le_log2 (by omega)).mpr ((Nat.log2_self_le hpos.ne').trans hle)
  have hexcess : excessBits m ≤ excessBits n := Nat.sub_le_sub_right hlog 52
  rcases hexcess.eq_or_lt with heq | hlt
  · unfold ofNat
    rw [heq]
    exact Nat.mul_le_mul_right _ (roundHalfEven_mono _ hle)
  · -- a power of two lies between numbers of different lengths, and rounding keeps the sides
    have hbelow : ofNat m ≤ 2 ^ 53 * 2 ^ excessBits m := by
      refine Nat.mul_le_mul_right _ (roundHalfEven_le ?_)
      rw [← pow_add]
      refine Nat.lt_log2_self.le.trans (Nat.pow_le_pow_right (by decide) ?_)
      unfold excessBits
      omega
    have hlarge : 2 ^ 52 ≤ n := by
      refine (Nat.pow_le_pow_right (by decide) ?_).trans (Nat.log2_self_le (by omega))
      unfold excessBits at hlt
      omega
    calc ofNat m ≤ 2 ^ 53 * 2 ^ excessBits m := hbelow
      _ ≤ 2 ^ 52 * 2 ^ excessBits n := by
        rw [← pow_add, ← pow_add]
        exact Nat.pow_le_pow_right (by decide) (by omega)
      _ ≤ ofNat n := two_pow_mul_le_ofNat hlarge

/-- Rounding to a double keeps the order. -/
theorem ofInt_mono {first second : ℤ} (hle : first ≤ second) : ofInt first ≤ ofInt second := by
  unfold ofInt
  split_ifs with hfirst hsecond hsecond
  · have hnat := ofNat_mono (show second.natAbs ≤ first.natAbs by omega)
    omega
  · omega
  · omega
  · have hnat := ofNat_mono (show first.natAbs ≤ second.natAbs by omega)
    omega

/-- Integers of absolute value below `2 ^ 53` are represented exactly. -/
theorem ofInt_of_natAbs_lt {z : ℤ} (hlt : z.natAbs < 2 ^ 53) : ofInt z = z := by
  rw [ofInt, ofNat_of_lt hlt]
  split <;> omega

/-- The numbers that are rounded below a limit end where the limit is first reached. -/
theorem ofInt_lt_iff {limit bound z : ℤ} (hbound : limit ≤ ofInt bound)
    (hbelow : ofInt (bound - 1) < limit) : ofInt z < limit ↔ z < bound := by
  constructor
  · intro hlt
    by_contra hle
    exact hlt.not_ge (hbound.trans (ofInt_mono (not_lt.mp hle)))
  · intro hlt
    exact (ofInt_mono (by omega)).trans_lt hbelow

/-- Rounding keeps the sign. -/
theorem ofInt_neg_iff {z : ℤ} : ofInt z < 0 ↔ z < 0 :=
  ofInt_lt_iff (by decide) (by decide)

/-- Nothing but zero is rounded to zero. -/
theorem ofInt_eq_zero_iff {z : ℤ} : ofInt z = 0 ↔ z = 0 := by
  have hsign : ofInt z < 0 ↔ z < 0 := ofInt_neg_iff
  have hone : ofInt z < 1 ↔ z < 1 := ofInt_lt_iff (by decide) (by decide)
  omega

/-- A number without excess bits is a double. -/
theorem ofNat_of_dvd {n : ℕ} (hdvd : 2 ^ excessBits n ∣ n) : ofNat n = n := by
  have hround : roundHalfEven n (2 ^ excessBits n) = n / 2 ^ excessBits n :=
    if_pos (Or.inl (by simp [Nat.mod_eq_zero_of_dvd hdvd]))
  rw [ofNat, hround, Nat.div_mul_cancel hdvd]

/-- A double is rounded to itself. -/
theorem ofNat_ofNat (n : ℕ) : ofNat (ofNat n) = ofNat n := by
  apply ofNat_of_dvd
  have hround : roundHalfEven n (2 ^ excessBits n) ≤ 2 ^ 53 := by
    apply roundHalfEven_le
    rw [← pow_add]
    refine Nat.lt_log2_self.le.trans (Nat.pow_le_pow_right (by decide) ?_)
    unfold excessBits
    omega
  rcases hround.lt_or_eq with hlt | heq
  · have hexcess : excessBits (ofNat n) ≤ excessBits n := by
      rcases Nat.eq_zero_or_pos (ofNat n) with hzero | hpos
      · simp [hzero, excessBits]
      · have hbelow : ofNat n < 2 ^ (53 + excessBits n) := by
          rw [pow_add]
          exact Nat.mul_lt_mul_of_pos_right hlt (Nat.two_pow_pos _)
        have hlog := (Nat.log2_lt hpos.ne').mpr hbelow
        unfold excessBits at hlog ⊢
        omega
    exact (Nat.pow_dvd_pow 2 hexcess).trans (Nat.dvd_mul_left _ _)
  · -- the number is rounded up to a power of two
    have hpow : ofNat n = 2 ^ (53 + excessBits n) := by rw [ofNat, heq, pow_add]
    rw [hpow, excessBits, Nat.log2_two_pow]
    exact Nat.pow_dvd_pow 2 (by omega)

theorem ofInt_ofInt (z : ℤ) : ofInt (ofInt z) = ofInt z := by
  by_cases hz : z < 0
  · have hneg : ofInt z < 0 := ofInt_neg_iff.mpr hz
    have hval : ofInt z = -(ofNat z.natAbs : ℤ) := if_pos hz
    have habs : (ofInt z).natAbs = ofNat z.natAbs := by
      rw [hval, Int.natAbs_neg, Int.natAbs_natCast]
    rw [ofInt, if_pos hneg, habs, ofNat_ofNat, hval]
  · have hval : ofInt z = (ofNat z.natAbs : ℤ) := if_neg hz
    rw [hval, ofInt, if_neg (by omega), Int.natAbs_natCast, ofNat_ofNat]

/-- Adding what is not negative takes a double to no lesser one. -/
theorem le_add_of_nonneg {z amount : ℤ} (hamount : 0 ≤ amount) :
    ofInt z ≤ add (ofInt z) amount := by
  calc ofInt z = ofInt (ofInt z) := (ofInt_ofInt z).symm
    _ ≤ add (ofInt z) amount := ofInt_mono (by omega)

/-- Rounding keeps the greater of two numbers. -/
theorem ofInt_max (first second : ℤ) :
    ofInt (max first second) = max (ofInt first) (ofInt second) :=
  Monotone.map_max fun _ _ => ofInt_mono

/-- Comparing with an exactly represented natural number is exact. -/
theorem ofInt_le_natCast_iff {z : ℤ} {bound : ℕ} (hbound : bound < 2 ^ 53) :
    ofInt z ≤ bound ↔ z ≤ bound := by
  by_cases hlt : z.natAbs < 2 ^ 53
  · rw [ofInt_of_natAbs_lt hlt]
  · have hround := two_pow_le_ofNat (not_lt.mp hlt)
    unfold ofInt
    split <;> omega

end Double

/-- The decimal exponent by which a numeral of `n` exceeds `precision` digits. -/
def excessDigits (precision n : ℕ) : ℕ := (Nat.toDigits 10 n).length - precision

theorem excessDigits_eq_zero_iff {precision n : ℕ} (hprecision : 0 < precision) :
    excessDigits precision n = 0 ↔ n < 10 ^ precision := by
  rw [excessDigits, Nat.sub_eq_zero_iff_le,
    Nat.length_toDigits_le_iff (by decide) hprecision]

/-- The integer that the `%.Ng` text of an integer denotes. -/
def generalValue (precision : ℕ) (z : ℤ) : ℤ :=
  let exponent := excessDigits precision z.natAbs
  let rounded := roundHalfEven z.natAbs (10 ^ exponent) * 10 ^ exponent
  if z < 0 then -(rounded : ℤ) else rounded

/-- The `%.Ng` text of an integer: a plain numeral when it fits the precision,
and otherwise a mantissa without trailing zeros and a decimal exponent. -/
def generalText (precision : ℕ) (z : ℤ) : Bytes :=
  let exponent := excessDigits precision z.natAbs
  if exponent = 0 then decimalInt z
  else
    let digits := decimal (roundHalfEven z.natAbs (10 ^ exponent))
    let mantissa :=
      match (digits.reverse.dropWhile (· = 48)).reverse with
      | first :: second :: rest => first :: 46 :: second :: rest
      | short => short
    (if z < 0 then [45] else []) ++ mantissa ++ utf8 "e+" ++ decimal (digits.length - 1 + exponent)

/-- A number of at most `precision` digits is printed in full. -/
theorem generalText_of_excessDigits_eq_zero {precision : ℕ} {z : ℤ}
    (hfits : excessDigits precision z.natAbs = 0) : generalText precision z = decimalInt z :=
  if_pos hfits

/-- A longer number is printed in exponent form. -/
theorem mem_generalText_of_excessDigits_ne_zero {precision : ℕ} {z : ℤ}
    (hexceeds : excessDigits precision z.natAbs ≠ 0) : 101 ∈ generalText precision z := by
  have hexponent : (101 : UInt8) ∈ utf8 "e+" := by decide
  simp only [generalText, hexceeds, if_false, List.mem_append]
  exact Or.inl (Or.inr hexponent)

/-- The exponent form is no integer numeral. -/
theorem parseDecimalInt_generalText (precision : ℕ) (z : ℤ) :
    parseDecimalInt (generalText precision z) =
      if excessDigits precision z.natAbs = 0 then some z else none := by
  split_ifs with hfits
  · rw [generalText_of_excessDigits_eq_zero hfits, parseDecimalInt_decimalInt]
  · exact parseDecimalInt_eq_none_of_mem (mem_generalText_of_excessDigits_ne_zero hfits)
      (by decide)

/-- The `%.0f` text of an integer is its full numeral. -/
def fixedText (z : ℤ) : Bytes := decimalInt z

example : generalText 14 1700000000123456 = "1.7000000001235e+15" := by decide

example : generalValue 14 1700000000123456 = 1700000000123500 := by decide

end Redloop
