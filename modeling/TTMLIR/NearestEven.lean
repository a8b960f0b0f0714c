/-
# Integers as floating-point numbers

A floating-point number holds an integer by its first binary digits; an integer with more digits
is rounded to the nearest one that is held, and to the even one of two.

* `ulp` : the distance of the numbers around an integer;
* `nearestEven` : rounding, with `nearestEven_of_natAbs_le`;
* `nearestEven_ne` : the first integer that is not held;
* `nearestEvenRat` : rounding of fractions.
-/
import Mathlib.Data.Int.Log
import Mathlib.Data.Rat.Floor

namespace Rounding

/-- The distance of the numbers of `digits` binary digits around `n`. -/
def ulp (digits n : ℕ) : ℕ := 2 ^ (Nat.log2 n + 1 - digits)

/-- The nearest natural number of `digits` binary digits. -/
def nearestEvenNat (digits n : ℕ) : ℕ :=
  let u := ulp digits n
  if 2 * (n % u) < u ∨ 2 * (n % u) = u ∧ n / u % 2 = 0 then n / u * u else (n / u + 1) * u

/-- The nearest integer of `digits` binary digits, and a sign. -/
def nearestEven (digits : ℕ) (z : ℤ) : ℤ :=
  if z < 0 then -(nearestEvenNat digits z.natAbs : ℤ) else nearestEvenNat digits z.natAbs

variable {digits : ℕ}

theorem nearestEvenNat_of_dvd {n : ℕ} (h : ulp digits n ∣ n) : nearestEvenNat digits n = n := by
  have hpos : 0 < ulp digits n := Nat.two_pow_pos _
  rw [nearestEvenNat]
  simp only [Nat.mod_eq_zero_of_dvd h, Nat.mul_zero, hpos, true_or, if_true]
  exact Nat.div_mul_cancel h

/-- Integers of few digits, and the first one of one more digit, are held. -/
theorem nearestEvenNat_of_le (hdigits : 0 < digits) {n : ℕ} (h : n ≤ 2 ^ digits) :
    nearestEvenNat digits n = n := by
  apply nearestEvenNat_of_dvd
  by_cases hzero : n = 0
  · rw [hzero]
    exact Nat.dvd_zero _
  rcases Nat.lt_or_eq_of_le h with hlt | heq
  · have hlog : Nat.log2 n < digits := (Nat.log2_lt hzero).mpr hlt
    have hulp : ulp digits n = 1 := by
      rw [ulp, Nat.sub_eq_zero_of_le hlog, Nat.pow_zero]
    rw [hulp]
    exact Nat.one_dvd n
  · have hulp : ulp digits n = 2 := by
      rw [ulp, heq, Nat.log2_two_pow, Nat.add_sub_cancel_left, Nat.pow_one]
    rw [hulp, heq]
    exact dvd_pow_self 2 hdigits.ne'

/-- The second integer of one more digit is not held. -/
theorem nearestEvenNat_ne (hdigits : 0 < digits) (n : ℕ) :
    nearestEvenNat digits n ≠ 2 ^ digits + 1 := by
  have heven : 2 ∣ 2 ^ digits := dvd_pow_self 2 hdigits.ne'
  by_cases hlog : Nat.log2 n < digits
  · -- few digits: the number is held, and too small
    have hlt : n < 2 ^ digits := by
      by_cases hzero : n = 0
      · rw [hzero]
        exact Nat.two_pow_pos _
      · exact (Nat.log2_lt hzero).mp hlog
    rw [nearestEvenNat_of_le hdigits hlt.le]
    omega
  · -- many digits: a multiple of an even distance
    have hulp : 2 ∣ ulp digits n := dvd_pow_self 2 (by omega)
    have hmul : ∀ k, 2 ∣ k * ulp digits n := fun k => hulp.mul_left k
    rw [nearestEvenNat]
    split_ifs
    · have := hmul (n / ulp digits n)
      omega
    · have := hmul (n / ulp digits n + 1)
      omega

/-- Rounding does not reach one from above. -/
theorem one_lt_nearestEvenNat (hdigits : 0 < digits) {n : ℕ} (h : 1 < n) :
    1 < nearestEvenNat digits n := by
  have hzero : n ≠ 0 := by omega
  have hulp : ulp digits n ≤ n :=
    calc ulp digits n ≤ 2 ^ Nat.log2 n := Nat.pow_le_pow_right Nat.two_pos (by omega)
      _ ≤ n := Nat.log2_self_le hzero
  have hpos : 0 < ulp digits n := Nat.two_pow_pos _
  have hquot : 1 < n / ulp digits n * ulp digits n := by
    rcases Nat.lt_or_ge 1 (ulp digits n) with hlt | hle
    · exact hlt.trans_le (Nat.le_mul_of_pos_left _ (Nat.div_pos hulp hpos))
    · rwa [show ulp digits n = 1 by omega, Nat.div_one, Nat.mul_one]
  rw [nearestEvenNat]
  split_ifs
  · exact hquot
  · rw [Nat.succ_mul]
    omega

/-- **Small integers are held.** -/
theorem nearestEven_of_natAbs_le (hdigits : 0 < digits) {z : ℤ} (h : z.natAbs ≤ 2 ^ digits) :
    nearestEven digits z = z := by
  rw [nearestEven, nearestEvenNat_of_le hdigits h]
  split_ifs <;> omega

/-- **The first integer that is not held** is no result of rounding. -/
theorem nearestEven_ne (hdigits : 0 < digits) (z : ℤ) :
    nearestEven digits z ≠ (2 ^ digits + 1 : ℕ) := by
  have hne := nearestEvenNat_ne hdigits z.natAbs
  rw [nearestEven]
  generalize 2 ^ digits + 1 = first at hne ⊢
  split_ifs
  · intro heq
    have hzero : first = 0 := by omega
    omega
  · exact_mod_cast hne

/-! ## Fractions -/

/-- The nearest integer, and the even one of two. -/
def roundHalfEven (x : ℚ) : ℤ :=
  if Int.fract x < 1 / 2 ∨ Int.fract x = 1 / 2 ∧ ⌊x⌋ % 2 = 0 then ⌊x⌋ else ⌊x⌋ + 1

/-- The nearest number of `digits` binary digits, of any exponent. -/
def nearestEvenRat (digits : ℕ) (q : ℚ) : ℚ :=
  let unit := (2 : ℚ) ^ (Int.log 2 |q| + 1 - digits)
  roundHalfEven (q / unit) * unit

end Rounding
