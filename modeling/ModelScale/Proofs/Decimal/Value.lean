import Mathlib.Algebra.Order.Field.Power
import Mathlib.Data.Rat.Floor
import Mathlib.Order.Compare
import Mathlib.Tactic.FieldSimp
import Mathlib.Tactic.Linarith
import Mathlib.Tactic.Positivity
import Mathlib.Tactic.Ring
import ModelScale.Decimal.Context

/-
# The number that a decimal denotes

Several decimals denote one number, and the library compares them without writing out an exponent.
This file gives the number itself (`Decimal.toRat`) and proves that the comparisons are comparisons
of numbers:

* `adjusted_eq_of_size_eq`: the place of the leading digit belongs to the number;
* `compareValue_eq`, `sameValue_iff`, `isLess_iff`: the comparisons decide order and equality of
  the numbers.
-/

namespace ModelScale.Decimal

/-! ## 1. Magnitude and value -/

/-- The magnitude of the number. -/
def size (d : Decimal) : ℚ := d.coefficient * 10 ^ d.exponent

/-- The number. -/
def toRat (d : Decimal) : ℚ := if d.negative then -d.size else d.size

theorem ten_zpow_pos (e : ℤ) : (0 : ℚ) < 10 ^ e := zpow_pos (by norm_num) e

theorem size_nonneg (d : Decimal) : 0 ≤ d.size :=
  mul_nonneg (Nat.cast_nonneg _) (ten_zpow_pos _).le

theorem size_eq_zero_iff {d : Decimal} : d.size = 0 ↔ d.coefficient = 0 := by
  simp [size, (ten_zpow_pos d.exponent).ne']

theorem isZero_iff {d : Decimal} : d.isZero = true ↔ d.coefficient = 0 := by
  simp [isZero]

theorem isZero_false_iff {d : Decimal} : d.isZero = false ↔ d.coefficient ≠ 0 := by
  simp [isZero]

theorem size_pos {d : Decimal} (h : d.coefficient ≠ 0) : 0 < d.size :=
  lt_of_le_of_ne d.size_nonneg fun e => h (size_eq_zero_iff.mp e.symm)

theorem abs_toRat (d : Decimal) : |d.toRat| = d.size := by
  unfold toRat
  split
  · rw [abs_neg, abs_of_nonneg d.size_nonneg]
  · exact abs_of_nonneg d.size_nonneg

theorem toRat_eq_zero_iff {d : Decimal} : d.toRat = 0 ↔ d.coefficient = 0 := by
  rw [← size_eq_zero_iff, ← abs_toRat, abs_eq_zero]

@[simp] theorem size_magnitude (d : Decimal) : d.magnitude.size = d.size := rfl

@[simp] theorem toRat_magnitude (d : Decimal) : d.magnitude.toRat = d.size := rfl

theorem size_eq_of_toRat_eq {a b : Decimal} (h : a.toRat = b.toRat) : a.size = b.size := by
  rw [← abs_toRat, ← abs_toRat, h]

/-- A number that is not zero has one sign. -/
theorem negative_eq_of_toRat_eq {a b : Decimal} (h : a.toRat = b.toRat)
    (hz : a.coefficient ≠ 0) : a.negative = b.negative := by
  have ha := size_pos hz
  have hs := size_eq_of_toRat_eq h
  unfold toRat at h
  cases hna : a.negative <;> cases hnb : b.negative <;> simp [hna, hnb] at h ⊢ <;> linarith

/-! ## 2. The leading digit -/

theorem powerOfTen_eq (k : Nat) : powerOfTen k = 10 ^ k := rfl

/-- A number has at most `k` digits exactly when it is below the `k`-th power of ten. -/
theorem digitCount_le_iff {n k : Nat} (hk : 0 < k) : digitCount n ≤ k ↔ n < 10 ^ k :=
  Nat.length_toDigits_le_iff (by decide) hk

theorem pow_digitCount_le {n : Nat} (h : n ≠ 0) : 10 ^ (digitCount n - 1) ≤ n := by
  by_contra hlt
  have hpos : 0 < digitCount n := Nat.length_toDigits_pos
  rcases Nat.eq_zero_or_pos (digitCount n - 1) with h0 | h0
  · rw [h0] at hlt; omega
  · have := (digitCount_le_iff h0).mpr (Nat.lt_of_not_le hlt)
    omega

theorem lt_pow_digitCount (n : Nat) : n < 10 ^ digitCount n :=
  (digitCount_le_iff Nat.length_toDigits_pos).mp le_rfl

theorem zpow_adjusted_le {d : Decimal} (h : d.coefficient ≠ 0) : 10 ^ d.adjusted ≤ d.size := by
  have hpos : 0 < digitCount d.coefficient := Nat.length_toDigits_pos
  have hc : (10 : ℚ) ^ ((digitCount d.coefficient - 1 : Nat) : ℤ) ≤ d.coefficient := by
    rw [zpow_natCast]
    exact_mod_cast pow_digitCount_le h
  have he : d.adjusted = ((digitCount d.coefficient - 1 : Nat) : ℤ) + d.exponent := by
    unfold adjusted; omega
  rw [he, zpow_add₀ (by norm_num), size]
  exact mul_le_mul_of_nonneg_right hc (ten_zpow_pos _).le

theorem size_lt_zpow_adjusted (d : Decimal) : d.size < 10 ^ (d.adjusted + 1) := by
  have hc : (d.coefficient : ℚ) < (10 : ℚ) ^ ((digitCount d.coefficient : Nat) : ℤ) := by
    rw [zpow_natCast]
    exact_mod_cast lt_pow_digitCount d.coefficient
  have he : d.adjusted + 1 = (digitCount d.coefficient : ℤ) + d.exponent := by
    unfold adjusted; omega
  rw [he, zpow_add₀ (by norm_num), size]
  exact mul_lt_mul_of_pos_right hc (ten_zpow_pos _)

/-- The order of two numbers is decided by their leading digits where these stand at different
powers of ten. -/
theorem size_lt_of_adjusted_lt {a b : Decimal} (hb : b.coefficient ≠ 0)
    (h : a.adjusted < b.adjusted) : a.size < b.size :=
  calc a.size < 10 ^ (a.adjusted + 1) := a.size_lt_zpow_adjusted
    _ ≤ 10 ^ b.adjusted := zpow_le_zpow_right₀ (by norm_num) (by omega)
    _ ≤ b.size := zpow_adjusted_le hb

/-- **The place of the leading digit belongs to the number.** -/
theorem adjusted_eq_of_size_eq {a b : Decimal} (h : a.size = b.size) (ha : a.coefficient ≠ 0) :
    a.adjusted = b.adjusted := by
  have hb : b.coefficient ≠ 0 := by
    intro e
    exact ha (size_eq_zero_iff.mp (h ▸ size_eq_zero_iff.mpr e))
  rcases lt_trichotomy a.adjusted b.adjusted with hlt | heq | hgt
  · exact absurd h (size_lt_of_adjusted_lt hb hlt).ne
  · exact heq
  · exact absurd h.symm (size_lt_of_adjusted_lt ha hgt).ne

/-! ## 3. Comparison -/

theorem compare_congr {α β : Type} [LinearOrder α] [LinearOrder β] {x y : α} {u v : β}
    (hlt : x < y ↔ u < v) (hgt : y < x ↔ v < u) : compare x y = compare u v := by
  rcases lt_trichotomy x y with h | h | h
  · rw [compare_lt_iff_lt.mpr h, compare_lt_iff_lt.mpr (hlt.mp h)]
  · have h1 : ¬ u < v := by
      intro e
      exact (hlt.mpr e).ne h
    have h2 : ¬ v < u := by
      intro e
      exact (hgt.mpr e).ne h.symm
    rw [compare_eq_iff_eq.mpr h, compare_eq_iff_eq.mpr (le_antisymm (not_lt.mp h2) (not_lt.mp h1))]
  · rw [compare_gt_iff_gt.mpr h, compare_gt_iff_gt.mpr (hgt.mp h)]

theorem size_eq_scaled (a b : Decimal) :
    a.size = ((a.coefficient * powerOfTen (a.exponent - b.exponent).toNat : Nat) : ℚ) *
      10 ^ min a.exponent b.exponent := by
  have he : a.exponent = ((a.exponent - b.exponent).toNat : ℤ) + min a.exponent b.exponent := by
    omega
  rw [size]
  conv_lhs => rw [he]
  rw [zpow_add₀ (by norm_num), zpow_natCast, powerOfTen_eq]
  push_cast
  ring

/-- Magnitudes are compared by their size. -/
theorem compareMagnitude_eq {a b : Decimal} (ha : a.coefficient ≠ 0) (hb : b.coefficient ≠ 0) :
    compareMagnitude a b = compare a.size b.size := by
  unfold compareMagnitude
  rw [if_neg (by simp [isZero, ha, hb])]
  split
  · rename_i hne
    refine compare_congr ⟨size_lt_of_adjusted_lt hb, ?_⟩ ⟨size_lt_of_adjusted_lt ha, ?_⟩
    · intro h
      by_contra hge
      exact absurd h (size_lt_of_adjusted_lt ha (by omega)).asymm
    · intro h
      by_contra hge
      exact absurd h (size_lt_of_adjusted_lt hb (by omega)).asymm
  · have hs := size_eq_scaled a b
    have ht := size_eq_scaled b a
    rw [min_comm] at ht
    have hp := ten_zpow_pos (min a.exponent b.exponent)
    rw [hs, ht]
    refine compare_congr ?_ ?_
    · rw [mul_lt_mul_iff_of_pos_right hp, Nat.cast_lt]
    · rw [mul_lt_mul_iff_of_pos_right hp, Nat.cast_lt]

/-- **Decimals are compared by the numbers that they denote.** -/
theorem compareValue_eq (a b : Decimal) : compareValue a b = compare a.toRat b.toRat := by
  unfold compareValue
  cases ha : a.isZero <;> cases hb : b.isZero
  · have ha' := isZero_false_iff.mp ha
    have hb' := isZero_false_iff.mp hb
    have hpa := size_pos ha'
    have hpb := size_pos hb'
    cases hna : a.negative <;> cases hnb : b.negative <;> simp only [toRat, hna, hnb, if_true,
      Bool.false_eq_true, if_false]
    · exact compareMagnitude_eq ha' hb'
    · exact (compare_gt_iff_gt.mpr (by linarith)).symm
    · exact (compare_lt_iff_lt.mpr (by linarith)).symm
    · rw [compareMagnitude_eq hb' ha']
      exact compare_congr (neg_lt_neg_iff).symm (neg_lt_neg_iff).symm
  · have hpa := size_pos (isZero_false_iff.mp ha)
    have hzb : b.toRat = 0 := toRat_eq_zero_iff.mpr (isZero_iff.mp hb)
    cases hna : a.negative <;> simp only [toRat, hna, if_true, Bool.false_eq_true, if_false]
    · rw [show (if b.negative = true then -b.size else b.size) = 0 from hzb]
      exact (compare_gt_iff_gt.mpr hpa).symm
    · rw [show (if b.negative = true then -b.size else b.size) = 0 from hzb]
      exact (compare_lt_iff_lt.mpr (by linarith)).symm
  · have hpb := size_pos (isZero_false_iff.mp hb)
    have hza : a.toRat = 0 := toRat_eq_zero_iff.mpr (isZero_iff.mp ha)
    rw [hza]
    cases hnb : b.negative <;> simp only [toRat, hnb, if_true, Bool.false_eq_true, if_false]
    · exact (compare_lt_iff_lt.mpr hpb).symm
    · exact (compare_gt_iff_gt.mpr (by linarith)).symm
  · rw [toRat_eq_zero_iff.mpr (isZero_iff.mp ha), toRat_eq_zero_iff.mpr (isZero_iff.mp hb)]
    exact (compare_eq_iff_eq.mpr rfl).symm

theorem sameValue_iff {a b : Decimal} : a.sameValue b = true ↔ a.toRat = b.toRat := by
  rw [sameValue, compareValue_eq, beq_iff_eq, compare_eq_iff_eq]

theorem isLess_iff {a b : Decimal} : a.isLess b = true ↔ a.toRat < b.toRat := by
  rw [isLess, compareValue_eq, beq_iff_eq, compare_lt_iff_lt]

end ModelScale.Decimal
