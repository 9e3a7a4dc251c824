import ModelScale.Proofs.Decimal.Rounding

/-
# How far a result is from the number

Every operation is an exact calculation followed by one rounding.  The product and the sum are
exact before they are rounded (`toRat_product`, `toRat_exactSum`); the quotient is carried to one
digit beyond the precision, so it is off by less than a unit there.  Main statements:

* `abs_finish_sub_le`: bringing a number into a context moves it by half a unit of the last digit,
  which is relative to the number as long as this is in the normal range (`InRange`);
* `abs_quantize_sub_le`: rounding to an exponent moves a number by half a unit of the exponent;
* `abs_inverse_sub_le`: the reciprocal of a number;
* `sub_of_toRat_eq`: the difference of a number and itself is zero, however the two are written.
-/

namespace ModelScale

open Decimal

/-! ## 1. The nearest natural number -/

/-- **Rounding moves a number by a half at most.** -/
theorem abs_nearest_sub_le (tie : Tie) {x : ℚ} (hx : 0 ≤ x) :
    |(nearest tie x : ℚ) - x| ≤ 1 / 2 := by
  have hle := Nat.floor_le hx
  have hlt := Nat.lt_floor_add_one x
  have hup : ∀ {n : Nat}, n = ⌊x⌋₊ → 1 ≤ 2 * (x - ⌊x⌋₊) → |((n + 1 : Nat) : ℚ) - x| ≤ 1 / 2 := by
    rintro n rfl h
    push_cast
    rw [abs_of_nonneg (by linarith)]
    linarith
  have hdown : ∀ {n : Nat}, n = ⌊x⌋₊ → 2 * (x - ⌊x⌋₊) ≤ 1 → |((n : Nat) : ℚ) - x| ≤ 1 / 2 := by
    rintro n rfl h
    rw [abs_of_nonpos (by linarith)]
    linarith
  unfold nearest
  dsimp only
  split
  · rename_i h
    exact hdown rfl h.le
  · rename_i h
    split
    · rename_i h'
      exact hup rfl h'.le
    · rename_i h'
      cases tie with
      | away => exact hup rfl (by linarith)
      | even =>
        dsimp only
        rcases Nat.mod_two_eq_zero_or_one ⌊x⌋₊ with hm | hm
        · rw [hm]
          exact hdown rfl (by linarith)
        · rw [hm]
          exact hup rfl (by linarith)

namespace Decimal

/-- Rounded in units of a power of ten, a magnitude moves by half a unit at most. -/
theorem abs_nearest_mul_sub_le (tie : Tie) (d : Decimal) (e : ℤ) :
    |nearest tie (d.size / 10 ^ e) * 10 ^ e - d.size| ≤ 10 ^ e / 2 := by
  have hp := ten_zpow_pos e
  have h := abs_nearest_sub_le tie (div_nonneg d.size_nonneg hp.le)
  have he : nearest tie (d.size / 10 ^ e) * 10 ^ e - d.size =
      (nearest tie (d.size / 10 ^ e) - d.size / 10 ^ e) * 10 ^ e := by
    field_simp
  rw [he, abs_mul, abs_of_pos hp]
  linarith [mul_le_mul_of_nonneg_right h hp.le]

/-- Two numbers of one sign are as far apart as their magnitudes. -/
theorem abs_toRat_sub {a b : Decimal} (h : a.negative = b.negative) :
    |a.toRat - b.toRat| = |a.size - b.size| := by
  unfold toRat
  rw [h]
  cases b.negative
  · rfl
  · rw [if_pos rfl, if_pos rfl, abs_sub_comm]
    congr 1
    ring

/-- A number and the reciprocal of one of the same sign are as far apart as their magnitudes. -/
theorem abs_toRat_sub_inv {a b : Decimal} (h : a.negative = b.negative) :
    |a.toRat - b.toRat⁻¹| = |a.size - b.size⁻¹| := by
  unfold toRat
  rw [h]
  cases b.negative
  · rfl
  · rw [if_pos rfl, if_pos rfl, inv_neg, abs_sub_comm]
    congr 1
    ring

end Decimal

/-! ## 2. Rounding to a context -/

/-- The number is zero, or its leading digit is not below the normal range. -/
def InRange (x : ℚ) : Prop := x = 0 ∨ 10 ^ Context.minExponent ≤ |x|

theorem InRange.le_adjusted {d : Decimal} (h : InRange d.toRat) (hz : d.coefficient ≠ 0) :
    Context.minExponent ≤ d.adjusted := by
  have hs : (10 : ℚ) ^ Context.minExponent ≤ d.size := by
    rw [← abs_toRat]
    exact h.resolve_left fun h0 => hz (toRat_eq_zero_iff.mp h0)
  by_contra hlt
  have hle : (10 : ℚ) ^ (d.adjusted + 1) ≤ 10 ^ Context.minExponent :=
    zpow_le_zpow_right₀ (by norm_num) (by omega)
  exact absurd d.size_lt_zpow_adjusted (not_lt.mpr (hle.trans hs))

namespace Context

variable {ctx : Context}

/-- **Bringing a number into a context** moves it by half a unit of the last digit at most. -/
theorem abs_finish_sub_le (hp : 0 < ctx.precision) {d r : Decimal} (h : ctx.finish d = .ok r)
    (hn : InRange d.toRat) :
    |r.toRat - d.toRat| ≤ 10 ^ (1 - ctx.precision : ℤ) / 2 * |d.toRat| := by
  rw [finish_eq] at h
  split at h
  · rename_i hz
    have hz := isZero_iff.mp hz
    obtain rfl := Except.ok.inj h
    have hd : d.toRat = 0 := toRat_eq_zero_iff.mpr hz
    have hr : ∀ e, ({ d with exponent := e } : Decimal).toRat = 0 := fun _ =>
      toRat_eq_zero_iff.mpr hz
    rw [hd, hr]
    simp
  · rename_i hz
    have hz : d.coefficient ≠ 0 := isZero_false_iff.mp (Bool.not_eq_true _ ▸ hz)
    split at h
    · cases h
    · rw [if_neg (not_lt.mpr (hn.le_adjusted hz))] at h
      split at h
      · cases h
      · obtain rfl := Except.ok.inj h
        have hlast : (10 : ℚ) ^ ctx.lastPlace d ≤ 10 ^ (1 - ctx.precision : ℤ) * d.size := by
          rw [show ctx.lastPlace d = (1 - ctx.precision : ℤ) + d.adjusted by
            unfold lastPlace; ring, zpow_add₀ (by norm_num)]
          exact mul_le_mul_of_nonneg_left (zpow_adjusted_le hz) (ten_zpow_pos _).le
        rw [abs_toRat_sub (shorten_negative d), size_shorten hp, abs_toRat]
        linarith [abs_nearest_mul_sub_le .even d (ctx.lastPlace d)]

/-- What rounding to an exponent gives. -/
theorem quantize_eq_ok {tie : Tie} {d r : Decimal} {e : ℤ} (h : ctx.quantize tie d e = .ok r) :
    r.exponent = e ∧ r.negative = d.negative ∧
      r.size = nearest tie (d.size / 10 ^ e) * 10 ^ e := by
  unfold quantize at h
  dsimp only at h
  split at h
  · rename_i hz
    have hz := isZero_iff.mp hz
    obtain rfl := Except.ok.inj h
    refine ⟨rfl, rfl, ?_⟩
    have hs : d.size = 0 := size_eq_zero_iff.mpr hz
    have h0 : nearest tie 0 = 0 := nearest_natCast tie 0
    rw [hs, zero_div, h0, size, hz]
  · split at h
    · cases h
    · rw [shifted_eq_nearest] at h
      split at h
      · cases h
      · obtain rfl := Except.ok.inj h
        exact ⟨rfl, rfl, rfl⟩

/-- What is rounded to an exponent has no more digits than the precision, before and after. -/
theorem quantize_fits (hp : 0 < ctx.precision) {tie : Tie} {d r : Decimal} {e : ℤ}
    (h : ctx.quantize tie d e = .ok r) :
    (d.coefficient = 0 ∨ digitCount d.coefficient + (d.exponent - e) ≤ ctx.precision) ∧
      digitCount r.coefficient ≤ ctx.precision := by
  unfold quantize at h
  dsimp only at h
  split at h
  · rename_i hz
    have hz := isZero_iff.mp hz
    obtain rfl := Except.ok.inj h
    refine ⟨Or.inl hz, ?_⟩
    rw [hz, show digitCount 0 = 1 by decide]
    exact hp
  · split at h
    · cases h
    · rename_i hroom
      rw [shifted_eq_nearest] at h
      split at h
      · cases h
      · rename_i hfit
        obtain rfl := Except.ok.inj h
        rw [Bool.or_eq_true, not_or, decide_eq_true_eq] at hfit
        exact ⟨Or.inr (not_lt.mp hroom), Nat.le_of_not_lt hfit.1⟩

/-- **Rounding to an exponent** moves a number by half a unit at most. -/
theorem abs_quantize_sub_le {tie : Tie} {d r : Decimal} {e : ℤ} (h : ctx.quantize tie d e = .ok r) :
    |r.toRat - d.toRat| ≤ 10 ^ e / 2 := by
  obtain ⟨-, hn, hs⟩ := quantize_eq_ok h
  rw [abs_toRat_sub hn, hs]
  exact abs_nearest_mul_sub_le tie d e

end Context

/-! ## 3. Reciprocals -/

namespace Context

/-- Zeros are stripped without changing the number. -/
theorem stripZeros_value (bound : ℤ) (c : Nat) (e : ℤ) :
    ((stripZeros bound c e).1 : ℚ) * 10 ^ (stripZeros bound c e).2 = c * 10 ^ e := by
  fun_induction stripZeros bound c e with
  | case1 c e h ih =>
    obtain ⟨-, hten, -⟩ := h
    have hc : (c : ℚ) = (c / 10 : Nat) * 10 := by
      exact_mod_cast (Nat.div_mul_cancel (Nat.dvd_of_mod_eq_zero hten)).symm
    rw [ih, zpow_add₀ (by norm_num), zpow_one, hc]
    ring
  | case2 => rfl

/-- The integer part of a quotient is not below a power of ten that the quotient reaches. -/
theorem zpow_le_natDiv {n p : Nat} (hq : 1 ≤ n / p) {k : ℤ} (h : (10 : ℚ) ^ k ≤ n / p) :
    (10 : ℚ) ^ k ≤ (n / p : Nat) := by
  rcases le_or_gt 0 k with hk | hk
  · obtain ⟨j, rfl⟩ := Int.eq_ofNat_of_zero_le hk
    rw [zpow_natCast] at h ⊢
    have hj : ((10 ^ j : Nat) : ℚ) ≤ (n : ℚ) / p := by exact_mod_cast h
    have := Nat.le_floor hj
    rw [Nat.floor_div_eq_div] at this
    exact_mod_cast this
  · have hone : (10 : ℚ) ^ k ≤ 1 := zpow_le_one_of_nonpos₀ (by norm_num) hk.le
    exact hone.trans (by exact_mod_cast hq)

/-- The integer part of a quotient, or its successor, is off by 1 at most. -/
theorem abs_sub_natDiv_le {n p m : Nat} (hlow : n / p ≤ m) (hhigh : m ≤ n / p + 1) :
    |(m : ℚ) - n / p| ≤ 1 := by
  have hle := Nat.floor_le (by positivity : (0 : ℚ) ≤ n / p)
  have hlt := Nat.lt_floor_add_one (n / p : ℚ)
  rw [Nat.floor_div_eq_div] at hle hlt
  have hlow' : ((n / p : Nat) : ℚ) ≤ m := by exact_mod_cast hlow
  have hhigh' : (m : ℚ) ≤ (n / p : Nat) + 1 := by exact_mod_cast hhigh
  rw [abs_le]
  constructor <;> linarith

variable {ctx : Context}

/-- How many digits a reciprocal is carried to. -/
def carriedDigits (ctx : Context) (b : Decimal) : Nat :=
  digitCount b.coefficient + ctx.precision

/-- What is finished as a reciprocal, in units of the last digit carried: the integer part of the
quotient, or its successor if there is a remainder. -/
structure Carried (ctx : Context) (b d : Decimal) (m : Nat) : Prop where
  negative : d.negative = b.negative
  size : d.size = m * 10 ^ (-b.exponent - ctx.carriedDigits b : ℤ)
  low : 10 ^ ctx.carriedDigits b / b.coefficient ≤ m
  high : m ≤ 10 ^ ctx.carriedDigits b / b.coefficient + 1
  whole : b.coefficient ∣ 10 ^ ctx.carriedDigits b → m = 10 ^ ctx.carriedDigits b / b.coefficient

/-- **A reciprocal is carried to one digit beyond the precision**, and then finished. -/
theorem div_one_eq_ok {b r : Decimal} (h : ctx.div .one b = .ok r) :
    b.coefficient ≠ 0 ∧ ∃ d m, ctx.finish d = .ok r ∧ ctx.Carried b d m := by
  have hup : (digitCount b.coefficient - digitCount Decimal.one.coefficient + ctx.precision + 1 : ℤ) =
      ctx.carriedDigits b := by
    rw [show digitCount Decimal.one.coefficient = 1 by decide, carriedDigits]
    push_cast
    ring
  unfold div at h
  dsimp only at h
  have hone : ¬ Decimal.one.isZero = true := by decide
  rw [hup, if_neg hone] at h
  split at h
  · cases h
  rename_i hb
  refine ⟨isZero_false_iff.mp (Bool.not_eq_true _ ▸ hb), ?_⟩
  have hn : Decimal.one.coefficient * powerOfTen (ctx.carriedDigits b : ℤ).toNat =
      10 ^ ctx.carriedDigits b := by
    rw [Int.toNat_natCast, powerOfTen_eq]
    exact Nat.one_mul _
  have hd : b.coefficient * powerOfTen (-(ctx.carriedDigits b : ℤ)).toNat = b.coefficient := by
    rw [Int.toNat_neg_natCast]
    exact Nat.mul_one _
  have he : Decimal.one.exponent - b.exponent = -b.exponent := by
    rw [show Decimal.one.exponent = 0 from rfl, zero_sub]
  have hs : (Decimal.one.negative != b.negative) = b.negative := Bool.false_xor _
  rw [hn, hd, he, hs] at h
  split at h
  · refine ⟨_, 10 ^ ctx.carriedDigits b / b.coefficient, h,
      ⟨rfl, stripZeros_value _ _ _, le_rfl, Nat.le_succ _, fun _ => rfl⟩⟩
  · rename_i hrest
    refine ⟨_, _, h, ⟨rfl, rfl, ?_, ?_, fun hdvd => absurd (Nat.mod_eq_zero_of_dvd hdvd) hrest⟩⟩ <;>
      dsimp only <;> split <;> omega

/-- A reciprocal has more digits than the precision in front of the last one carried. -/
theorem pow_precision_le_quotient {b : Decimal} (hb : b.coefficient ≠ 0) :
    (10 : ℚ) ^ ctx.precision ≤ (10 ^ ctx.carriedDigits b : Nat) / b.coefficient := by
  have hpos : (0 : ℚ) < b.coefficient := Nat.cast_pos.mpr (Nat.pos_of_ne_zero hb)
  have hlt : (b.coefficient : ℚ) ≤ 10 ^ digitCount b.coefficient := by
    exact_mod_cast (lt_pow_digitCount b.coefficient).le
  rw [le_div_iff₀ hpos, carriedDigits, pow_add]
  push_cast
  linarith [mul_le_mul_of_nonneg_right hlt (by positivity : (0 : ℚ) ≤ 10 ^ ctx.precision)]

/-- The reciprocal of a magnitude is its quotient at the last digit carried. -/
theorem inv_size_eq (b : Decimal) :
    b.size⁻¹ = (10 ^ ctx.carriedDigits b : Nat) / b.coefficient *
      10 ^ (-b.exponent - ctx.carriedDigits b : ℤ) := by
  rw [size, zpow_sub₀ (by norm_num), zpow_natCast, zpow_neg, mul_inv]
  push_cast
  field_simp

namespace Carried

variable {b d : Decimal} {m : Nat}

/-- What is finished as a reciprocal is off by a unit in a digit beyond the precision. -/
theorem abs_sub_le (h : ctx.Carried b d m) (hb : b.coefficient ≠ 0) :
    |d.toRat - b.toRat⁻¹| ≤ 10 ^ (-ctx.precision : ℤ) * |b.toRat⁻¹| := by
  have hinv := @inv_size_eq ctx b
  have hquot := @pow_precision_le_quotient ctx b hb
  have hpos := ten_zpow_pos (-b.exponent - ctx.carriedDigits b : ℤ)
  rw [abs_toRat_sub_inv h.negative, abs_inv, abs_toRat, h.size, hinv, ← sub_mul, abs_mul,
    abs_of_pos hpos, ← mul_assoc]
  refine mul_le_mul_of_nonneg_right ((abs_sub_natDiv_le h.low h.high).trans ?_) hpos.le
  rw [zpow_neg, zpow_natCast, inv_mul_eq_div]
  exact (one_le_div (by positivity)).mpr hquot

/-- What is finished as a reciprocal is in range if the reciprocal is: where the quotient reaches a
power of ten, its integer part does. -/
theorem inRange (h : ctx.Carried b d m) (hb : b.coefficient ≠ 0) (hn : InRange b.toRat⁻¹) :
    InRange d.toRat := by
  have hquot := @pow_precision_le_quotient ctx b hb
  have hpos := ten_zpow_pos (-b.exponent - ctx.carriedDigits b : ℤ)
  have hinv0 : b.toRat⁻¹ ≠ 0 := inv_ne_zero fun h0 => hb (toRat_eq_zero_iff.mp h0)
  have hle := hn.resolve_left hinv0
  rw [abs_inv, abs_toRat, @inv_size_eq ctx b, ← div_le_iff₀ hpos, ← zpow_sub₀ (by norm_num)] at hle
  have hone : 1 ≤ 10 ^ ctx.carriedDigits b / b.coefficient := by
    have hpow : (1 : ℚ) ≤ 10 ^ ctx.precision := one_le_pow₀ (by norm_num)
    have hcast : ((1 : Nat) : ℚ) ≤ (10 ^ ctx.carriedDigits b : Nat) / b.coefficient := by
      exact_mod_cast hpow.trans hquot
    have hfloor := Nat.le_floor hcast
    rwa [Nat.floor_div_eq_div] at hfloor
  have hm : ((10 ^ ctx.carriedDigits b / b.coefficient : Nat) : ℚ) ≤ m := by exact_mod_cast h.low
  refine Or.inr ?_
  rw [abs_toRat, h.size, ← div_le_iff₀ hpos, ← zpow_sub₀ (by norm_num)]
  exact (zpow_le_natDiv hone hle).trans hm

end Carried

/-- **The reciprocal of a number** is off by a unit in a digit beyond the precision, and then by
half a unit of the last digit. -/
theorem abs_inverse_sub_le (hp : 0 < ctx.precision) {b r : Decimal} (h : ctx.div .one b = .ok r)
    (hn : InRange b.toRat⁻¹) :
    |r.toRat - b.toRat⁻¹| ≤
      (10 ^ (-ctx.precision : ℤ) +
        10 ^ (1 - ctx.precision : ℤ) / 2 * (1 + 10 ^ (-ctx.precision : ℤ))) * |b.toRat⁻¹| := by
  obtain ⟨hb, d, m, hfin, hcarried⟩ := div_one_eq_ok h
  have hclose := hcarried.abs_sub_le hb
  have hround := abs_finish_sub_le hp hfin (hcarried.inRange hb hn)
  have hsum : |d.toRat| ≤ (1 + 10 ^ (-ctx.precision : ℤ)) * |b.toRat⁻¹| := by
    linarith [abs_sub_abs_le_abs_sub d.toRat b.toRat⁻¹]
  have hscaled := mul_le_mul_of_nonneg_left hsum
    (by positivity : (0 : ℚ) ≤ 10 ^ (1 - ctx.precision : ℤ) / 2)
  linarith [abs_sub_le r.toRat d.toRat b.toRat⁻¹]

/-! ## 4. Differences -/

/-- The exact sum. -/
theorem toRat_exactSum (a b : Decimal) : (exactSum a b).toRat = a.toRat + b.toRat := by
  obtain ⟨e, he⟩ : ∃ e, min a.exponent b.exponent = e := ⟨_, rfl⟩
  let signed (d : Decimal) : ℤ :=
    if d.negative then -(d.coefficient * powerOfTen (d.exponent - e).toNat : ℤ)
    else d.coefficient * powerOfTen (d.exponent - e).toNat
  have hsigned : ∀ d : Decimal, e ≤ d.exponent → (signed d : ℚ) * 10 ^ e = d.toRat := by
    intro d hd
    have hsize := size_div_zpow_of_le hd
    rw [div_eq_iff (ten_zpow_pos e).ne'] at hsize
    unfold toRat
    rw [hsize]
    dsimp only [signed]
    rw [powerOfTen_eq]
    cases d.negative
    · push_cast
      rfl
    · push_cast
      exact neg_mul _ _
  have hnat : ∀ s : ℤ, toRat ⟨decide (s < 0), s.natAbs, e⟩ = s * 10 ^ e := by
    intro s
    unfold toRat size
    rcases lt_or_ge s 0 with hs | hs
    · rw [if_pos (decide_eq_true hs), Nat.cast_natAbs, abs_of_neg hs]
      push_cast
      ring
    · rw [if_neg (by simpa using hs), Nat.cast_natAbs, abs_of_nonneg hs]
  have hsum : exactSum a b = ⟨decide (signed a + signed b < 0), (signed a + signed b).natAbs, e⟩ := by
    unfold exactSum
    simp only [he, signed]
  rw [hsum, hnat, Int.cast_add, add_mul, hsigned a (he ▸ min_le_left _ _),
    hsigned b (he ▸ min_le_right _ _)]

/-- A zero stays a zero in every context. -/
theorem finish_of_toRat_eq_zero {d : Decimal} (h : d.toRat = 0) :
    ∃ r, ctx.finish d = .ok r ∧ r.toRat = 0 := by
  have hz := toRat_eq_zero_iff.mp h
  rw [finish_eq, if_pos (isZero_iff.mpr hz)]
  exact ⟨_, rfl, toRat_eq_zero_iff.mpr hz⟩

/-- A summand whose leading digit is not below the last digit of the other is needed as it is. -/
theorem relevant_of_le {large small : Decimal} (h : large.exponent ≤ small.adjusted) :
    ctx.relevant large small = small := by
  unfold relevant
  dsimp only
  rw [if_neg]
  omega

theorem toRat_neg (d : Decimal) : d.neg.toRat = -d.toRat := by
  unfold toRat neg size
  cases d.negative <;> simp

/-- **A number less itself is zero**, however the two are written. -/
theorem sub_of_toRat_eq {a b : Decimal} (h : a.toRat = b.toRat) :
    ∃ r, ctx.sub a b = .ok r ∧ r.toRat = 0 := by
  have hsum : a.toRat + b.neg.toRat = 0 := by rw [toRat_neg, h, add_neg_cancel]
  unfold sub add
  split
  · rename_i ha
    have ha0 : a.toRat = 0 := toRat_eq_zero_iff.mpr (isZero_iff.mp ha)
    exact finish_of_toRat_eq_zero (by rwa [ha0, zero_add] at hsum)
  split
  · rename_i hb
    have hb0 : b.neg.toRat = 0 := toRat_eq_zero_iff.mpr (isZero_iff.mp hb)
    exact finish_of_toRat_eq_zero (by rwa [hb0, add_zero] at hsum)
  rename_i ha hb
  have ha0 : a.coefficient ≠ 0 := isZero_false_iff.mp (Bool.not_eq_true _ ▸ ha)
  have hsize : a.size = b.neg.size := (size_eq_of_toRat_eq h : a.size = b.size)
  have hlead : a.adjusted = b.neg.adjusted := adjusted_eq_of_size_eq hsize ha0
  have hle : ∀ d : Decimal, d.exponent ≤ d.adjusted := by
    intro d
    have : 0 < digitCount d.coefficient := Nat.length_toDigits_pos
    unfold adjusted
    omega
  split
  · rw [relevant_of_le (hlead ▸ hle _)]
    exact finish_of_toRat_eq_zero (by rw [toRat_exactSum, hsum])
  · rw [relevant_of_le (hlead ▸ hle _)]
    exact finish_of_toRat_eq_zero (by rw [toRat_exactSum, hsum])

end Context

end ModelScale
