import Mathlib.Algebra.Order.Floor.Semifield
import ModelScale.Literal
import ModelScale.Proofs.Decimal.Value
import ModelScale.Proofs.Outcome

/-
# Rounding belongs to the number

The arithmetic works on coefficients and exponents, and one number has many pairs of these: a scale
that was asked for as `2.0` is read back as `2`.  What comes of a calculation is the same either
way.  Main statements:

* `dropDigits_eq_nearest`: dropping digits is rounding the quotient (`nearest`);
* `finish_congr`, `abs_congr`, `mul_congr`: the results for two decimals of one number are decimals
  of one number, or the same fault;
* `scaleDecimal_congr`, `scaleLiteral_congr`: a scaled literal is the very same text.
-/

namespace ModelScale

open Decimal

/-! ## 1. The nearest natural number -/

/-- The natural number nearest to a rational that is not negative. -/
def nearest (tie : Tie) (x : ℚ) : Nat :=
  let q := ⌊x⌋₊
  if 2 * (x - q) < 1 then q
  else if 1 < 2 * (x - q) then q + 1
  else match tie with
    | .even => q + q % 2
    | .away => q + 1

theorem floor_le_nearest (tie : Tie) (x : ℚ) : ⌊x⌋₊ ≤ nearest tie x := by
  unfold nearest
  dsimp only
  split
  · exact le_rfl
  · split
    · exact Nat.le_succ _
    · cases tie <;> simp

theorem nearest_le_floor_add_one (tie : Tie) (x : ℚ) : nearest tie x ≤ ⌊x⌋₊ + 1 := by
  unfold nearest
  dsimp only
  split
  · exact Nat.le_succ _
  · split
    · exact le_rfl
    · cases tie
      · have := Nat.mod_lt ⌊x⌋₊ (by decide : 0 < 2)
        dsimp only
        omega
      · exact le_rfl

@[simp] theorem nearest_natCast (tie : Tie) (n : Nat) : nearest tie n = n := by
  simp [nearest]

theorem roundQuotient_eq_nearest (tie : Tie) (n : Nat) {d : Nat} (hd : 0 < d) :
    roundQuotient tie n d = nearest tie (n / d) := by
  have hd' : (0 : ℚ) < d := Nat.cast_pos.mpr hd
  have hn : (n : ℚ) = d * (n / d : Nat) + (n % d : Nat) := by
    exact_mod_cast (Nat.div_add_mod n d).symm
  have hr : 2 * ((n : ℚ) / d - (n / d : Nat)) = 2 * (n % d : Nat) / d := by
    rw [hn]
    field_simp
    ring
  unfold roundQuotient nearest
  dsimp only
  simp only [Nat.floor_div_eq_div, hr, div_lt_one hd', one_lt_div hd']
  norm_cast

/-- **Dropping digits is rounding.**  A number that is shorter than what is dropped is less than a
tenth of the unit. -/
theorem dropDigits_eq_nearest (tie : Tie) (n k : Nat) :
    dropDigits tie n k = nearest tie (n / 10 ^ k) := by
  unfold dropDigits
  split
  · rename_i hlt
    obtain ⟨j, rfl⟩ : ∃ j, k = j + 1 := ⟨k - 1, by omega⟩
    have hn : n < 10 ^ j :=
      lt_of_lt_of_le (lt_pow_digitCount n) (Nat.pow_le_pow_right (by decide) (by omega))
    have hq : (n : ℚ) / 10 ^ (j + 1) < 1 / 10 := by
      rw [pow_succ, div_lt_div_iff₀ (by positivity) (by norm_num)]
      have : (n : ℚ) < 10 ^ j := by exact_mod_cast hn
      linarith
    have hf : ⌊(n : ℚ) / 10 ^ (j + 1)⌋₊ = 0 := Nat.floor_eq_zero.mpr (by linarith)
    unfold nearest
    rw [hf, if_pos]
    push_cast
    linarith
  · rw [powerOfTen_eq, roundQuotient_eq_nearest tie n (by positivity)]
    push_cast
    rfl

/-! ## 2. At an exponent -/

namespace Decimal

/-- The magnitude in units of a power of ten. -/
theorem size_div_zpow (d : Decimal) (e : ℤ) :
    d.size / 10 ^ e = d.coefficient * 10 ^ (d.exponent - e) := by
  rw [size, zpow_sub₀ (by norm_num), mul_div_assoc]

theorem size_div_zpow_of_le {d : Decimal} {e : ℤ} (h : e ≤ d.exponent) :
    d.size / 10 ^ e = ((d.coefficient * 10 ^ (d.exponent - e).toNat : Nat) : ℚ) := by
  have he : d.exponent - e = ((d.exponent - e).toNat : ℤ) := by omega
  rw [size_div_zpow, he, zpow_natCast, Int.toNat_natCast]
  push_cast
  rfl

theorem size_div_zpow_of_ge {d : Decimal} {e : ℤ} (h : d.exponent ≤ e) :
    d.size / 10 ^ e = d.coefficient / 10 ^ (e - d.exponent).toNat := by
  have he : d.exponent - e = -((e - d.exponent).toNat : ℤ) := by omega
  rw [size_div_zpow, he, zpow_neg, zpow_natCast, div_eq_mul_inv]

/-- A decimal without digits below an exponent is rounded to itself there. -/
theorem nearest_mul_of_le {d : Decimal} {e : ℤ} (h : e ≤ d.exponent) (tie : Tie) :
    nearest tie (d.size / 10 ^ e) * 10 ^ e = d.size := by
  have hp := ten_zpow_pos e
  rw [size_div_zpow_of_le h, nearest_natCast, ← size_div_zpow_of_le h]
  field_simp

theorem toRat_congr {a b : Decimal} (hn : a.negative = b.negative) (hs : a.size = b.size) :
    a.toRat = b.toRat := by
  rw [toRat, toRat, hn, hs]

theorem coefficient_eq_zero_congr {a b : Decimal} (h : a.toRat = b.toRat) :
    a.coefficient = 0 ↔ b.coefficient = 0 := by
  rw [← toRat_eq_zero_iff, ← toRat_eq_zero_iff, h]

theorem isZero_congr {a b : Decimal} (h : a.toRat = b.toRat) : a.isZero = b.isZero := by
  rw [Bool.eq_iff_iff, isZero_iff, isZero_iff, coefficient_eq_zero_congr h]

end Decimal

/-! ## 3. Bringing a result into a context -/

namespace Context

variable {ctx : Context}

@[simp] theorem shorten_negative (d : Decimal) : (ctx.shorten d).negative = d.negative := by
  unfold shorten
  dsimp only
  split
  · rfl
  · split <;> rfl

/-- The exponent of the last digit that the precision leaves a number. -/
def lastPlace (ctx : Context) (d : Decimal) : ℤ :=
  d.adjusted - ctx.precision + 1

/-- **Shortening rounds at the last place.**  Rounding up can carry into one more digit, and that
digit is a zero which is dropped. -/
theorem size_shorten (hp : 0 < ctx.precision) (d : Decimal) :
    (ctx.shorten d).size =
      nearest .even (d.size / 10 ^ ctx.lastPlace d) * 10 ^ ctx.lastPlace d := by
  have hplace : ctx.lastPlace d = d.exponent + digitCount d.coefficient - ctx.precision := by
    unfold lastPlace adjusted; omega
  unfold shorten
  dsimp only
  split
  · exact (nearest_mul_of_le (by omega) _).symm
  · rename_i hex
    obtain ⟨k, hk⟩ : ∃ k, digitCount d.coefficient - ctx.precision = k := ⟨_, rfl⟩
    have hlast : ctx.lastPlace d = d.exponent + k := by omega
    have hq : d.size / 10 ^ (d.exponent + k) = d.coefficient / 10 ^ k := by
      rw [size_div_zpow_of_ge (by omega)]
      congr
      omega
    have hc := dropDigits_eq_nearest .even d.coefficient k
    rw [hk, hlast, hq, ← hc]
    split
    · rfl
    · rename_i hcarry
      -- the quotient has no more digits than the precision, so the carry makes a power of ten
      have hlt : (d.coefficient : ℚ) / 10 ^ k < (10 ^ ctx.precision : Nat) := by
        rw [div_lt_iff₀ (by positivity)]
        push_cast
        rw [← pow_add]
        have hd := lt_pow_digitCount d.coefficient
        rw [show digitCount d.coefficient = ctx.precision + k by omega] at hd
        exact_mod_cast hd
      have hle : dropDigits .even d.coefficient k ≤ 10 ^ ctx.precision := by
        have := (Nat.floor_lt (by positivity)).mpr hlt
        have := nearest_le_floor_add_one .even ((d.coefficient : ℚ) / 10 ^ k)
        omega
      have hge : 10 ^ ctx.precision ≤ dropDigits .even d.coefficient k := by
        by_contra h
        exact hcarry ((digitCount_le_iff hp).mpr (by omega))
      obtain ⟨m, hm⟩ : ∃ m, ctx.precision = m + 1 := ⟨ctx.precision - 1, by omega⟩
      have hten : dropDigits .even d.coefficient k = 10 ^ m * 10 := by
        rw [← pow_succ, ← hm]
        omega
      rw [size, hten, Nat.mul_div_cancel _ (by decide), zpow_add₀ (by norm_num), zpow_one]
      push_cast
      ring

theorem shorten_coefficient_ne_zero (hp : 0 < ctx.precision) {d : Decimal}
    (h : d.coefficient ≠ 0) : (ctx.shorten d).coefficient ≠ 0 := by
  intro hz
  have hs := size_shorten hp d
  have hone : (1 : ℚ) ≤ d.size / 10 ^ ctx.lastPlace d := by
    rw [one_le_div (ten_zpow_pos _)]
    exact (zpow_le_zpow_right₀ (by norm_num) (by unfold lastPlace; omega)).trans
      (zpow_adjusted_le h)
  have hn : 1 ≤ nearest .even (d.size / 10 ^ ctx.lastPlace d) :=
    ((Nat.one_le_floor_iff _).mpr hone).trans (floor_le_nearest _ _)
  rw [size_eq_zero_iff.mpr hz, eq_comm, mul_eq_zero] at hs
  rcases hs with hs | hs
  · rw [Nat.cast_eq_zero] at hs
    omega
  · exact absurd hs (ten_zpow_pos _).ne'

/-- A result below the normal range: it is rounded at the smallest exponent. -/
def flush (ctx : Context) (d : Decimal) : Decimal :=
  if d.exponent < ctx.tiniest then
    ⟨d.negative, dropDigits .even d.coefficient (ctx.tiniest - d.exponent).toNat, ctx.tiniest⟩
  else d

@[simp] theorem flush_negative (d : Decimal) : (ctx.flush d).negative = d.negative := by
  unfold flush
  split <;> rfl

theorem size_flush (d : Decimal) :
    (ctx.flush d).size = nearest .even (d.size / 10 ^ ctx.tiniest) * 10 ^ ctx.tiniest := by
  unfold flush
  split
  · rename_i hlt
    rw [size, dropDigits_eq_nearest, size_div_zpow_of_ge hlt.le]
  · rename_i hge
    exact (nearest_mul_of_le (by omega) _).symm

theorem finish_eq (d : Decimal) :
    ctx.finish d =
      if d.isZero then .ok { d with exponent := min maxExponent (max ctx.tiniest d.exponent) }
      else if maxExponent < d.adjusted then .error .overflow
      else if d.adjusted < minExponent then .ok (ctx.flush d)
      else if maxExponent < (ctx.shorten d).adjusted then .error .overflow
      else .ok (ctx.shorten d) := by
  unfold finish flush
  dsimp only
  split_ifs <;> rfl

/-- **A finished result belongs to the number**, and so does the fault. -/
theorem finish_congr (hp : 0 < ctx.precision) {a b : Decimal} (h : a.toRat = b.toRat) :
    (ctx.finish a).map toRat = (ctx.finish b).map toRat := by
  have hz := isZero_congr h
  rw [finish_eq, finish_eq, hz]
  by_cases hb : b.isZero
  · have ha : a.coefficient = 0 := isZero_iff.mp (hz.trans hb)
    rw [if_pos hb, if_pos hb]
    have hzero : ∀ (d : Decimal) (e : ℤ), d.coefficient = 0 → toRat { d with exponent := e } = 0 :=
      fun _ _ h => toRat_eq_zero_iff.mpr h
    exact congrArg Except.ok ((hzero a _ ha).trans (hzero b _ (isZero_iff.mp hb)).symm)
  · have ha : a.coefficient ≠ 0 := isZero_false_iff.mp (hz.trans (Bool.not_eq_true _ ▸ hb))
    have hb' : b.coefficient ≠ 0 := (coefficient_eq_zero_congr h).not.mp ha
    have hn := negative_eq_of_toRat_eq h ha
    have hs := size_eq_of_toRat_eq h
    have hadj := adjusted_eq_of_size_eq hs ha
    have hplace : ctx.lastPlace a = ctx.lastPlace b := by rw [lastPlace, hadj, lastPlace]
    have hshort : (ctx.shorten a).size = (ctx.shorten b).size := by
      rw [size_shorten hp, size_shorten hp, hs, hplace]
    have hsadj := adjusted_eq_of_size_eq hshort (shorten_coefficient_ne_zero hp ha)
    rw [if_neg hb, if_neg hb, hadj, hsadj]
    split
    · rfl
    · split
      · refine congrArg Except.ok (toRat_congr (by simpa using hn) ?_)
        rw [size_flush, size_flush, hs]
      · split
        · rfl
        · exact congrArg Except.ok (toRat_congr (by simpa using hn) hshort)

/-! ## 4. Operations -/

theorem abs_congr (hp : 0 < ctx.precision) {a b : Decimal} (h : a.toRat = b.toRat) :
    (ctx.abs a).map toRat = (ctx.abs b).map toRat := by
  refine finish_congr hp ?_
  rw [toRat_magnitude, toRat_magnitude]
  exact size_eq_of_toRat_eq h

/-- The exact product. -/
theorem toRat_product (a b : Decimal) :
    toRat ⟨a.negative != b.negative, a.coefficient * b.coefficient, a.exponent + b.exponent⟩ =
      a.toRat * b.toRat := by
  unfold toRat size
  rw [zpow_add₀ (by norm_num)]
  push_cast
  cases a.negative <;> cases b.negative <;> simp <;> ring

theorem mul_congr (hp : 0 < ctx.precision) (d : Decimal) {a b : Decimal} (h : a.toRat = b.toRat) :
    (ctx.mul d a).map toRat = (ctx.mul d b).map toRat := by
  refine finish_congr hp ?_
  rw [toRat_product, toRat_product, h]

/-- A zero without a sign; what is not zero is left alone. -/
def plainZero (d : Decimal) : Decimal :=
  if d.isZero then d.magnitude else d

/-- What is left of a coefficient at an exponent is the magnitude in units of it, rounded. -/
theorem shifted_eq_nearest (tie : Tie) (d : Decimal) (e : ℤ) :
    (if 0 ≤ d.exponent - e then d.coefficient * powerOfTen (d.exponent - e).toNat
      else dropDigits tie d.coefficient (-(d.exponent - e)).toNat) =
      nearest tie (d.size / 10 ^ e) := by
  split
  · rw [size_div_zpow_of_le (by omega), nearest_natCast, powerOfTen_eq]
  · rw [dropDigits_eq_nearest, size_div_zpow_of_ge (by omega)]
    congr
    omega

/-- **Rounding to an exponent leaves one decimal of the number**, once a zero has no sign. -/
theorem quantize_congr (tie : Tie) (e : ℤ) {a b : Decimal} (h : a.toRat = b.toRat) :
    (ctx.quantize tie a e).map plainZero = (ctx.quantize tie b e).map plainZero := by
  have hz := isZero_congr h
  unfold quantize
  dsimp only
  rw [hz]
  by_cases hb : b.isZero
  · have ha : a.coefficient = 0 := isZero_iff.mp (hz.trans hb)
    rw [if_pos hb, if_pos hb]
    refine congrArg Except.ok ?_
    simp [plainZero, isZero, magnitude, ha, isZero_iff.mp hb]
  · have ha : a.coefficient ≠ 0 := isZero_false_iff.mp (hz.trans (Bool.not_eq_true _ ▸ hb))
    have hs := size_eq_of_toRat_eq h
    have hadj := adjusted_eq_of_size_eq hs ha
    have hdigits : (digitCount a.coefficient : ℤ) + (a.exponent - e) =
        digitCount b.coefficient + (b.exponent - e) := by
      unfold adjusted at hadj
      omega
    rw [if_neg hb, if_neg hb, hdigits, shifted_eq_nearest, shifted_eq_nearest, hs,
      negative_eq_of_toRat_eq h ha]

end Context

/-! ## 5. Scaled literals -/

open Context

theorem scaleDecimal_eq (d factor : Decimal) (e : ℤ) :
    scaleDecimal d factor e =
      (extended.mul d factor).bind fun p => (extended.quantize .away p e).map plainZero := rfl

/-- A decimal is scaled by the number of the factor. -/
theorem scaleDecimal_congr (d : Decimal) {a b : Decimal} (h : a.toRat = b.toRat) (e : ℤ) :
    scaleDecimal d a e = scaleDecimal d b e := by
  have hm := mul_congr (by decide : 0 < extended.precision) d h
  rw [scaleDecimal_eq, scaleDecimal_eq]
  cases ha : extended.mul d a with
  | error f =>
    cases hb : extended.mul d b with
    | error g =>
      rw [ha, hb] at hm
      exact congrArg Except.error (Except.error.inj hm)
    | ok q => rw [ha, hb] at hm; cases hm
  | ok p =>
    cases hb : extended.mul d b with
    | error g => rw [ha, hb] at hm; cases hm
    | ok q =>
      rw [ha, hb] at hm
      exact quantize_congr .away e (Except.ok.inj hm)

/-- **A literal is scaled by the number of the factor**, however the factor is written. -/
theorem scaleLiteral_congr (written : Text) {a b : Decimal} (h : a.toRat = b.toRat)
    (places? : Option ℤ) :
    scaleLiteral written (.exact a) places? = scaleLiteral written (.exact b) places? := by
  simp only [scaleLiteral, Quantity.value_exact, Except.bind, bind, scaleDecimal_congr _ h]

end ModelScale
