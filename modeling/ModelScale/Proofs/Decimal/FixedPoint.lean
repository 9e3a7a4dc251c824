import ModelScale.Proofs.Decimal.ThereAndBack

/-
# Scaling is one rounding in fixed point

A scaled literal goes through a product of fifty digits, a rounding to a unit and a printer.  If the
product has no more digits than the precision, then nothing happens to the number but one rounding,
half away from zero, and what is printed is the rounded number in fixed point.  Main statements:

* `Context.finish_of_hasDigits`: a number that fits the precision is not changed by it;
* `Context.quantize_of_lt`, `Context.quantize_of_le`: when a number can be rounded to a unit,
  and to what;
* `scaleLiteral_exact`: the text of a scaled literal, or the fault.

The rounding (`roundAway`) and the written form (`InFixedPoint`) are given here on their own, by a
floor and by the digits around a point.
-/

namespace ModelScale

open Decimal Context Numeral

/-! ## 1. Digits, ranges and units -/

/-- The number has at most so many significant digits. -/
def HasDigits (n : ℕ) (x : ℚ) : Prop :=
  ∃ (m : ℕ) (k : ℤ), m < 10 ^ n ∧ |x| = m * 10 ^ k

/-- The number is zero, or its leading digit is in the normal range of a context. -/
structure Normal (x : ℚ) : Prop where
  low : InRange x
  high : |x| < 10 ^ (Context.maxExponent + 1)

theorem normal_of_zpow {x : ℚ} {a b : ℤ} (ha : Context.minExponent ≤ a)
    (hb : b ≤ Context.maxExponent + 1) (hlow : 10 ^ a ≤ |x|) (hhigh : |x| < 10 ^ b) : Normal x :=
  ⟨Or.inr ((zpow_le_zpow_right₀ (by norm_num) ha).trans hlow),
    hhigh.trans_le (zpow_le_zpow_right₀ (by norm_num) hb)⟩

/-- The nearest number with so many fractional digits.  Halves go away from zero. -/
def roundAway (places : ℕ) (x : ℚ) : ℚ :=
  let size : ℚ := ⌊|x| * 10 ^ places + 1 / 2⌋₊ / 10 ^ places
  if x < 0 then -size else size

/-- The text writes the number with so many digits behind a point, and without a point if there are
none.  There is a sign only for a number below zero, and no exponent. -/
def InFixedPoint (x : ℚ) (places : ℕ) (t : Text) : Prop :=
  ∃ whole fraction : Text, Text.Digits whole ∧ Text.Digits fraction ∧ whole ≠ [] ∧
    fraction.length = places ∧ t = fixedPoint (decide (x < 0)) whole fraction ∧
    (Text.digitsValue (whole ++ fraction) : ℚ) = |x| * 10 ^ places

theorem abs_roundAway (places : ℕ) (x : ℚ) :
    |roundAway places x| = ⌊|x| * 10 ^ places + 1 / 2⌋₊ / 10 ^ places := by
  have hsize : (0 : ℚ) ≤ ⌊|x| * 10 ^ places + 1 / 2⌋₊ / 10 ^ places := by positivity
  unfold roundAway
  dsimp only
  split
  · rw [abs_neg, abs_of_nonneg hsize]
  · exact abs_of_nonneg hsize

/-- A magnitude in whole units of so many places, and the magnitude itself, are half a unit apart at
most. -/
theorem abs_floor_half_sub_le (places : ℕ) {s : ℚ} (hs : 0 ≤ s) :
    |⌊s * 10 ^ places + 1 / 2⌋₊ / 10 ^ places - s| ≤ (10 ^ places)⁻¹ / 2 := by
  have hunit : (0 : ℚ) < (10 ^ places)⁻¹ := by positivity
  have hle := Nat.floor_le (by positivity : 0 ≤ s * 10 ^ places + 1 / 2)
  have hlt := Nat.lt_floor_add_one (s * 10 ^ places + 1 / 2)
  have he : ⌊s * 10 ^ places + 1 / 2⌋₊ / 10 ^ places - s =
      (⌊s * 10 ^ places + 1 / 2⌋₊ - s * 10 ^ places) * (10 ^ places)⁻¹ := by
    field_simp
  have hhalf : |⌊s * 10 ^ places + 1 / 2⌋₊ - s * 10 ^ places| ≤ 1 / 2 := by
    rw [abs_le]
    constructor <;> linarith
  rw [he, abs_mul, abs_of_pos hunit]
  linarith [mul_le_mul_of_nonneg_right hhalf hunit.le]

/-- Rounding is to the nearest number. -/
theorem abs_roundAway_sub_le (places : ℕ) (x : ℚ) :
    |roundAway places x - x| ≤ (10 ^ places)⁻¹ / 2 := by
  have hsize := abs_floor_half_sub_le places (abs_nonneg x)
  unfold roundAway
  dsimp only
  split
  · rename_i hx
    rw [abs_sub_comm] at hsize
    rw [abs_of_neg hx] at hsize ⊢
    convert hsize using 2
    ring
  · rename_i hx
    rwa [abs_of_nonneg (not_lt.mp hx)] at hsize ⊢

/-- Nearest with halves going up is a floor. -/
theorem nearest_away {x : ℚ} (hx : 0 ≤ x) : nearest .away x = ⌊x + 1 / 2⌋₊ := by
  have hle := Nat.floor_le hx
  have hlt := Nat.lt_floor_add_one x
  symm
  unfold nearest
  dsimp only
  split
  · rw [Nat.floor_eq_iff (by linarith)]
    constructor <;> linarith
  · split
    · rw [Nat.floor_eq_iff (by linarith)]
      push_cast
      constructor <;> linarith
    · rw [Nat.floor_eq_iff (by linarith)]
      push_cast
      constructor <;> linarith

/-! ## 2. A product that fits -/

namespace Context

variable {ctx : Context}

/-- A number with no more digits than the precision has none below the last place. -/
theorem size_shorten_of_hasDigits (hp : 0 < ctx.precision) {d : Decimal} (hz : d.coefficient ≠ 0)
    (h : HasDigits ctx.precision d.toRat) : (ctx.shorten d).size = d.size := by
  obtain ⟨m, k, hm, hx⟩ := h
  rw [abs_toRat] at hx
  have hk : ctx.lastPlace d ≤ k := by
    have hupper : d.size < 10 ^ (ctx.precision + k) := by
      rw [hx, zpow_add₀ (by norm_num), zpow_natCast]
      exact mul_lt_mul_of_pos_right (by exact_mod_cast hm) (ten_zpow_pos k)
    have hlead := (zpow_lt_zpow_iff_right₀ (by norm_num)).mp ((zpow_adjusted_le hz).trans_lt hupper)
    unfold lastPlace
    omega
  have hself := nearest_mul_of_le (d := ⟨false, m, k⟩) hk .even
  rw [show size ⟨false, m, k⟩ = d.size from hx.symm] at hself
  rw [size_shorten hp, hself]

/-- **A number that fits the precision is not changed by it**, unless it overflows. -/
theorem toRat_finish_of_hasDigits (hp : 0 < ctx.precision) {d r : Decimal}
    (h : HasDigits ctx.precision d.toRat) (hn : InRange d.toRat) (hr : ctx.finish d = .ok r) :
    r.toRat = d.toRat := by
  rw [finish_eq] at hr
  split at hr
  · rename_i hz
    obtain rfl := Except.ok.inj hr
    rw [toRat_eq_zero_iff.mpr (isZero_iff.mp hz)]
    exact toRat_eq_zero_iff.mpr (isZero_iff.mp hz)
  · rename_i hz
    have hz : d.coefficient ≠ 0 := isZero_false_iff.mp (Bool.not_eq_true _ ▸ hz)
    split at hr
    · cases hr
    · rw [if_neg (not_lt.mpr (hn.le_adjusted hz))] at hr
      split at hr
      · cases hr
      · obtain rfl := Except.ok.inj hr
        exact toRat_congr (shorten_negative d) (size_shorten_of_hasDigits hp hz h)

/-- **A number in the normal range that fits the precision** is left as it is. -/
theorem finish_of_hasDigits (hp : 0 < ctx.precision) {d : Decimal}
    (h : HasDigits ctx.precision d.toRat) (hn : Normal d.toRat) :
    ∃ r, ctx.finish d = .ok r ∧ r.negative = d.negative ∧ r.toRat = d.toRat := by
  have hok : ∃ r, ctx.finish d = .ok r ∧ r.negative = d.negative := by
    rw [finish_eq]
    split
    · exact ⟨_, rfl, rfl⟩
    · rename_i hz
      have hz : d.coefficient ≠ 0 := isZero_false_iff.mp (Bool.not_eq_true _ ▸ hz)
      have htop : d.adjusted ≤ maxExponent := by
        have hhigh := hn.high
        rw [abs_toRat] at hhigh
        have := (zpow_lt_zpow_iff_right₀ (by norm_num)).mp ((zpow_adjusted_le hz).trans_lt hhigh)
        omega
      have hsame : (ctx.shorten d).adjusted = d.adjusted :=
        adjusted_eq_of_size_eq (size_shorten_of_hasDigits hp hz h)
          (shorten_coefficient_ne_zero hp hz)
      rw [if_neg (not_lt.mpr htop), if_neg (not_lt.mpr (hn.low.le_adjusted hz)), hsame,
        if_neg (not_lt.mpr htop)]
      exact ⟨_, rfl, shorten_negative d⟩
  obtain ⟨r, hr, hneg⟩ := hok
  exact ⟨r, hr, hneg, toRat_finish_of_hasDigits hp h hn.low hr⟩

/-! ## 3. Rounding to a unit -/

/-- A number whose rounded magnitude has more units than the precision has digits cannot be rounded
to the unit. -/
theorem quantize_of_le (hp : 0 < ctx.precision) {tie : Tie} {d : Decimal} {e : ℤ}
    (h : 10 ^ ctx.precision ≤ nearest tie (d.size / 10 ^ e)) :
    ctx.quantize tie d e = .error .invalidOperation := by
  unfold quantize
  dsimp only
  split
  · rename_i hz
    rw [size_eq_zero_iff.mpr (isZero_iff.mp hz), zero_div,
      show nearest tie 0 = 0 from nearest_natCast tie 0] at h
    exact absurd h (Nat.not_le_of_lt (Nat.pow_pos (by decide)))
  · split
    · rfl
    · rw [shifted_eq_nearest, if_pos]
      rw [Bool.or_eq_true, decide_eq_true_eq]
      refine Or.inl (Nat.lt_of_not_le fun hfit => ?_)
      exact absurd ((digitCount_le_iff hp).mp hfit) (not_lt.mpr h)

/-- **A number whose rounded magnitude fits the precision can be rounded to the unit.** -/
theorem quantize_of_lt (hp : 0 < ctx.precision) {tie : Tie} {d : Decimal} {e : ℤ}
    (htop : e + ctx.precision ≤ maxExponent + 1)
    (h : nearest tie (d.size / 10 ^ e) < 10 ^ ctx.precision) :
    ctx.quantize tie d e = .ok ⟨d.negative, nearest tie (d.size / 10 ^ e), e⟩ := by
  unfold quantize
  dsimp only
  split
  · rename_i hz
    have hz := isZero_iff.mp hz
    rw [size_eq_zero_iff.mpr hz, zero_div, show nearest tie 0 = 0 from nearest_natCast tie 0, ← hz]
  · rename_i hz
    have hz : d.coefficient ≠ 0 := isZero_false_iff.mp (Bool.not_eq_true _ ▸ hz)
    rw [if_neg, shifted_eq_nearest, if_neg]
    · have hfit := (digitCount_le_iff hp).mpr h
      rw [Bool.or_eq_true, decide_eq_true_eq, decide_eq_true_eq, not_or]
      unfold adjusted
      dsimp only
      omega
    · -- a leading digit that stands too high would not fit when it is rounded
      intro hroom
      have hlead : (10 : ℚ) ^ (ctx.precision + e) ≤ d.size :=
        (zpow_le_zpow_right₀ (by norm_num) (by unfold adjusted; omega)).trans (zpow_adjusted_le hz)
      have hunits : ((10 ^ ctx.precision : ℕ) : ℚ) ≤ d.size / 10 ^ e := by
        rw [le_div_iff₀ (ten_zpow_pos e)]
        push_cast
        rwa [← zpow_natCast, ← zpow_add₀ (by norm_num)]
      exact absurd ((Nat.le_floor hunits).trans (floor_le_nearest tie _)) (not_le.mpr h)

end Context

/-! ## 4. A scaled number -/

/-- The number, in units of the last of so many places. -/
theorem size_div_unit (d : Decimal) (places : ℕ) :
    d.size / 10 ^ (-places : ℤ) = |d.toRat| * 10 ^ places := by
  rw [abs_toRat, zpow_neg, zpow_natCast, div_inv_eq_mul]

/-- A number with the sign of another and its magnitude rounded is the other, rounded. -/
theorem toRat_rounded {negative : Bool} {x : ℚ} {places : ℕ}
    (hx : x = if negative then -|x| else |x|) :
    toRat ⟨negative, ⌊|x| * 10 ^ places + 1 / 2⌋₊, -places⟩ = roundAway places x := by
  have hsize : ∀ n : ℕ, size ⟨negative, n, -places⟩ = n / 10 ^ places := by
    intro n
    unfold size
    dsimp only
    rw [zpow_neg, zpow_natCast, div_eq_mul_inv]
  have hzero : x = 0 → (⌊|x| * 10 ^ places + 1 / 2⌋₊ : ℚ) / 10 ^ places = 0 := by
    rintro rfl
    norm_num
  unfold toRat roundAway
  rw [hsize]
  dsimp only
  have habs := abs_nonneg x
  cases negative with
  | true =>
    rw [if_pos rfl] at hx ⊢
    split
    · rfl
    · rename_i hneg
      rw [hzero (by linarith), neg_zero]
  | false =>
    rw [if_neg (by simp)] at hx ⊢
    rw [if_neg (by linarith)]

/-- What is rounded half away from zero and rid of the sign of a zero. -/
theorem scaleDecimal_of_product {d f a : Decimal} (ha : extended.mul d f = .ok a) (places : ℕ) :
    (|roundAway places a.toRat| * 10 ^ places < 10 ^ 50 →
      ∃ r, scaleDecimal d f (-places) = .ok r ∧ r.exponent = -places ∧
        r.toRat = roundAway places a.toRat ∧ r.negative = decide (roundAway places a.toRat < 0)) ∧
      (10 ^ 50 ≤ |roundAway places a.toRat| * 10 ^ places →
        scaleDecimal d f (-places) = .error .invalidOperation) := by
  have hprec : extended.precision = 50 := rfl
  have hunits : |roundAway places a.toRat| * 10 ^ places =
      nearest .away (a.size / 10 ^ (-places : ℤ)) := by
    rw [size_div_unit, nearest_away (by positivity), abs_roundAway]
    field_simp
  rw [scaleDecimal_eq, ha, hunits]
  constructor
  · intro hlt
    have hlt : nearest .away (a.size / 10 ^ (-places : ℤ)) < 10 ^ extended.precision := by
      exact_mod_cast hlt
    have hmax : maxExponent = 999999 := rfl
    refine ⟨_, congrArg (Except.map plainZero) (quantize_of_lt (by decide) (by omega) hlt), ?_, ?_,
      ?_⟩
    · rw [plainZero_exponent]
    all_goals
      have hvalue : toRat ⟨a.negative, nearest .away (a.size / 10 ^ (-places : ℤ)), -places⟩ =
          roundAway places a.toRat := by
        rw [size_div_unit, nearest_away (by positivity)]
        refine toRat_rounded ?_
        rw [abs_toRat]
        rfl
    · rw [toRat_plainZero, hvalue]
    · rw [← hvalue]
      unfold plainZero
      split
      · rename_i hz
        rw [toRat_eq_zero_iff.mpr (isZero_iff.mp hz)]
        rfl
      · rename_i hz
        have hpos := size_pos (isZero_false_iff.mp (Bool.not_eq_true _ ▸ hz))
        have hsign : ∀ b : Decimal, 0 < b.size → b.negative = decide (b.toRat < 0) := by
          intro b hb
          unfold toRat
          cases b.negative <;> simp [hb, hb.le]
        exact hsign _ hpos
  · intro hle
    have hle : 10 ^ extended.precision ≤ nearest .away (a.size / 10 ^ (-places : ℤ)) := by
      exact_mod_cast hle
    exact congrArg (Except.map plainZero) (quantize_of_le (by decide) hle)

/-! ## 5. A scaled literal -/

/-- **A decimal without digits below the unit is written in fixed point**, if a zero has no sign. -/
theorem inFixedPoint_toPlaces {r : Decimal} {places : ℕ} (he : r.exponent = -places)
    (hs : r.negative = decide (r.toRat < 0)) : InFixedPoint r.toRat places (r.toPlaces places) := by
  have hzeros : (r.exponent + places).toNat = 0 := by omega
  have hvalue : |r.toRat| * 10 ^ places = r.coefficient := by
    rw [abs_toRat, size, he, zpow_neg, zpow_natCast, inv_mul_cancel_right₀ (by positivity)]
  have htext : ∀ ds : Text, Text.Digits ds → ds ≠ [] → Text.digitsValue ds = r.coefficient →
      InFixedPoint r.toRat places (r.signText ++ pointed ds places) := by
    intro ds hd hne hv
    obtain ⟨whole, fraction, hw, hf, hwne, hl, hdv, -, hp⟩ := exists_pointed hd hne places
    refine ⟨whole, fraction, hw, hf, hwne, hl, ?_, ?_⟩
    · rw [hp, ← hs, fixedPoint, signText, List.append_assoc]
    · rw [hdv, hv, hvalue]
  unfold toPlaces
  dsimp only
  rw [hzeros, List.replicate_zero, List.append_nil]
  split
  · rename_i hz
    refine htext _ (by simpa using (by decide : Text.isDigit '0' = true)) (by simp) ?_
    rw [isZero_iff.mp hz]
    decide
  · exact htext _ (digits_digits _) (digits_ne_nil _) (digitsValue_digits _)

theorem quantumExponent_of_representable {places : ℕ} (h : Representable places) :
    quantumExponent places = .ok (-places) := by
  have htiny : standard.tiniest = -1000026 := rfl
  have hmax : maxExponent = 999999 := rfl
  have hprec : standard.precision = 28 := rfl
  unfold Representable at h
  unfold quantumExponent
  rw [if_neg (by omega), if_neg (by omega), max_eq_right (by omega)]

/-- The calculation of a scaled literal, for a number of places that can be written. -/
theorem scaleLiteral_eq {written : Text} {factor : Quantity} {places? : Option ℤ} {d f : Decimal}
    {places : ℕ} (hd : read (Text.trim written) = .ok d) (hf : factor.value = .ok f)
    (hp : places?.getD d.places = places) (hu : Representable places) :
    scaleLiteral written factor places? = (scaleDecimal d f (-places)).map fun scaled =>
      if (Text.trim written).head? = some '-' && !scaled.negative then
        ' ' :: scaled.toPlaces places
      else scaled.toPlaces places := by
  have htarget : targetPlaces (Text.trim written) places? = .ok (places : ℤ) := by
    cases places? with
    | some p => exact congrArg Except.ok hp
    | none =>
      rw [targetPlaces, hd]
      exact congrArg Except.ok hp
  have hnonneg : ¬ (places : ℤ) < 0 := by omega
  unfold scaleLiteral
  simp only [htarget, quantumExponent_of_representable hu, hd, hf, bind, Except.bind, hnonneg,
    if_false, Int.toNat_natCast]
  cases scaleDecimal d f (-places) <;> rfl

/-- **A literal is scaled exactly, and rounded once.**  If the product has at most fifty significant
digits, the scaled literal is the product, rounded half away from zero, in fixed point; behind a
space where the sign of the literal was, if that sign is gone.  When the rounded product has more
than fifty digits at this unit, the operation is invalid. -/
theorem scaleLiteral_exact {written : Text} {factor : Quantity} {places? : Option ℤ} {d f : Decimal}
    {places : ℕ} (hd : read (Text.trim written) = .ok d) (hf : factor.value = .ok f)
    (hp : places?.getD d.places = places) (hu : Representable places)
    (hx : HasDigits 50 (d.toRat * f.toRat)) (hn : Normal (d.toRat * f.toRat)) :
    let r := roundAway places (d.toRat * f.toRat)
    (|r| * 10 ^ places < 10 ^ 50 → ∃ t, InFixedPoint r places t ∧
      scaleLiteral written factor places? =
        .ok (if (Text.trim written).head? = some '-' ∧ 0 ≤ r then ' ' :: t else t)) ∧
    (10 ^ 50 ≤ |r| * 10 ^ places →
      scaleLiteral written factor places? = .error .invalidOperation) := by
  intro r
  rw [← toRat_product] at hx hn
  obtain ⟨a, ha, -, hvalue⟩ := @finish_of_hasDigits extended (by decide) _ hx hn
  rw [toRat_product] at hvalue
  obtain ⟨hfits, hfull⟩ := scaleDecimal_of_product ha places
  rw [hvalue] at hfits hfull
  rw [scaleLiteral_eq hd hf hp hu]
  constructor
  · intro hlt
    obtain ⟨s, hs, hexp, hrat, hneg⟩ := hfits hlt
    have htext := inFixedPoint_toPlaces hexp (by rw [hrat, hneg])
    rw [hrat] at htext
    refine ⟨_, htext, ?_⟩
    rw [hs]
    refine congrArg Except.ok ?_
    simp only [hneg, Bool.and_eq_true, Bool.not_eq_true', decide_eq_false_iff_not, not_lt,
      decide_eq_true_eq]
    rfl
  · intro hle
    rw [hfull hle]
    rfl

/-- A tie goes away from zero, and the place of a sign that is gone is kept. -/
theorem scaleLiteral_exact_tie :
    ∃ t, InFixedPoint (1 / 10) 1 t ∧
      scaleLiteral "-2.5e-1".toList (.written "-0.2".toList) (some 1) = .ok (' ' :: t) := by
  let d : Decimal := ⟨true, 25, -2⟩
  let f : Decimal := ⟨true, 2, -1⟩
  have hproduct : d.toRat * f.toRat = 1 / 20 := by norm_num [toRat, size, d, f]
  have hrounded : roundAway 1 (1 / 20) = 1 / 10 := by
    have hfloor : ⌊|(1 / 20 : ℚ)| * 10 ^ 1 + 1 / 2⌋₊ = 1 := by decide +kernel
    rw [roundAway, hfloor]
    norm_num
  have hdigits : HasDigits 50 (d.toRat * f.toRat) := ⟨5, -2, by norm_num, by norm_num [hproduct]⟩
  have hnormal : Normal (d.toRat * f.toRat) := by
    rw [hproduct]
    exact normal_of_zpow (a := -2) (b := 0) (by decide) (by decide) (by norm_num) (by norm_num)
  have hread : read (Text.trim "-2.5e-1".toList) = .ok d := by decide +kernel
  have hfactor : Quantity.value (.written "-0.2".toList) = .ok f := by decide +kernel
  have hplaces : (some (1 : ℤ)).getD d.places = ((1 : ℕ) : ℤ) := rfl
  have hunit : Representable 1 := by
    unfold Representable
    decide
  obtain ⟨h, -⟩ := scaleLiteral_exact hread hfactor hplaces hunit hdigits hnormal
  rw [hproduct, hrounded] at h
  obtain ⟨t, ht, he⟩ := h (by norm_num)
  rw [if_pos ⟨by decide +kernel, by norm_num⟩] at he
  exact ⟨t, ht, he⟩

end ModelScale
