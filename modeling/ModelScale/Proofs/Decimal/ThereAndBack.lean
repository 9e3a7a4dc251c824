import ModelScale.Proofs.Decimal.Error
import ModelScale.Proofs.Decimal.Written

/-
# A number brought to scale 1 and back

A coordinate that was authored at a scale `p` is divided by it, rounded to some places and stored;
later it is multiplied by `p` again and rounded to the same places.  Three roundings are relative to
the number, that of the reciprocal and those of the two products, and two are absolute, half a unit
of the last place each; the first of these is scaled with the number.  Main statements:

* `scaleDecimal_error`: one multiplication, rounded to a unit;
* `scaleDecimal_of_toRat_eq_one`: at scale 1 a number that has no digits below the unit is kept;
* `abs_there_and_back_sub_le`: the whole way.
-/

namespace ModelScale

open Decimal Context Numeral Text

/-! ## 1. One multiplication -/

@[simp] theorem plainZero_coefficient (d : Decimal) :
    (plainZero d).coefficient = d.coefficient := by
  unfold plainZero
  split <;> rfl

@[simp] theorem plainZero_exponent (d : Decimal) : (plainZero d).exponent = d.exponent := by
  unfold plainZero
  split <;> rfl

theorem toRat_plainZero (d : Decimal) : (plainZero d).toRat = d.toRat := by
  unfold plainZero
  split
  · rename_i hz
    have hd : d.toRat = 0 := toRat_eq_zero_iff.mpr (isZero_iff.mp hz)
    rw [toRat_magnitude, ← abs_toRat, hd, abs_zero]
  · rfl

theorem scaleDecimal_eq_ok {d f r : Decimal} {e : ℤ} (h : scaleDecimal d f e = .ok r) :
    ∃ a b, extended.mul d f = .ok a ∧ extended.quantize .away a e = .ok b ∧ r = plainZero b := by
  rw [scaleDecimal_eq] at h
  obtain ⟨a, ha, h⟩ := bind_eq_ok.mp h
  obtain ⟨b, hb, rfl⟩ := exceptMap_eq_ok.mp h
  exact ⟨a, b, ha, hb, rfl⟩

/-- **One multiplication**: the product is off by a part of it, and then by half a unit. -/
theorem scaleDecimal_error {d f r : Decimal} {e : ℤ} (h : scaleDecimal d f e = .ok r)
    (hn : InRange (d.toRat * f.toRat)) :
    ∃ a : ℚ, |a - d.toRat * f.toRat| ≤ 10 ^ (-49 : ℤ) / 2 * |d.toRat * f.toRat| ∧
      |r.toRat - a| ≤ 10 ^ e / 2 := by
  obtain ⟨a, b, ha, hb, rfl⟩ := scaleDecimal_eq_ok h
  refine ⟨a.toRat, ?_, ?_⟩
  · rw [← toRat_product] at hn ⊢
    have hround := abs_finish_sub_le (by decide) ha hn
    rwa [show (1 - extended.precision : ℤ) = -49 from rfl] at hround
  · rw [toRat_plainZero]
    exact abs_quantize_sub_le hb

/-- A scaled number has the unit for its exponent, and no more digits than the precision. -/
theorem scaleDecimal_shape {d f r : Decimal} {e : ℤ} (h : scaleDecimal d f e = .ok r) :
    r.exponent = e ∧ digitCount r.coefficient ≤ 50 := by
  obtain ⟨a, b, -, hb, rfl⟩ := scaleDecimal_eq_ok h
  rw [plainZero_exponent, plainZero_coefficient]
  exact ⟨(quantize_eq_ok hb).1, (quantize_fits (by decide) hb).2⟩

/-! ## 2. Multiplication by 1 -/

/-- A number that is shortened keeps its leading digit, or gets a larger one. -/
theorem zpow_adjusted_le_shorten {ctx : Context} (hp : 0 < ctx.precision) {d : Decimal}
    (hd : d.coefficient ≠ 0) : 10 ^ d.adjusted ≤ (ctx.shorten d).size := by
  obtain ⟨m, hm⟩ : ∃ m, ctx.precision = m + 1 := ⟨ctx.precision - 1, by omega⟩
  have hplace : d.adjusted = m + ctx.lastPlace d := by
    unfold lastPlace
    rw [hm]
    push_cast
    ring
  have hfloor : (10 : ℚ) ^ m ≤ (nearest .even (d.size / 10 ^ ctx.lastPlace d) : ℚ) := by
    have hle : ((10 ^ m : Nat) : ℚ) ≤ d.size / 10 ^ ctx.lastPlace d := by
      rw [le_div_iff₀ (ten_zpow_pos _)]
      push_cast
      rw [← zpow_natCast, ← zpow_add₀ (by norm_num), ← hplace]
      exact zpow_adjusted_le hd
    exact_mod_cast (Nat.le_floor hle).trans (floor_le_nearest _ _)
  rw [size_shorten hp, hplace, zpow_add₀ (by norm_num), zpow_natCast]
  exact mul_le_mul_of_nonneg_right hfloor (ten_zpow_pos _).le

/-- **A number that is finished and then rounded to a unit is kept**, if it has no digits below the
unit: one with too many digits for the precision has too many for the rounding. -/
theorem toRat_of_finish_quantize {ctx : Context} (hp : 0 < ctx.precision) {tie : Tie}
    {d a b : Decimal} {e : ℤ} (ha : ctx.finish d = .ok a) (hb : ctx.quantize tie a e = .ok b)
    (he : e ≤ d.exponent) (ht : ctx.tiniest ≤ e) : b.toRat = d.toRat := by
  obtain ⟨-, hneg, hsize⟩ := quantize_eq_ok hb
  rw [finish_eq] at ha
  split at ha
  · rename_i hz
    have hz := isZero_iff.mp hz
    obtain rfl := Except.ok.inj ha
    have hd : d.toRat = 0 := toRat_eq_zero_iff.mpr hz
    rw [hd, toRat_eq_zero_iff, ← size_eq_zero_iff, hsize]
    have hs : size { d with exponent := min maxExponent (max ctx.tiniest d.exponent) } = 0 :=
      size_eq_zero_iff.mpr hz
    have h0 : nearest tie 0 = 0 := by exact_mod_cast nearest_natCast tie 0
    rw [hs, zero_div, h0, Nat.cast_zero, zero_mul]
  · rename_i hz
    have hd : d.coefficient ≠ 0 := isZero_false_iff.mp (Bool.not_eq_true _ ▸ hz)
    have hkept : a = d → b.toRat = d.toRat := by
      rintro rfl
      exact toRat_congr hneg (hsize.trans (nearest_mul_of_le he tie))
    split at ha
    · cases ha
    · split at ha
      · obtain rfl := Except.ok.inj ha
        refine hkept ?_
        rw [flush, if_neg (by omega)]
      · split at ha
        · cases ha
        · obtain rfl := Except.ok.inj ha
          by_cases hfit : digitCount d.coefficient ≤ ctx.precision
          · refine hkept ?_
            rw [shorten, if_pos (by omega)]
          · -- too many digits: the leading one stands too high above the unit
            exfalso
            have hlead := zpow_adjusted_le_shorten hp hd
            have hnz := shorten_coefficient_ne_zero hp hd
            have hroom := ((quantize_fits hp hb).1).resolve_left hnz
            have hlt : (ctx.shorten d).adjusted < d.adjusted := by
              unfold adjusted
              omega
            exact absurd (hlead.trans_lt (ctx.shorten d).size_lt_zpow_adjusted) (not_lt.mpr
              (zpow_le_zpow_right₀ (by norm_num) hlt))

/-- At scale 1 a number that has no digits below the unit is kept. -/
theorem scaleDecimal_of_toRat_eq_one {d f r : Decimal} {e : ℤ} (h : scaleDecimal d f e = .ok r)
    (hf : f.toRat = 1) (he : e ≤ d.exponent) (ht : extended.tiniest ≤ e) : r.toRat = d.toRat := by
  have hone : f.toRat = Decimal.one.toRat := by rw [hf]; norm_num [toRat, size, Decimal.one]
  rw [scaleDecimal_congr d hone] at h
  obtain ⟨a, b, ha, hb, rfl⟩ := scaleDecimal_eq_ok h
  have hproduct : (⟨d.negative != Decimal.one.negative, d.coefficient * Decimal.one.coefficient,
      d.exponent + Decimal.one.exponent⟩ : Decimal) = d := by
    rw [show Decimal.one = ⟨false, 1, 0⟩ from rfl]
    simp
  rw [mul, hproduct] at ha
  rw [toRat_plainZero]
  exact toRat_of_finish_quantize (by decide) ha hb he ht

/-! ## 3. The reciprocal of a scale -/

/-- The factor that brings a number from a scale to scale 1. -/
def inverse (p : Decimal) : Except Fault Decimal :=
  if p.sameValue .one then .ok .one else extended.div .one p

theorem toRat_one : Decimal.one.toRat = 1 := by
  norm_num [toRat, size, Decimal.one]

/-- A scale with a reciprocal is not zero, and the reciprocal is off by a part of it. -/
theorem inverse_error {p f : Decimal} (h : inverse p = .ok f) (hn : InRange p.toRat⁻¹) :
    p.toRat ≠ 0 ∧ |f.toRat - p.toRat⁻¹| ≤ 61 / 10 * 10 ^ (-50 : ℤ) * |p.toRat⁻¹| := by
  unfold inverse at h
  split at h
  · rename_i hone
    have hp : p.toRat = 1 := (sameValue_iff.mp hone).trans toRat_one
    obtain rfl := Except.ok.inj h
    rw [hp, toRat_one]
    norm_num
  · refine ⟨fun h0 => (div_one_eq_ok h).1 (toRat_eq_zero_iff.mp h0), ?_⟩
    have herror := abs_inverse_sub_le (by decide) h hn
    rw [show (1 - extended.precision : ℤ) = -49 from rfl,
      show (-extended.precision : ℤ) = -50 from rfl] at herror
    refine herror.trans (mul_le_mul_of_nonneg_right ?_ (abs_nonneg _))
    norm_num

/-! ## 4. The whole way -/

/-- **What the roundings add up to.**  The number is `x` and the scale `p`; `f` is near to the
reciprocal, `a` and `b` are near to the products, and the unit is `u`. -/
theorem error_budget {x p f a c b y u : ℚ} (hp : p ≠ 0)
    (hf : |f - p⁻¹| ≤ 61 / 10 * 10 ^ (-50 : ℤ) * |p⁻¹|)
    (ha : |a - x * f| ≤ 10 ^ (-49 : ℤ) / 2 * |x * f|) (hc : |c - a| ≤ u / 2)
    (hb : |b - c * p| ≤ 10 ^ (-49 : ℤ) / 2 * |c * p|) (hy : |y - b| ≤ u / 2) :
    |y - x| ≤ (|p| + 1) / 2 * u + 2 * 10 ^ (-49 : ℤ) * (|x| + |p| * u) := by
  have hppos : 0 < |p| := abs_pos.mpr hp
  -- the reciprocal, taken times the scale and the number
  have hback : |x * f * p - x| ≤ 61 / 10 * 10 ^ (-50 : ℤ) * |x| := by
    have he : x * f * p - x = x * ((f - p⁻¹) * p) := by field_simp
    have hfp : |(f - p⁻¹) * p| ≤ 61 / 10 * 10 ^ (-50 : ℤ) := by
      rw [abs_mul]
      refine (mul_le_mul_of_nonneg_right hf hppos.le).trans_eq ?_
      rw [abs_inv, mul_assoc, inv_mul_cancel₀ hppos.ne', mul_one]
    rw [he, abs_mul, mul_comm]
    exact mul_le_mul_of_nonneg_right hfp (abs_nonneg x)
  have hxfp : |x * f * p| ≤ (1 + 61 / 10 * 10 ^ (-50 : ℤ)) * |x| := by
    linarith [abs_sub_abs_le_abs_sub (x * f * p) x]
  -- the first product and the first rounding, taken times the scale
  have hap : |a * p - x * f * p| ≤ 10 ^ (-49 : ℤ) / 2 * |x * f * p| := by
    rw [← sub_mul, abs_mul, abs_mul (x * f), ← mul_assoc]
    exact mul_le_mul_of_nonneg_right ha hppos.le
  have hcp : |c * p - a * p| ≤ |p| * u / 2 := by
    rw [← sub_mul, abs_mul]
    linarith [mul_le_mul_of_nonneg_right hc hppos.le]
  have hcpsize : |c * p| ≤ |x * f * p| + |a * p - x * f * p| + |c * p - a * p| := by
    linarith [abs_sub_abs_le_abs_sub (c * p) (a * p), abs_sub_abs_le_abs_sub (a * p) (x * f * p)]
  have hsum : |y - x| ≤
      |y - b| + |b - c * p| + |c * p - a * p| + |a * p - x * f * p| + |x * f * p - x| := by
    linarith [abs_sub_le y b x, abs_sub_le b (c * p) x, abs_sub_le (c * p) (a * p) x,
      abs_sub_le (a * p) (x * f * p) x]
  have hu : 0 ≤ u := by linarith [abs_nonneg (c - a)]
  have hx := abs_nonneg x
  have hpu : 0 ≤ |p| * u := mul_nonneg hppos.le hu
  norm_num at hb hback hxfp hap hcpsize ⊢
  linarith

/-- No intermediate result is below the normal range when a number at a scale is brought to scale 1,
to so many places, and back. -/
structure NormalThroughout (x p : Decimal) (places : Nat) : Prop where
  reciprocal : InRange p.toRat⁻¹
  there : ∀ f, inverse p = .ok f → InRange (x.toRat * f.toRat)
  back : ∀ f c, inverse p = .ok f → scaleDecimal x f (-places) = .ok c →
    InRange (c.toRat * p.toRat)

/-- **A number brought to scale 1 and back** is off by half a unit, by as much at the scale, and by
the little that the products lose. -/
theorem abs_there_and_back_sub_le {x p f c y : Decimal} {places : Nat}
    (hn : NormalThroughout x p places) (hf : inverse p = .ok f)
    (hc : scaleDecimal x f (-places) = .ok c) (hy : scaleDecimal c p (-places) = .ok y) :
    |y.toRat - x.toRat| ≤ (|p.toRat| + 1) / 2 * 10 ^ (-places : ℤ) +
      2 * 10 ^ (-49 : ℤ) * (|x.toRat| + |p.toRat| * 10 ^ (-places : ℤ)) := by
  obtain ⟨hp, hinverse⟩ := inverse_error hf hn.reciprocal
  obtain ⟨a, ha, hca⟩ := scaleDecimal_error hc (hn.there f hf)
  obtain ⟨b, hb, hyb⟩ := scaleDecimal_error hy (hn.back f c hf hc)
  exact error_budget hp hinverse ha hca hb hyb

/-- The unit in the last of so many places does not underflow. -/
def Representable (places : Nat) : Prop := standard.tiniest ≤ -places

/-- **At scale 1 a number comes back as it was.** -/
theorem there_and_back_of_toRat_eq_one {x p f c y : Decimal} {places : Nat}
    (hu : Representable places) (hp : p.toRat = 1) (hx : -(places : ℤ) ≤ x.exponent)
    (hf : inverse p = .ok f) (hc : scaleDecimal x f (-places) = .ok c)
    (hy : scaleDecimal c p (-places) = .ok y) : y.toRat = x.toRat := by
  have ht : extended.tiniest ≤ -places := by
    have htiny : extended.tiniest ≤ standard.tiniest := by decide
    exact htiny.trans hu
  have hone : f.toRat = 1 := by
    have hsame : p.sameValue .one = true := sameValue_iff.mpr (hp.trans toRat_one.symm)
    rw [inverse, if_pos hsame] at hf
    rw [← Except.ok.inj hf, toRat_one]
  have hcx := scaleDecimal_of_toRat_eq_one hc hone hx ht
  have hce : -(places : ℤ) ≤ c.exponent := (scaleDecimal_shape hc).1.ge
  rw [scaleDecimal_of_toRat_eq_one hy hp hce ht, hcx]

/-! ## 5. Literals -/

/-- Digits with a point among them are read as the number that they write. -/
theorem read_pointed {d : Decimal} {ds : Text} (hd : Digits ds) (hne : ds ≠ []) {places : Nat}
    (hr : inReach ⟨d.negative, Text.digitsValue ds, -places⟩ = true) :
    read (d.signText ++ pointed ds places) = .ok ⟨d.negative, Text.digitsValue ds, -places⟩ := by
  obtain ⟨whole, fraction, hw, hf, hwne, rfl, hvalue, -, hp⟩ := exists_pointed hd hne places
  rw [← hvalue] at hr ⊢
  rw [hp, ← List.append_assoc]
  exact read_fixedPoint hw hf hwne hr

/-- With more digits behind its last one, a decimal is the same number. -/
theorem size_extended {d : Decimal} {places : Nat} (he : -(places : ℤ) ≤ d.exponent) :
    size ⟨d.negative, d.coefficient * 10 ^ (d.exponent + places).toNat, -places⟩ = d.size := by
  have hunits := size_div_zpow_of_le he
  rw [sub_neg_eq_add] at hunits
  rw [size, ← hunits, div_mul_cancel₀ _ (ten_zpow_pos _).ne']

/-- **A decimal written with so many fractional digits is read as the number that it is**, with the
exponent that belongs to them. -/
theorem read_toPlaces_of_le {d : Decimal} {places : Nat} (he : -(places : ℤ) ≤ d.exponent)
    (hl : leastExponent ≤ -(places : ℤ)) (hr : d.inReach = true) :
    read (d.toPlaces places) =
      .ok ⟨d.negative, d.coefficient * 10 ^ (d.exponent + places).toNat, -places⟩ := by
  have hreach : inReach
      ⟨d.negative, d.coefficient * 10 ^ (d.exponent + places).toNat, -places⟩ = true := by
    unfold inReach greatestAdjusted at hr ⊢
    rw [Bool.and_eq_true, decide_eq_true_eq, decide_eq_true_eq] at hr ⊢
    refine ⟨?_, hl⟩
    by_cases hz : d.coefficient = 0
    · rw [hz, Nat.zero_mul, adjusted, show digitCount 0 = 1 by decide]
      dsimp only
      omega
    · rw [← adjusted_eq_of_size_eq (size_extended he).symm hz]
      exact hr.1
  unfold toPlaces
  dsimp only
  split
  · rename_i hz
    have hzero : Text.digitsValue ['0'] = 0 := by decide
    rw [isZero_iff.mp hz, Nat.zero_mul, ← hzero] at hreach ⊢
    exact read_pointed (by simpa using (by decide : isDigit '0' = true)) (by simp) hreach
  · have hvalue := digitsValue_append_zeros (digits d.coefficient) (d.exponent + places).toNat
    rw [digitsValue_digits] at hvalue
    rw [← hvalue] at hreach ⊢
    exact read_pointed (digits_append.mpr ⟨digits_digits _, digits_zeros _⟩)
      (by simp [digits_ne_nil]) hreach

/-- A decimal written with the digits it has is read as it is. -/
theorem read_toPlaces {d : Decimal} {places : Nat} (he : d.exponent = -places)
    (hr : d.inReach = true) : read (d.toPlaces places) = .ok d := by
  have hl : leastExponent ≤ -(places : ℤ) := by
    unfold inReach at hr
    rw [Bool.and_eq_true, decide_eq_true_eq, decide_eq_true_eq] at hr
    exact he ▸ hr.2
  rw [read_toPlaces_of_le he.ge hl hr, show (d.exponent + places).toNat = 0 by omega, pow_zero,
    Nat.mul_one, ← he]

/-- A scaled number can be read. -/
theorem inReach_of_scaleDecimal {d f r : Decimal} {places : Nat}
    (h : scaleDecimal d f (-places) = .ok r) (hp : Representable places) : r.inReach = true := by
  obtain ⟨he, hd⟩ := scaleDecimal_shape h
  have htiny : standard.tiniest = -1000026 := rfl
  unfold Representable at hp
  unfold inReach adjusted greatestAdjusted leastExponent
  simp only [Bool.and_eq_true, decide_eq_true_eq]
  omega

theorem quantumExponent_eq {places : Nat} {e : ℤ} (h : quantumExponent places = .ok e)
    (hp : Representable places) : e = -places := by
  unfold Representable at hp
  unfold quantumExponent at h
  split at h
  · cases h
  · split at h
    · cases h
    · obtain rfl := Except.ok.inj h
      omega

/-- **A literal is scaled** exactly when each of the steps succeeds and the number of fractional
digits is one that can be written. -/
theorem scaleLiteral_eq_ok_iff {written t : Text} {factor : Quantity} {places? : Option ℤ} :
    scaleLiteral written factor places? = .ok t ↔
      ∃ (places : Nat) (e : ℤ) (d f r : Decimal),
        targetPlaces (Text.trim written) places? = .ok places ∧ quantumExponent places = .ok e ∧
        read (Text.trim written) = .ok d ∧ factor.value = .ok f ∧ scaleDecimal d f e = .ok r ∧
        t = if (Text.trim written).head? = some '-' && !r.negative then ' ' :: r.toPlaces places
          else r.toPlaces places := by
  unfold scaleLiteral
  constructor
  · intro h
    obtain ⟨places, hplaces, h⟩ := bind_eq_ok.mp h
    obtain ⟨e, he, h⟩ := bind_eq_ok.mp h
    obtain ⟨d, hd, h⟩ := bind_eq_ok.mp h
    obtain ⟨f, hf, h⟩ := bind_eq_ok.mp h
    obtain ⟨r, hr, h⟩ := bind_eq_ok.mp h
    dsimp only at h
    split at h
    · cases h
    · rename_i hnonneg
      obtain ⟨n, rfl⟩ := Int.eq_ofNat_of_zero_le (not_lt.mp hnonneg)
      exact ⟨n, e, d, f, r, hplaces, he, hd, hf, hr, (pure_eq_ok.mp h).symm⟩
  · rintro ⟨places, e, d, f, r, hplaces, he, hd, hf, hr, rfl⟩
    have hnonneg : ¬ (places : ℤ) < 0 := by omega
    simp only [hplaces, he, hd, hf, hr, bind, Except.bind, hnonneg, if_false]
    rfl

/-- The steps by which a literal is scaled. -/
theorem scaleLiteral_steps {written t : Text} {factor : Quantity} {places? : Option ℤ}
    (h : scaleLiteral written factor places? = .ok t) :
    ∃ places e d f r, targetPlaces (Text.trim written) places? = .ok places ∧
      quantumExponent places = .ok e ∧ read (Text.trim written) = .ok d ∧ factor.value = .ok f ∧
      scaleDecimal d f e = .ok r ∧ Text.trim t = r.toPlaces places.toNat := by
  obtain ⟨places, e, d, f, r, hplaces, he, hd, hf, hr, rfl⟩ := scaleLiteral_eq_ok_iff.mp h
  refine ⟨places, e, d, f, r, hplaces, he, hd, hf, hr, ?_⟩
  have hn := isNumeral_toPlaces r places
  split
  · exact Numeral.trim_space_of_isNumeral hn
  · exact Numeral.trim_of_isNumeral hn

/-- A literal is brought to scale 1 by scaling it with the reciprocal. -/
theorem normalizeLiteral_eq (literal : Text) (previous : Quantity) (least : ℤ) :
    normalizeLiteral literal previous least =
      previous.value.bind fun p => (read (Text.trim literal)).bind fun d =>
        (inverse p).bind fun f =>
          Text.trim <$> scaleLiteral (Text.trim literal) (.exact f) (some (max d.places least)) := by
  unfold normalizeLiteral inverse
  simp only [bind, Except.bind]
  cases previous.value with
  | error e => rfl
  | ok p =>
    dsimp only
    cases read (Text.trim literal) with
    | error e => rfl
    | ok d =>
      dsimp only
      split <;> rfl

/-- The steps by which a literal is brought to scale 1. -/
theorem normalizeLiteral_steps {literal t : Text} {previous : Quantity} (least : Nat)
    (h : normalizeLiteral literal previous least = .ok t) :
    ∃ p x f e c, previous.value = .ok p ∧ read (Text.trim literal) = .ok x ∧ inverse p = .ok f ∧
      quantumExponent (max x.places least : Nat) = .ok e ∧ scaleDecimal x f e = .ok c ∧
      t = c.toPlaces (max x.places least) := by
  rw [normalizeLiteral_eq] at h
  obtain ⟨p, hp, h⟩ := bind_eq_ok.mp h
  obtain ⟨x, hx, h⟩ := bind_eq_ok.mp h
  obtain ⟨f, hf, h⟩ := bind_eq_ok.mp h
  have hplaces : max (x.places : ℤ) least = (max x.places least : Nat) := (Nat.cast_max ..).symm
  rw [hplaces] at h
  obtain ⟨u, hu, rfl⟩ := map_eq_ok.mp h
  obtain ⟨places, e, d, g, c, hpl, he, hd, hg, hc, ht⟩ := scaleLiteral_steps hu
  obtain rfl := Except.ok.inj hpl
  obtain rfl := Except.ok.inj hg
  rw [Text.trim_trim, hx] at hd
  obtain rfl := Except.ok.inj hd
  exact ⟨p, x, f, e, c, hp, hx, hf, he, hc, ht⟩

/-- The fractional digits with which the value of a literal is stored. -/
def storedPlaces (d : Decimal) : Nat := max d.places 6

/-- A literal and what has become of it, unless the unit of its last place underflows: the number is
near to that of the literal as long as nothing is below the normal range, and at scale 1 it is the
same. -/
def Restored (p : Decimal) (v w : Text) : Prop :=
  ∃ x, read v = .ok x ∧ (Representable (storedPlaces x) → ∃ y, read w = .ok y ∧
    (NormalThroughout x p (storedPlaces x) →
      |y.toRat - x.toRat| ≤ (|p.toRat| + 1) / 2 * 10 ^ (-storedPlaces x : ℤ) +
        2 * 10 ^ (-49 : ℤ) * (|x.toRat| + |p.toRat| * 10 ^ (-storedPlaces x : ℤ))) ∧
    (p.toRat = 1 → y.toRat = x.toRat))

/-- A literal that is left alone. -/
theorem Restored.refl {p x : Decimal} {v : Text} (h : read v = .ok x) : Restored p v v := by
  refine ⟨x, h, fun _ => ⟨x, h, fun _ => ?_, fun _ => rfl⟩⟩
  have hunit := ten_zpow_pos (-storedPlaces x : ℤ)
  rw [sub_self, abs_zero]
  positivity

/-- **A literal that is stored at scale 1 and scaled back.** -/
theorem restored_of_scaled {v t u : Text} (hv : isNumeral v = true) {previous : Quantity}
    {p : Decimal} (hp : previous.value = .ok p) (hn : normalizeLiteral v previous 6 = .ok t)
    (hs : scaleLiteral t (.exact p) none = .ok u) : Restored p v (Text.trim u) := by
  obtain ⟨q, x, f, e, c, hq, hx, hf, he, hc, rfl⟩ := normalizeLiteral_steps 6 hn
  rw [trim_of_isNumeral hv] at hx
  rw [show max x.places 6 = storedPlaces x from rfl] at he hs
  rw [hp] at hq
  obtain rfl := Except.ok.inj hq
  refine ⟨x, hx, fun hu => ?_⟩
  obtain rfl := quantumExponent_eq he hu
  -- the stored literal is read as it was written
  have hread := read_toPlaces (scaleDecimal_shape hc).1 (inReach_of_scaleDecimal hc hu)
  obtain ⟨places, e, d, g, y, hplaces, he, hd, hg, hy, ht⟩ := scaleLiteral_steps hs
  rw [trim_of_isNumeral (isNumeral_toPlaces c _)] at hplaces hd
  rw [hread] at hd
  obtain rfl := Except.ok.inj hd
  obtain rfl := Except.ok.inj hg
  have hpl : (storedPlaces x : ℤ) = places := by
    rw [targetPlaces, hread] at hplaces
    have hc' : (c.places : ℤ) = places := Except.ok.inj hplaces
    have he := (scaleDecimal_shape hc).1
    unfold Decimal.places at hc'
    omega
  subst hpl
  obtain rfl := quantumExponent_eq he hu
  refine ⟨y, ?_, fun hn => abs_there_and_back_sub_le hn hf hc hy, fun hone => ?_⟩
  · rw [ht, Int.toNat_natCast]
    exact read_toPlaces (scaleDecimal_shape hy).1 (inReach_of_scaleDecimal hy hu)
  · refine there_and_back_of_toRat_eq_one hu hone ?_ hf hc hy
    unfold storedPlaces Decimal.places
    omega

end ModelScale
