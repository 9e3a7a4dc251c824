import ModelScale.Proofs.Decimal.FixedPoint

/-
# A quotient by way of a reciprocal

A literal is brought to scale 1 by a product: the reciprocal of the scale is rounded to fifty
digits, so is the product, and only then comes the rounding to a unit.  The quotient itself is
never formed.  It is off by so little (`quotient_error`) that the last rounding cannot tell, with
one exception: where the quotient is halfway between two units, the product may have fallen below
it, and then the result is the unit nearer to zero.  Main statements:

* `floor_half_eq_iff`: when two numbers near to one another are rounded alike;
* `roundAway_quotient_iff`: what this says of a quotient of short numbers;
* `normalizeLiteral_quotient`: the text of a literal that is brought to scale 1.
-/

namespace ModelScale

open Decimal Context Numeral

/-! ## 1. Halves -/

/-- The magnitude is halfway between two whole units of so many places. -/
def Halfway (places : ℕ) (x : ℚ) : Prop :=
  ∃ k : ℕ, |x| * 10 ^ places = k + 1 / 2

/-- A fraction is a half, or as far from it as its denominator allows. -/
theorem le_abs_sub_half (a : ℕ) {b : ℕ} (hb : 0 < b) (k : ℕ) :
    (a / b : ℚ) = k + 1 / 2 ∨ 1 / (2 * b) ≤ |(a / b : ℚ) - (k + 1 / 2)| := by
  have hb' : (0 : ℚ) < b := Nat.cast_pos.mpr hb
  have he : (a / b : ℚ) - (k + 1 / 2) = ((2 * a - (2 * k + 1) * b : ℤ) : ℚ) * (1 / (2 * b)) := by
    push_cast
    field_simp
  by_cases hz : (2 * a - (2 * k + 1) * b : ℤ) = 0
  · rw [hz, Int.cast_zero, zero_mul] at he
    exact Or.inl (sub_eq_zero.mp he)
  · have hone : (1 : ℚ) ≤ |((2 * a - (2 * k + 1) * b : ℤ) : ℚ)| := by
      exact_mod_cast Int.one_le_abs hz
    rw [he, abs_mul, abs_of_pos (by positivity : (0 : ℚ) < 1 / (2 * b))]
    exact Or.inr (le_mul_of_one_le_left (by positivity) hone)

/-- **Numbers near to one another are rounded alike**, if one of them keeps a distance from the
halves that the other cannot bridge.  Where it is a half, the other must not be below it. -/
theorem floor_half_eq_iff {x y g : ℚ} (hx : 0 ≤ x) (hy : 0 ≤ y) (hg : g ≤ 1)
    (hgap : ∀ k : ℕ, x = k + 1 / 2 ∨ g ≤ |x - (k + 1 / 2)|) (hclose : |y - x| < g) :
    ⌊y + 1 / 2⌋₊ = ⌊x + 1 / 2⌋₊ ↔ ¬ ((∃ k : ℕ, x = k + 1 / 2) ∧ y < x) := by
  obtain ⟨hlow, hhigh⟩ := abs_lt.mp hclose
  by_cases hhalf : ∃ k : ℕ, x = k + 1 / 2
  · obtain ⟨k, rfl⟩ := hhalf
    have hround : ⌊(k : ℚ) + 1 / 2 + 1 / 2⌋₊ = k + 1 := by
      rw [Nat.floor_eq_iff (by positivity)]
      push_cast
      constructor <;> linarith
    rw [hround, Nat.floor_eq_iff (by positivity)]
    push_cast
    constructor
    · rintro ⟨hle, -⟩ ⟨-, hlt⟩
      linarith
    · intro h
      have hge : (k : ℚ) + 1 / 2 ≤ y := not_lt.mp fun hlt => h ⟨⟨k, rfl⟩, hlt⟩
      constructor <;> linarith
  · refine iff_of_true ?_ fun h => hhalf h.1
    have hfar : ∀ k : ℕ, g ≤ |x - (k + 1 / 2)| := fun k =>
      (hgap k).resolve_left fun h => hhalf ⟨k, h⟩
    obtain ⟨n, hn⟩ : ∃ n, ⌊x + 1 / 2⌋₊ = n := ⟨_, rfl⟩
    obtain ⟨hfloor, hceil⟩ := (Nat.floor_eq_iff (by positivity)).mp hn
    rw [hn, Nat.floor_eq_iff (by positivity)]
    constructor
    · cases n with
      | zero =>
        push_cast
        positivity
      | succ n =>
        have hfarn := hfar n
        push_cast at hfloor ⊢
        rw [abs_of_nonneg (by linarith)] at hfarn
        linarith
    · have hfarn := hfar n
      rw [abs_of_nonpos (by linarith)] at hfarn
      linarith

/-- Numbers of one sign are rounded alike if their magnitudes are. -/
theorem roundAway_eq_iff {places : ℕ} {x y : ℚ} (h : y < 0 ↔ x < 0) :
    roundAway places y = roundAway places x ↔
      ⌊|y| * 10 ^ places + 1 / 2⌋₊ = ⌊|x| * 10 ^ places + 1 / 2⌋₊ := by
  have hunit : (10 : ℚ) ^ places ≠ 0 := by positivity
  unfold roundAway
  dsimp only
  by_cases hx : x < 0
  · rw [if_pos hx, if_pos (h.mpr hx), neg_inj, div_left_inj' hunit, Nat.cast_inj]
  · rw [if_neg hx, if_neg (h.not.mpr hx), div_left_inj' hunit, Nat.cast_inj]

/-- A number that is off by less than the whole of another has its sign. -/
theorem neg_iff_of_abs_sub_le {x y c : ℚ} (hc : c < 1) (h : |y - x| ≤ c * |x|) : y < 0 ↔ x < 0 := by
  obtain ⟨hlow, hhigh⟩ := abs_le.mp h
  rcases lt_trichotomy x 0 with hx | rfl | hx
  · rw [abs_of_neg hx] at hlow hhigh
    refine iff_of_true ?_ hx
    nlinarith
  · rw [abs_zero, mul_zero] at hlow hhigh
    constructor <;> intro <;> linarith
  · rw [abs_of_pos hx] at hlow hhigh
    refine iff_of_false (not_lt.mpr ?_) (not_lt.mpr hx.le)
    nlinarith

/-! ## 2. Quotients of short numbers -/

/-- A quotient of numbers of so many digits is a fraction in units of so many places.  Either the
numerator has no more digits, or the denominator has not. -/
theorem exists_fraction {v p : ℚ} {digits : ℕ} (places : ℕ) (hv : HasDigits digits v)
    (hp : HasDigits digits p) (hp0 : p ≠ 0) :
    ∃ a b : ℕ, 0 < b ∧ |v / p| * 10 ^ places = a / b ∧ (a < 10 ^ digits ∨ b < 10 ^ digits) := by
  obtain ⟨m, i, hm, hv⟩ := hv
  obtain ⟨n, j, hn, hp⟩ := hp
  have hnpos : 0 < n := by
    refine Nat.pos_of_ne_zero fun h0 => hp0 ?_
    rw [h0, Nat.cast_zero, zero_mul] at hp
    exact abs_eq_zero.mp hp
  have hunits : |v / p| * 10 ^ places = m / n * 10 ^ (i - j + places) := by
    rw [abs_div, hv, hp, zpow_add₀ (by norm_num), zpow_sub₀ (by norm_num), zpow_natCast]
    field_simp
  rw [hunits]
  rcases le_total 0 (i - j + places) with ht | ht
  · obtain ⟨t, ht⟩ := Int.eq_ofNat_of_zero_le ht
    refine ⟨m * 10 ^ t, n, hnpos, ?_, Or.inr hn⟩
    rw [ht, zpow_natCast]
    push_cast
    ring
  · obtain ⟨t, ht⟩ := Int.exists_eq_neg_ofNat ht
    refine ⟨m, n * 10 ^ t, by positivity, ?_, Or.inl hm⟩
    rw [ht, zpow_neg, zpow_natCast]
    push_cast
    field_simp

/-- **A product that is near to a quotient is rounded like it**, unless the quotient is halfway and
the product below it.  Numbers of twenty-five digits have no quotient in between: one that is not
halfway is farther from it than the product can be off. -/
theorem roundAway_quotient_iff {v p q : ℚ} {places : ℕ} (hv : HasDigits 25 v) (hp : HasDigits 25 p)
    (hp0 : p ≠ 0) (hq : |q - v / p| ≤ 6 / 5 * 10 ^ (-49 : ℤ) * |v / p|)
    (hsmall : |v / p| * 10 ^ places < 10 ^ 23) :
    roundAway places q = roundAway places (v / p) ↔ ¬ (Halfway places (v / p) ∧ |q| < |v / p|) := by
  obtain ⟨a, b, hb, hunits, hshort⟩ := exists_fraction places hv hp hp0
  have hunit : (0 : ℚ) < 10 ^ places := by positivity
  have hbpos : (0 : ℚ) < b := Nat.cast_pos.mpr hb
  have hbone : (1 : ℚ) ≤ b := by exact_mod_cast hb
  -- the numerator has forty-eight digits at most
  have hnumerator : (a : ℚ) < 10 ^ 48 := by
    rcases hshort with ha | hb'
    · have ha : (a : ℚ) < 10 ^ 25 := by exact_mod_cast ha
      exact ha.trans (by norm_num)
    · have hb' : (b : ℚ) < 10 ^ 25 := by exact_mod_cast hb'
      rw [hunits, div_lt_iff₀ hbpos] at hsmall
      linarith
  have hclose : |(|q| * 10 ^ places - |v / p| * 10 ^ places)| < 1 / (2 * b) := by
    have hoff : |(|q| * 10 ^ places - |v / p| * 10 ^ places)| ≤
        6 / 5 * 10 ^ (-49 : ℤ) * (|v / p| * 10 ^ places) := by
      rw [← sub_mul, abs_mul, abs_of_pos hunit, ← mul_assoc]
      exact mul_le_mul_of_nonneg_right ((abs_abs_sub_abs_le q (v / p)).trans hq) hunit.le
    refine hoff.trans_lt ?_
    rw [hunits, ← mul_div_assoc, div_lt_div_iff₀ hbpos (by positivity)]
    have hhalf : 6 / 5 * 10 ^ (-49 : ℤ) * (a : ℚ) * 2 < 1 := by
      norm_num
      linarith
    nlinarith
  rw [roundAway_eq_iff (neg_iff_of_abs_sub_le (by norm_num) hq),
    floor_half_eq_iff (by positivity) (by positivity) ?_ ?_ hclose]
  · rw [mul_lt_mul_iff_left₀ hunit]
    rfl
  · rw [div_le_one (by positivity)]
    linarith
  · intro k
    rw [hunits]
    exact le_abs_sub_half a hb k

/-! ## 3. The error of the product -/

namespace Context

variable {ctx : Context}

/-- Bringing a number into a context moves it by half a unit of the last digit at most, or by as
much as that unit is worth at the lower end of the normal range. -/
theorem abs_finish_sub_le_max (hp : 0 < ctx.precision) {d r : Decimal} (h : ctx.finish d = .ok r) :
    |r.toRat - d.toRat| ≤ 10 ^ (1 - ctx.precision : ℤ) / 2 * max |d.toRat| (10 ^ minExponent) := by
  by_cases hn : InRange d.toRat
  · exact (abs_finish_sub_le hp h hn).trans
      (mul_le_mul_of_nonneg_left (le_max_left _ _) (by positivity))
  · obtain ⟨hz, hlow⟩ := not_or.mp hn
    have hz : d.coefficient ≠ 0 := toRat_eq_zero_iff.not.mp hz
    have hbelow : d.adjusted < minExponent := by
      rw [not_le, abs_toRat] at hlow
      exact (zpow_lt_zpow_iff_right₀ (by norm_num)).mp ((zpow_adjusted_le hz).trans_lt hlow)
    have hmax : minExponent ≤ maxExponent := by decide
    have hnz : ¬ d.isZero = true := fun h => hz (isZero_iff.mp h)
    rw [finish_eq, if_neg hnz, if_neg (by omega), if_pos hbelow] at h
    obtain rfl := Except.ok.inj h
    have htiny : ctx.tiniest = (1 - ctx.precision : ℤ) + minExponent := by
      unfold tiniest
      ring
    have hunit : (10 : ℚ) ^ ctx.tiniest = 10 ^ (1 - ctx.precision : ℤ) * 10 ^ minExponent := by
      rw [htiny, zpow_add₀ (by norm_num)]
    rw [abs_toRat_sub (flush_negative d), size_flush]
    refine (abs_nearest_mul_sub_le .even d ctx.tiniest).trans ?_
    rw [hunit, mul_div_right_comm]
    exact mul_le_mul_of_nonneg_left (le_max_right _ _) (by positivity)

/-- A scale whose reciprocal has no more digits than the precision divides a power of ten. -/
theorem coefficient_dvd_of_hasDigits {b : Decimal} (hb : b.coefficient ≠ 0)
    (h : HasDigits ctx.precision b.toRat⁻¹) : b.coefficient ∣ 10 ^ ctx.carriedDigits b := by
  obtain ⟨m, k, hm, he⟩ := h
  rw [abs_inv, abs_toRat] at he
  have hproduct : (m * b.coefficient : ℚ) = 10 ^ (-(k + b.exponent)) := by
    have hone : (m * 10 ^ k : ℚ) * b.size = 1 := by
      rw [← he]
      exact inv_mul_cancel₀ (size_pos hb).ne'
    rw [zpow_neg, zpow_add₀ (by norm_num)]
    refine eq_inv_of_mul_eq_one_left ?_
    rw [← hone, size]
    ring
  have hm0 : m ≠ 0 := by
    rintro rfl
    rw [Nat.cast_zero, zero_mul] at hproduct
    exact (ten_zpow_pos _).ne hproduct
  have hge : 0 ≤ -(k + b.exponent) := by
    have hone : (1 : ℚ) ≤ m * b.coefficient := by
      exact_mod_cast Nat.one_le_iff_ne_zero.mpr (Nat.mul_ne_zero hm0 hb)
    rw [hproduct] at hone
    by_contra hlt
    exact absurd hone (not_le.mpr (zpow_lt_one_of_neg₀ (by norm_num) (not_le.mp hlt)))
  obtain ⟨n, hn⟩ := Int.eq_ofNat_of_zero_le hge
  have hpower : m * b.coefficient = 10 ^ n := by
    rw [hn, zpow_natCast] at hproduct
    exact_mod_cast hproduct
  have hle : n ≤ ctx.carriedDigits b := by
    have hlt : 10 ^ n < 10 ^ ctx.carriedDigits b := by
      rw [← hpower, carriedDigits, Nat.add_comm, pow_add]
      exact Nat.mul_lt_mul'' hm (lt_pow_digitCount b.coefficient)
    exact ((Nat.pow_lt_pow_iff_right (by decide)).mp hlt).le
  exact (Dvd.intro_left m hpower).trans (Nat.pow_dvd_pow 10 hle)

/-- **A reciprocal that fits the precision is exact.** -/
theorem toRat_div_one_of_hasDigits (hp : 0 < ctx.precision) {b r : Decimal}
    (h : ctx.div .one b = .ok r) (hd : HasDigits ctx.precision b.toRat⁻¹)
    (hn : InRange b.toRat⁻¹) : r.toRat = b.toRat⁻¹ := by
  obtain ⟨hb, d, m, hfin, hcarried⟩ := div_one_eq_ok h
  have hdvd := coefficient_dvd_of_hasDigits hb hd
  have hquotient : (m : ℚ) = (10 ^ ctx.carriedDigits b : ℕ) / b.coefficient := by
    rw [hcarried.whole hdvd, eq_div_iff (Nat.cast_ne_zero.mpr hb)]
    exact_mod_cast Nat.div_mul_cancel hdvd
  have hsame : d.toRat = b.toRat⁻¹ := by
    rw [← sub_eq_zero, ← abs_eq_zero, abs_toRat_sub_inv hcarried.negative, hcarried.size,
      @inv_size_eq ctx b, hquotient, sub_self, abs_zero]
  rw [← hsame] at hd hn ⊢
  exact toRat_finish_of_hasDigits hp hd hn hfin

end Context

/-- **The product with the reciprocal is near to the quotient**: both roundings are relative to
it. -/
theorem quotient_error {v p f q : Decimal} (hf : inverse p = .ok f) (hq : extended.mul v f = .ok q)
    (hinv : InRange p.toRat⁻¹) (hn : InRange (v.toRat / p.toRat)) :
    |q.toRat - v.toRat / p.toRat| ≤ 6 / 5 * 10 ^ (-49 : ℤ) * |v.toRat / p.toRat| := by
  obtain ⟨hp0, hinverse⟩ := inverse_error hf hinv
  have hround := abs_finish_sub_le_max (by decide) hq
  rw [toRat_product, show (1 - extended.precision : ℤ) = -49 from rfl] at hround
  have hproduct : |v.toRat * f.toRat - v.toRat / p.toRat| ≤
      61 / 10 * 10 ^ (-50 : ℤ) * |v.toRat / p.toRat| := by
    rw [div_eq_mul_inv, ← mul_sub, abs_mul, abs_mul, mul_left_comm]
    exact mul_le_mul_of_nonneg_left hinverse (abs_nonneg _)
  rcases hn with hzero | hlow
  · have hv : v.toRat = 0 := (div_eq_zero_iff.mp hzero).resolve_right hp0
    have hx0 : toRat ⟨v.negative != f.negative, v.coefficient * f.coefficient,
        v.exponent + f.exponent⟩ = 0 := by
      rw [toRat_product, hv, zero_mul]
    obtain ⟨r, hr, hr0⟩ := finish_of_toRat_eq_zero hx0
    obtain rfl := Except.ok.inj (hq.symm.trans hr)
    rw [hzero, hr0]
    norm_num
  · have hmax : max |v.toRat * f.toRat| (10 ^ minExponent) ≤
        (1 + 61 / 10 * 10 ^ (-50 : ℤ)) * |v.toRat / p.toRat| := by
      refine max_le ?_ (hlow.trans ?_)
      · linarith [abs_sub_abs_le_abs_sub (v.toRat * f.toRat) (v.toRat / p.toRat)]
      · exact le_mul_of_one_le_left (abs_nonneg _) (by norm_num)
    have hsum := abs_sub_le q.toRat (v.toRat * f.toRat) (v.toRat / p.toRat)
    have hpos := abs_nonneg (v.toRat / p.toRat)
    generalize |v.toRat / p.toRat| = x at *
    generalize max |v.toRat * f.toRat| (10 ^ minExponent) = y at *
    norm_num at hround hproduct hmax ⊢
    linarith

/-- Where the reciprocal and the quotient have no more than fifty digits, the product is exact. -/
theorem quotient_exact {v p f q : Decimal} (hf : inverse p = .ok f) (hq : extended.mul v f = .ok q)
    (hinv : InRange p.toRat⁻¹) (hn : InRange (v.toRat / p.toRat)) (hd : HasDigits 50 p.toRat⁻¹)
    (hx : HasDigits 50 (v.toRat / p.toRat)) : q.toRat = v.toRat / p.toRat := by
  have hinverse : f.toRat = p.toRat⁻¹ := by
    unfold inverse at hf
    split at hf
    · rename_i hone
      have hp : p.toRat = 1 := (sameValue_iff.mp hone).trans toRat_one
      rw [← Except.ok.inj hf, toRat_one, hp, inv_one]
    · exact toRat_div_one_of_hasDigits (by decide) hf hd hinv
  rw [div_eq_mul_inv, ← hinverse, ← toRat_product] at hx hn ⊢
  exact toRat_finish_of_hasDigits (by decide) hx hn hq

/-! ## 4. A literal at scale 1 -/

/-- **A literal is brought to scale 1 by a product**, rounded to fifty digits, and from there
half away from zero to so many places; what is written is that number, in fixed point.  It is off
from the quotient by half a unit and the little that the product loses.  For numbers of
twenty-five digits it is the quotient, rounded half away from zero

* if the reciprocal of the scale and the quotient have no more than fifty digits;
* up to `10 ^ 23` units, just when the quotient is not a half that the product falls below. -/
theorem normalizeLiteral_quotient {literal t : Text} {previous : Quantity} {least : ℕ}
    {v p : Decimal} (hv : read (Text.trim literal) = .ok v) (hp : previous.value = .ok p)
    (hvd : HasDigits 25 v.toRat) (hpd : HasDigits 25 p.toRat) (hinv : InRange p.toRat⁻¹)
    (hn : InRange (v.toRat / p.toRat)) (hu : Representable (max v.places least))
    (h : normalizeLiteral literal previous least = .ok t) :
    let places := max v.places least
    let x := v.toRat / p.toRat
    ∃ f q, inverse p = .ok f ∧ extended.mul v f = .ok q ∧
      InFixedPoint (roundAway places q.toRat) places t ∧
      |roundAway places q.toRat - x| ≤ (10 ^ places)⁻¹ / 2 + 6 / 5 * 10 ^ (-49 : ℤ) * |x| ∧
      (HasDigits 50 p.toRat⁻¹ → HasDigits 50 x → roundAway places q.toRat = roundAway places x) ∧
      (|x| * 10 ^ places < 10 ^ 23 →
        (roundAway places q.toRat = roundAway places x ↔
          ¬ (Halfway places x ∧ |q.toRat| < |x|))) := by
  intro places x
  obtain ⟨p', v', f, e, r, hp', hv', hf, he, hr, rfl⟩ := normalizeLiteral_steps _ h
  rw [hp] at hp'
  obtain rfl := Except.ok.inj hp'
  rw [hv] at hv'
  obtain rfl := Except.ok.inj hv'
  obtain rfl := quantumExponent_eq he hu
  obtain ⟨q, -, hq, -, -⟩ := scaleDecimal_eq_ok hr
  have hp0 := (inverse_error hf hinv).1
  have herror := quotient_error hf hq hinv hn
  refine ⟨f, q, hf, hq, ?_, ?_, fun hd hx => ?_, roundAway_quotient_iff hvd hpd hp0 herror⟩
  · -- the number is written, so it is not too long for that
    obtain ⟨hfits, hfull⟩ := scaleDecimal_of_product hq places
    rcases lt_or_ge (|roundAway places q.toRat| * 10 ^ places) (10 ^ 50) with hlt | hge
    · obtain ⟨s, hs, hexp, hrat, hneg⟩ := hfits hlt
      obtain rfl := Except.ok.inj (hr.symm.trans hs)
      rw [← hrat] at hneg ⊢
      exact inFixedPoint_toPlaces hexp hneg
    · rw [hfull hge] at hr
      cases hr
  · linarith [abs_roundAway_sub_le places q.toRat,
      abs_sub_le (roundAway places q.toRat) q.toRat x]
  · rw [quotient_exact hf hq hinv hn hd hx]

/-- A third has no end of digits, and is rounded to the nearest all the same. -/
theorem normalizeLiteral_quotient_third :
    normalizeLiteral "-1.25".toList (.written "3".toList) (6 : ℕ) = .ok "-0.416667".toList ∧
      InFixedPoint (-416667 / 10 ^ 6) 6 "-0.416667".toList := by
  let v : Decimal := ⟨true, 125, -2⟩
  let p : Decimal := ⟨false, 3, 0⟩
  have hrun : normalizeLiteral "-1.25".toList (.written "3".toList) (6 : ℕ) =
      .ok "-0.416667".toList := by
    decide +kernel
  refine ⟨hrun, ?_⟩
  have hv : v.toRat = -5 / 4 := by norm_num [toRat, size, v]
  have hp : p.toRat = 3 := by norm_num [toRat, size, p]
  have hx : v.toRat / p.toRat = -5 / 12 := by norm_num [hv, hp]
  have hrange : ∀ {y : ℚ}, 10 ^ (-1 : ℤ) ≤ |y| → |y| < 10 ^ (0 : ℤ) → InRange y := fun hlow hhigh =>
    (normal_of_zpow (by decide) (by decide) hlow hhigh).low
  have hrounded : roundAway 6 (-5 / 12) = -416667 / 10 ^ 6 := by
    have hfloor : ⌊|(-5 / 12 : ℚ)| * 10 ^ 6 + 1 / 2⌋₊ = 416667 := by decide +kernel
    rw [roundAway, hfloor]
    norm_num
  obtain ⟨f, q, -, -, htext, -, -, hiff⟩ := normalizeLiteral_quotient (v := v) (p := p)
    (by decide +kernel) (by decide +kernel)
    ⟨125, -2, by norm_num, by norm_num [hv]⟩ ⟨3, 0, by norm_num, by norm_num [hp]⟩
    (hrange (by norm_num [hp]) (by norm_num [hp])) (hrange (by norm_num [hx]) (by norm_num [hx]))
    (by unfold Representable; decide) hrun
  rw [hx] at hiff
  have hplaces : max v.places 6 = 6 := by decide
  rw [hplaces] at htext hiff
  rw [(hiff (by norm_num)).mpr, hrounded] at htext
  · exact htext
  · -- the quotient is two thirds of a unit above a whole one
    rintro ⟨⟨k, hk⟩, -⟩
    have hsix : (5 * 10 ^ 6 : ℚ) = 12 * k + 6 := by
      norm_num at hk ⊢
      linarith
    have hsix : 5 * 10 ^ 6 = 12 * k + 6 := by exact_mod_cast hsix
    omega

/-- A quotient that is halfway and comes out below: 119 millionths at scale 14 are eight millionths
and a half. -/
theorem normalizeLiteral_quotient_halfway :
    ∃ v p r, read "0.000119".toList = .ok v ∧ read "14".toList = .ok p ∧
      HasDigits 25 v.toRat ∧ HasDigits 25 p.toRat ∧ max v.places 6 = 6 ∧
      normalizeLiteral "0.000119".toList (.written "14".toList) (6 : ℕ) =
        .ok "0.000008".toList ∧
      read "0.000008".toList = .ok r ∧ r.toRat ≠ roundAway 6 (v.toRat / p.toRat) := by
  refine ⟨⟨false, 119, -6⟩, ⟨false, 14, 0⟩, ⟨false, 8, -6⟩, by decide +kernel, by decide +kernel,
    ⟨119, -6, by norm_num, by norm_num [toRat, size]⟩,
    ⟨14, 0, by norm_num, by norm_num [toRat, size]⟩,
    by decide, by decide +kernel, by decide +kernel, ?_⟩
  have hx : toRat ⟨false, 119, -6⟩ / toRat ⟨false, 14, 0⟩ = 85 / 10 ^ 7 := by
    norm_num [toRat, size]
  have hfloor : ⌊|(85 / 10 ^ 7 : ℚ)| * 10 ^ 6 + 1 / 2⌋₊ = 9 := by decide +kernel
  rw [hx, roundAway, hfloor]
  norm_num [toRat, size]

end ModelScale
