import ModelScale.Proofs.Decimal.Overflow
import ModelScale.Proofs.Decimal.Readable

/-
# Scaling keeps the order of factors

A scaled literal is rounded twice, to the precision with ties to even and to a unit with ties away
from zero.  The units of the first rounding grow with the number, and zeros take a way of their own.
Still the larger factor never gives the smaller number, and the opposite factor gives the opposite
number, for literals and factors of any length.  Main statements:

* `nearest_mono`: rounding to a natural number keeps the order;
* `Context.signed_finish`, `Context.signed_quantize`: so do both roundings of a magnitude, and they
  leave its sign alone (`Signed`);
* `scaleLiteral_odd_and_monotone`: what this says of a scaled literal.
-/

namespace ModelScale

open Decimal Context Text

/-! ## 1. Rounding to a unit -/

/-- **Rounding keeps the order.**  It moves a number by a half at most, so only equal numbers could
change places. -/
theorem nearest_mono (tie : Tie) {x y : ℚ} (hx : 0 ≤ x) (hxy : x ≤ y) :
    nearest tie x ≤ nearest tie y := by
  by_contra hlt
  have hstep : (nearest tie y : ℚ) + 1 ≤ nearest tie x := by
    exact_mod_cast Nat.succ_le_of_lt (not_le.mp hlt)
  have hxerr := abs_le.mp (abs_nearest_sub_le tie hx)
  have hyerr := abs_le.mp (abs_nearest_sub_le tie (hx.trans hxy))
  have hsame : x = y := by linarith
  exact hlt (hsame ▸ le_rfl)

theorem nearest_mul_mono (tie : Tie) {x y : ℚ} (hx : 0 ≤ x) (hxy : x ≤ y) (u : ℤ) :
    nearest tie (x / 10 ^ u) * 10 ^ u ≤ (nearest tie (y / 10 ^ u) * 10 ^ u : ℚ) := by
  have hu := ten_zpow_pos u
  have hle := nearest_mono tie (div_nonneg hx hu.le) (div_le_div_of_nonneg_right hxy hu.le)
  exact mul_le_mul_of_nonneg_right (by exact_mod_cast hle) hu.le

/-- Zero is rounded to itself. -/
theorem nearest_zero_mul (tie : Tie) (u : ℚ) : nearest tie (0 / u) * u = 0 := by
  rw [zero_div, show nearest tie 0 = 0 from nearest_natCast tie 0, Nat.cast_zero, zero_mul]

/-- A power of ten is a number of smaller units. -/
theorem zpow_eq_natCast_mul {u k : ℤ} (h : u ≤ k) :
    (10 : ℚ) ^ k = (10 ^ (k - u).toNat : ℕ) * 10 ^ u := by
  conv_lhs => rw [show k = ((k - u).toNat : ℤ) + u by omega]
  rw [zpow_add₀ (by norm_num), zpow_natCast]
  push_cast
  rfl

theorem nearest_mul_le_zpow (tie : Tie) {x : ℚ} {u k : ℤ} (h : u ≤ k) (hx : 0 ≤ x)
    (hk : x ≤ 10 ^ k) : nearest tie (x / 10 ^ u) * 10 ^ u ≤ (10 ^ k : ℚ) := by
  rw [zpow_eq_natCast_mul h] at hk ⊢
  exact nearest_mul_le tie hx (ten_zpow_pos u) hk

theorem zpow_le_nearest_mul (tie : Tie) {x : ℚ} {u k : ℤ} (h : u ≤ k) (hk : 10 ^ k ≤ x) :
    (10 ^ k : ℚ) ≤ nearest tie (x / 10 ^ u) * 10 ^ u := by
  have hu := ten_zpow_pos u
  rw [zpow_eq_natCast_mul h] at hk ⊢
  have hle := (Nat.le_floor ((le_div_iff₀ hu).mpr hk)).trans (floor_le_nearest tie _)
  exact mul_le_mul_of_nonneg_right (by exact_mod_cast hle) hu.le

/-! ## 2. Operations on a magnitude -/

/-- An operation that leaves the sign alone and keeps the order of magnitudes. -/
structure Signed (op : Decimal → Except Fault Decimal) : Prop where
  /-- The opposite number has the opposite result, or the same fault. -/
  neg : ∀ d, op d.neg = (op d).map Decimal.neg
  negative : ∀ {d r}, op d = .ok r → r.negative = d.negative
  zero : ∀ {d r}, op d = .ok r → d.size = 0 → r.size = 0
  mono : ∀ {a b r s}, op a = .ok r → op b = .ok s → a.size ≤ b.size → r.size ≤ s.size

/-- **Such an operation keeps the order of numbers.** -/
theorem Signed.toRat_le {op : Decimal → Except Fault Decimal} (h : Signed op) {a b r s : Decimal}
    (hr : op a = .ok r) (hs : op b = .ok s) (hab : a.toRat ≤ b.toRat) : r.toRat ≤ s.toRat := by
  have ha := a.size_nonneg
  have hb := b.size_nonneg
  have hr0 := r.size_nonneg
  have hs0 := s.size_nonneg
  unfold toRat at hab ⊢
  rw [h.negative hr, h.negative hs]
  cases hna : a.negative <;> cases hnb : b.negative <;>
    simp only [hna, hnb, if_true, if_false, Bool.false_eq_true] at hab ⊢
  case false.false => exact h.mono hr hs hab
  case true.true => exact neg_le_neg (h.mono hs hr (neg_le_neg_iff.mp hab))
  case true.false => linarith
  case false.true =>
    -- a number above zero is at most one below it: both are zero
    rw [h.zero hr (by linarith), h.zero hs (by linarith), neg_zero]

namespace Context

variable {ctx : Context}

@[simp] theorem isZero_neg (d : Decimal) : d.neg.isZero = d.isZero := rfl

@[simp] theorem adjusted_neg (d : Decimal) : d.neg.adjusted = d.adjusted := rfl

theorem shorten_neg (d : Decimal) : ctx.shorten d.neg = (ctx.shorten d).neg := by
  unfold shorten neg
  dsimp only
  split_ifs <;> rfl

theorem flush_neg (d : Decimal) : ctx.flush d.neg = (ctx.flush d).neg := by
  unfold flush neg
  split_ifs <;> rfl

theorem finish_neg (d : Decimal) : ctx.finish d.neg = (ctx.finish d).map Decimal.neg := by
  rw [finish_eq, finish_eq, isZero_neg, adjusted_neg, shorten_neg, flush_neg, adjusted_neg]
  split_ifs <;> rfl

/-- The exponent of the last digit that a finished number keeps. -/
def unit (ctx : Context) (d : Decimal) : ℤ := max ctx.tiniest (ctx.lastPlace d)

/-- **A finished number is rounded to a unit**, whether it is below the normal range or not. -/
theorem finish_eq_ok (hp : 0 < ctx.precision) {d r : Decimal} (h : ctx.finish d = .ok r) :
    r.negative = d.negative ∧
      r.size = nearest .even (d.size / 10 ^ ctx.unit d) * 10 ^ ctx.unit d := by
  rw [finish_eq] at h
  split at h
  · rename_i hz
    have hz := isZero_iff.mp hz
    obtain rfl := Except.ok.inj h
    refine ⟨rfl, ?_⟩
    rw [size_eq_zero_iff.mpr hz, nearest_zero_mul]
    exact size_eq_zero_iff.mpr hz
  · split at h
    · cases h
    · have hunit : ctx.unit d = max (minExponent - (ctx.precision - 1))
        (d.adjusted - ctx.precision + 1) := rfl
      split at h
      · obtain rfl := Except.ok.inj h
        have htiny : ctx.unit d = ctx.tiniest := by
          unfold tiniest
          omega
        rw [htiny]
        exact ⟨flush_negative d, size_flush d⟩
      · split at h
        · cases h
        · obtain rfl := Except.ok.inj h
          have hlast : ctx.unit d = ctx.lastPlace d := by
            unfold lastPlace
            omega
          rw [hlast]
          exact ⟨shorten_negative d, size_shorten hp d⟩

/-- Two numbers are rounded to one unit, or there is a power of ten between them that is in reach of
both units. -/
theorem unit_eq_or_between (hp : 0 < ctx.precision) {a b : Decimal} (ha : a.coefficient ≠ 0)
    (hb : b.coefficient ≠ 0) (hle : a.size ≤ b.size) :
    ctx.unit a = ctx.unit b ∨ ∃ k, ctx.unit a ≤ k ∧ ctx.unit b ≤ k ∧ a.size ≤ 10 ^ k ∧
      10 ^ k ≤ b.size := by
  have hlead : a.adjusted ≤ b.adjusted := by
    by_contra hlt
    exact absurd hle (not_le.mpr (size_lt_of_adjusted_lt ha (not_le.mp hlt)))
  rcases eq_or_lt_of_le hlead with heq | hlt
  · left
    unfold unit lastPlace
    rw [heq]
  · by_cases hsame : ctx.unit a = ctx.unit b
    · exact Or.inl hsame
    · refine Or.inr ⟨b.adjusted, ?_, ?_, ?_, zpow_adjusted_le hb⟩
      · unfold unit lastPlace at hsame ⊢
        omega
      · unfold unit lastPlace at hsame ⊢
        omega
      · exact a.size_lt_zpow_adjusted.le.trans (zpow_le_zpow_right₀ (by norm_num) hlt)

/-- **Bringing numbers into a context keeps their order.** -/
theorem signed_finish (hp : 0 < ctx.precision) : Signed ctx.finish where
  neg := finish_neg
  negative h := (finish_eq_ok hp h).1
  zero {d r} h hz := by
    rw [(finish_eq_ok hp h).2, hz, nearest_zero_mul]
  mono {a b r s} hr hs hle := by
    rw [(finish_eq_ok hp hr).2, (finish_eq_ok hp hs).2]
    by_cases ha : a.coefficient = 0
    · rw [size_eq_zero_iff.mpr ha, nearest_zero_mul]
      exact mul_nonneg (Nat.cast_nonneg _) (ten_zpow_pos _).le
    · have hb : b.coefficient ≠ 0 := by
        intro hz
        have := size_pos ha
        rw [size_eq_zero_iff.mpr hz] at hle
        linarith
      rcases unit_eq_or_between hp ha hb hle with hunit | ⟨k, hka, hkb, hak, hkb'⟩
      · rw [hunit]
        exact nearest_mul_mono .even a.size_nonneg hle _
      · exact (nearest_mul_le_zpow .even hka a.size_nonneg hak).trans
          (zpow_le_nearest_mul .even hkb hkb')

theorem quantize_neg (tie : Tie) (e : ℤ) (d : Decimal) :
    ctx.quantize tie d.neg e = (ctx.quantize tie d e).map Decimal.neg := by
  unfold quantize neg isZero adjusted
  dsimp only
  split_ifs <;> rfl

/-- **Rounding numbers to an exponent keeps their order.** -/
theorem signed_quantize (tie : Tie) (e : ℤ) : Signed (ctx.quantize tie · e) where
  neg := quantize_neg tie e
  negative h := (quantize_eq_ok h).2.1
  zero {d r} h hz := by
    rw [(quantize_eq_ok h).2.2, hz, nearest_zero_mul]
  mono {a b r s} hr hs hle := by
    rw [(quantize_eq_ok hr).2.2, (quantize_eq_ok hs).2.2]
    exact nearest_mul_mono tie a.size_nonneg hle e

end Context

/-! ## 3. A scaled number -/

/-- The product before it is rounded. -/
theorem mul_eq (d f : Decimal) : ∃ p : Decimal, p.toRat = d.toRat * f.toRat ∧
    extended.mul d f = extended.finish p ∧ extended.mul d f.neg = extended.finish p.neg := by
  refine ⟨_, toRat_product d f, rfl, congrArg extended.finish ?_⟩
  unfold neg
  dsimp only
  rw [Bool.bne_not]

/-- **The opposite factor gives the opposite number.** -/
theorem scaleDecimal_neg {d f r : Decimal} {e : ℤ} (h : scaleDecimal d f e = .ok r) :
    ∃ s, scaleDecimal d f.neg e = .ok s ∧ s.toRat = -r.toRat := by
  obtain ⟨a, b, ha, hb, rfl⟩ := scaleDecimal_eq_ok h
  obtain ⟨p, -, hmul, hneg⟩ := mul_eq d f
  rw [hmul] at ha
  refine ⟨plainZero b.neg, ?_, ?_⟩
  · rw [scaleDecimal_eq, hneg, finish_neg, ha]
    change (extended.quantize .away a.neg e).map plainZero = _
    rw [quantize_neg, hb]
    rfl
  · rw [toRat_plainZero, toRat_plainZero, toRat_neg]

/-- **Scaling keeps the order of products.** -/
theorem scaleDecimal_mono {c d f g r s : Decimal} {e : ℤ} (hr : scaleDecimal c f e = .ok r)
    (hs : scaleDecimal d g e = .ok s) (h : c.toRat * f.toRat ≤ d.toRat * g.toRat) :
    r.toRat ≤ s.toRat := by
  obtain ⟨a, b, ha, hb, rfl⟩ := scaleDecimal_eq_ok hr
  obtain ⟨a', b', ha', hb', rfl⟩ := scaleDecimal_eq_ok hs
  rw [toRat_plainZero, toRat_plainZero]
  rw [← toRat_product, ← toRat_product] at h
  have hproduct : a.toRat ≤ a'.toRat := (signed_finish (by decide)).toRat_le ha ha' h
  exact (signed_quantize .away e).toRat_le hb hb' hproduct

/-! ## 4. A scaled literal -/

/-- **Scaling a literal is odd and monotone in the factor**, at every number of fractional digits
and without a bound on those of the literal or the factors.  A result is a text that denotes a
number; for a larger factor this is not smaller if the literal is not below zero, and not larger if
the literal is not above zero.  Wherever a literal can be scaled by a factor, it can be scaled by
the opposite one, to the opposite number. -/
theorem scaleLiteral_odd_and_monotone {written t : Text} {places? : Option ℤ} {f g : Quantity}
    {d a b : Decimal} (hd : Decimal.read (trim written) = .ok d) (ha : f.value = .ok a)
    (hb : g.value = .ok b) (ht : scaleLiteral written f places? = .ok t) :
    ∃ x, Denotes t x ∧
      (∀ u, scaleLiteral written g places? = .ok u → ∃ y, Denotes u y ∧
        (a.toRat ≤ b.toRat → 0 ≤ d.toRat → x ≤ y) ∧ (a.toRat ≤ b.toRat → d.toRat ≤ 0 → y ≤ x)) ∧
      (b.toRat = -a.toRat →
        ∃ u, scaleLiteral written g places? = .ok u ∧ Denotes u (-x)) := by
  obtain ⟨places, e, d', a', r, hplaces, he, hd', ha', hr, hx⟩ := scaleLiteral_denotes ht
  obtain rfl := Except.ok.inj (hd.symm.trans hd')
  obtain rfl := Except.ok.inj (ha.symm.trans ha')
  refine ⟨r.toRat, hx, fun u hu => ?_, fun hneg => ?_⟩
  · obtain ⟨places', e', d', b', s, hplaces', he', hd', hb', hs, hy⟩ := scaleLiteral_denotes hu
    obtain rfl := Except.ok.inj (hd.symm.trans hd')
    obtain rfl := Except.ok.inj (hb.symm.trans hb')
    rw [← Except.ok.inj (hplaces.symm.trans hplaces'), he] at he'
    obtain rfl := Except.ok.inj he'
    refine ⟨s.toRat, hy, fun hab hpos => ?_, fun hab hneg => ?_⟩
    · exact scaleDecimal_mono hr hs (mul_le_mul_of_nonneg_left hab hpos)
    · exact scaleDecimal_mono hs hr (mul_le_mul_of_nonpos_left hab hneg)
  · obtain ⟨s, hs, hopposite⟩ := scaleDecimal_neg hr
    rw [← scaleDecimal_congr d (hneg.trans (toRat_neg a).symm) e] at hs
    rw [← hopposite]
    exact exists_scaleLiteral hplaces he hd hb hs

/-- A literal below zero that is longer than the precision: its treble is not above its double, and
the factor -2 gives the opposite of the double, behind a blank where the sign was. -/
theorem scaleLiteral_odd_and_monotone_long :
    (∃ x y, Denotes "-1.56".toList x ∧ Denotes "-2.33".toList y ∧ y ≤ x) ∧
      ∃ x, Denotes "-1.56".toList x ∧ Denotes " 1.56".toList (-x) := by
  let written : Text :=
    "-0.777777777777777777777777777777777777777777777777777777777777777775".toList
  let d : Decimal :=
    ⟨true, 777777777777777777777777777777777777777777777777777777777777777775, -66⟩
  have hd : Decimal.read (trim written) = .ok d := by decide +kernel
  have hdouble : Quantity.value (.written "2".toList) = .ok ⟨false, 2, 0⟩ := by decide +kernel
  have htreble : Quantity.value (.written "3".toList) = .ok ⟨false, 3, 0⟩ := by decide +kernel
  have hopposite : Quantity.value (.written "-2".toList) = .ok ⟨true, 2, 0⟩ := by decide +kernel
  have ht : scaleLiteral written (.written "2".toList) (some 2) = .ok "-1.56".toList := by
    decide +kernel
  have hu : scaleLiteral written (.written "3".toList) (some 2) = .ok "-2.33".toList := by
    decide +kernel
  have hw : scaleLiteral written (.written "-2".toList) (some 2) = .ok " 1.56".toList := by
    decide +kernel
  have hnonpos : d.toRat ≤ 0 := by norm_num [toRat, size, d]
  constructor
  · obtain ⟨x, hx, hmono, -⟩ := scaleLiteral_odd_and_monotone hd hdouble htreble ht
    obtain ⟨y, hy, -, hle⟩ := hmono _ hu
    exact ⟨x, y, hx, hy, hle (by norm_num [toRat, size]) hnonpos⟩
  · obtain ⟨x, hx, -, hodd⟩ := scaleLiteral_odd_and_monotone hd hdouble hopposite ht
    obtain ⟨v, hv, hneg⟩ := hodd (by norm_num [toRat, size])
    rw [hw] at hv
    exact ⟨x, hx, Except.ok.inj hv ▸ hneg⟩

end ModelScale
