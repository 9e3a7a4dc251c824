import Mathlib.Data.Nat.Cast.Field
import Mathlib.Data.Nat.Cast.Order.Field
import ModelScale.Proofs.Decimal.FixedPoint

/-
# Which results overflow

A result overflows when it is so large that rounding it to the precision leaves the exponent range.
That is decided by the exact result alone: it overflows from half a unit below the power of ten that
is out of range, as a tie there goes up to it (`ceiling`).  The sum and the quotient are not
finished from their exact values.  A small summand is replaced by a unit in a lower place, and a
quotient with a remainder gets a last digit that is not its own; but the ceiling is a multiple of so
large a power of ten that neither can move a result across it.  Main statements:

* `finishes_finish`: a decimal that is brought into a context overflows just when it reaches the
  ceiling (`Finishes`);
* `finishes_abs`, `finishes_sub`, `finishes_div`: so do the absolute value, the difference and the
  quotient, by their exact values;
* `compactFactor_eq_error_iff`: which factors cannot be shown.
-/

namespace ModelScale

open Decimal

/-! ## 1. Rounding up to an even number -/

/-- A number that is at most a natural number is not rounded beyond it. -/
theorem nearest_le_of_le (tie : Tie) {x : ℚ} {n : ℕ} (hx : 0 ≤ x) (h : x ≤ n) :
    nearest tie x ≤ n := by
  rcases h.lt_or_eq with hlt | rfl
  · have hfloor := (Nat.floor_lt hx).mpr hlt
    have := nearest_le_floor_add_one tie x
    omega
  · rw [nearest_natCast]

/-- A number that is at most so many units is not rounded beyond them. -/
theorem nearest_mul_le (tie : Tie) {x u : ℚ} {n : ℕ} (hx : 0 ≤ x) (hu : 0 < u) (h : x ≤ n * u) :
    nearest tie (x / u) * u ≤ n * u := by
  have hle : nearest tie (x / u) ≤ n :=
    nearest_le_of_le tie (div_nonneg hx hu.le) ((div_le_iff₀ hu).mpr h)
  exact mul_le_mul_of_nonneg_right (by exact_mod_cast hle) hu.le

/-- **An even number is reached from half a unit below it**: the tie goes there. -/
theorem le_nearest_even_iff {x : ℚ} {n : ℕ} (hx : 0 ≤ x) (hn : Even n) :
    n ≤ nearest .even x ↔ (n : ℚ) - 1 / 2 ≤ x := by
  obtain ⟨m, rfl⟩ := hn
  have hle := Nat.floor_le hx
  have hlt := Nat.lt_floor_add_one x
  -- comparisons of natural numbers that are known for rationals
  have hcast : ∀ {k : ℕ}, ((m + m : ℕ) : ℚ) < k + 1 → m + m ≤ k := by
    intro k h
    exact Nat.lt_succ_iff.mp (by exact_mod_cast h)
  have hcast' : ∀ {k : ℕ}, m + m ≤ k → ((m + m : ℕ) : ℚ) ≤ k := fun h => by exact_mod_cast h
  unfold nearest
  dsimp only
  split
  · constructor
    · intro h
      linarith [hcast' h]
    · intro h
      exact hcast (by linarith)
  · split
    · constructor
      · intro h
        have := hcast' h
        push_cast at this ⊢
        linarith
      · intro h
        exact hcast (by push_cast at h ⊢; linarith)
    · have hhalf : x = ⌊x⌋₊ + 1 / 2 := by linarith
      have hiff : ((m + m : ℕ) : ℚ) - 1 / 2 ≤ x ↔ m + m ≤ ⌊x⌋₊ + 1 := by
        constructor
        · intro h
          exact hcast (by push_cast at h ⊢; linarith)
        · intro h
          have := hcast' h
          push_cast at this ⊢
          linarith
      rw [hiff]
      omega

namespace Context

variable {ctx : Context}

/-! ## 2. The ceiling -/

/-- The unit of the last digit of the largest numbers. -/
def topUnit (ctx : Context) : ℚ := 10 ^ (maxExponent + 1 - ctx.precision : ℤ)

/-- **The magnitude from which a result overflows**: half a unit below the first power of ten that
is out of range. -/
def ceiling (ctx : Context) : ℚ := (10 ^ ctx.precision - 1 / 2) * ctx.topUnit

theorem topUnit_pos (ctx : Context) : 0 < ctx.topUnit := ten_zpow_pos _

theorem pow_mul_topUnit (ctx : Context) :
    10 ^ ctx.precision * ctx.topUnit = 10 ^ (maxExponent + 1) := by
  rw [topUnit, ← zpow_natCast, ← zpow_add₀ (by norm_num)]
  congr 1
  omega

theorem ceiling_lt_zpow (ctx : Context) : ctx.ceiling < 10 ^ (maxExponent + 1) := by
  rw [← ctx.pow_mul_topUnit, ceiling]
  exact mul_lt_mul_of_pos_right (by linarith) ctx.topUnit_pos

theorem zpow_maxExponent_lt_ceiling (hp : 0 < ctx.precision) :
    10 ^ maxExponent < ctx.ceiling := by
  have hten : (10 : ℚ) ≤ 10 ^ ctx.precision := by
    exact_mod_cast Nat.pow_le_pow_right (by decide : 0 < 10) hp
  have htop := ctx.pow_mul_topUnit
  rw [zpow_add₀ (by norm_num), zpow_one] at htop
  have hunit := ctx.topUnit_pos
  rw [ceiling]
  nlinarith

theorem ceiling_pos (hp : 0 < ctx.precision) : 0 < ctx.ceiling :=
  (ten_zpow_pos _).trans (zpow_maxExponent_lt_ceiling hp)

theorem maxExponent_lt_adjusted_iff {d : Decimal} (hz : d.coefficient ≠ 0) :
    maxExponent < d.adjusted ↔ 10 ^ (maxExponent + 1) ≤ d.size := by
  constructor
  · intro h
    exact (zpow_le_zpow_right₀ (by norm_num) h).trans (zpow_adjusted_le hz)
  · intro h
    have := (zpow_lt_zpow_iff_right₀ (by norm_num)).mp (h.trans_lt d.size_lt_zpow_adjusted)
    omega

/-! ## 3. Finished results -/

/-- The result of a calculation with an exact value: an overflow if the value reaches the ceiling,
and otherwise a decimal below it. -/
inductive Finishes (ctx : Context) (x : ℚ) : Except Fault Decimal → Prop where
  | overflow (h : ctx.ceiling ≤ |x|) : Finishes ctx x (.error .overflow)
  | ok {d : Decimal} (h : |x| < ctx.ceiling) (hd : |d.toRat| < ctx.ceiling) :
    Finishes ctx x (.ok d)

theorem Finishes.congr {x y : ℚ} {r : Except Fault Decimal} (h : ctx.Finishes x r)
    (hxy : ctx.ceiling ≤ |x| ↔ ctx.ceiling ≤ |y|) : ctx.Finishes y r := by
  cases h with
  | overflow h => exact .overflow (hxy.mp h)
  | ok h hd => exact .ok (not_le.mp fun hy => not_le.mpr h (hxy.mpr hy)) hd

/-- **A calculation fails by an overflow or not at all.** -/
theorem Finishes.eq_error_iff {x : ℚ} {r : Except Fault Decimal} (h : ctx.Finishes x r)
    {f : Fault} : r = .error f ↔ f = .overflow ∧ ctx.ceiling ≤ |x| := by
  cases h with
  | overflow h =>
    rw [Except.error.injEq, eq_comm]
    exact (and_iff_left h).symm
  | ok h hd => exact iff_of_false (fun he => nomatch he) fun he => not_le.mpr h he.2

/-- With the leading digit below the highest place, a number is too small to reach the ceiling,
rounded or not. -/
theorem size_lt_ceiling_of_adjusted_lt (hp : 0 < ctx.precision) {d : Decimal}
    (hadj : d.adjusted < maxExponent) :
    d.size < ctx.ceiling ∧ (ctx.shorten d).size < ctx.ceiling := by
  have hpow : (10 : ℚ) ^ (d.adjusted + 1) = (10 ^ ctx.precision : ℕ) * 10 ^ ctx.lastPlace d := by
    push_cast
    rw [← zpow_natCast, ← zpow_add₀ (by norm_num)]
    congr 1
    unfold lastPlace
    omega
  have hsize := d.size_lt_zpow_adjusted
  have htop : (10 : ℚ) ^ (d.adjusted + 1) ≤ 10 ^ maxExponent :=
    zpow_le_zpow_right₀ (by norm_num) (by omega)
  have hround := nearest_mul_le .even d.size_nonneg (ten_zpow_pos _) (hpow ▸ hsize.le)
  have hbelow := zpow_maxExponent_lt_ceiling hp
  rw [size_shorten hp]
  rw [hpow] at htop
  exact ⟨by linarith, by linarith⟩

/-- With the leading digit in the highest place, a number is rounded to the top unit. -/
theorem zpow_lastPlace_eq {d : Decimal} (hadj : d.adjusted = maxExponent) :
    (10 : ℚ) ^ ctx.lastPlace d = ctx.topUnit := by
  rw [lastPlace, hadj, topUnit]
  congr 1
  omega

/-- With the leading digit in the highest place, a number is rounded out of range just when it
reaches the ceiling. -/
theorem zpow_le_size_shorten_iff (hp : 0 < ctx.precision) {d : Decimal}
    (hadj : d.adjusted = maxExponent) :
    10 ^ (maxExponent + 1) ≤ (ctx.shorten d).size ↔ ctx.ceiling ≤ d.size := by
  have heven : Even (10 ^ ctx.precision) := Nat.even_pow.mpr ⟨by decide, hp.ne'⟩
  have hunit := ctx.topUnit_pos
  have hreach := le_nearest_even_iff (div_nonneg d.size_nonneg hunit.le) heven
  push_cast at hreach
  rw [size_shorten hp, zpow_lastPlace_eq hadj, ← ctx.pow_mul_topUnit,
    mul_le_mul_iff_of_pos_right hunit, ceiling, ← le_div_iff₀ hunit, ← hreach]
  exact_mod_cast Iff.rfl

/-- What is rounded into the range stays below the ceiling: it has one unit less than the first
power of ten that is out of range. -/
theorem size_shorten_lt_ceiling (hp : 0 < ctx.precision) {d : Decimal}
    (hadj : d.adjusted = maxExponent) (h : (ctx.shorten d).size < 10 ^ (maxExponent + 1)) :
    (ctx.shorten d).size < ctx.ceiling := by
  have hunit := ctx.topUnit_pos
  rw [size_shorten hp, zpow_lastPlace_eq hadj] at h ⊢
  rw [← ctx.pow_mul_topUnit, mul_lt_mul_iff_of_pos_right hunit] at h
  have hdigits : nearest .even (d.size / ctx.topUnit) + 1 ≤ 10 ^ ctx.precision := by
    exact_mod_cast h
  have hcast : (nearest .even (d.size / ctx.topUnit) : ℚ) + 1 ≤ 10 ^ ctx.precision := by
    exact_mod_cast hdigits
  exact mul_lt_mul_of_pos_right (by linarith) hunit

/-- A number in the normal range: rounded to the precision, it is out of range just when it reaches
the ceiling, and otherwise stays below it. -/
theorem finishes_shorten (hp : 0 < ctx.precision) {d : Decimal} (hz : d.coefficient ≠ 0)
    (hadj : d.adjusted ≤ maxExponent) :
    (maxExponent < (ctx.shorten d).adjusted ↔ ctx.ceiling ≤ d.size) ∧
      (d.size < ctx.ceiling → (ctx.shorten d).size < ctx.ceiling) := by
  rw [maxExponent_lt_adjusted_iff (shorten_coefficient_ne_zero hp hz)]
  rcases hadj.lt_or_eq with hlt | heq
  · obtain ⟨hd, hs⟩ := size_lt_ceiling_of_adjusted_lt hp hlt
    have hrange := hs.trans ctx.ceiling_lt_zpow
    exact ⟨iff_of_false (not_le.mpr hrange) (not_le.mpr hd), fun _ => hs⟩
  · have hiff := zpow_le_size_shorten_iff hp heq
    exact ⟨hiff, fun h => size_shorten_lt_ceiling hp heq (not_le.mp (hiff.not.mpr (not_le.mpr h)))⟩

/-- A result below the normal range is nowhere near the ceiling. -/
theorem size_flush_lt (hp : 0 < ctx.precision) {d : Decimal} (h : d.adjusted < minExponent) :
    (ctx.flush d).size < ctx.ceiling := by
  have hunit := ten_zpow_pos ctx.tiniest
  have hpow : (10 : ℚ) ^ minExponent = (10 ^ (ctx.precision - 1) : ℕ) * 10 ^ ctx.tiniest := by
    push_cast
    rw [← zpow_natCast, ← zpow_add₀ (by norm_num)]
    congr 1
    unfold tiniest
    omega
  have hsize : d.size ≤ 10 ^ minExponent :=
    d.size_lt_zpow_adjusted.le.trans (zpow_le_zpow_right₀ (by norm_num) h)
  have hround := nearest_mul_le .even d.size_nonneg hunit (hpow ▸ hsize)
  have hrange : (10 : ℚ) ^ minExponent ≤ 10 ^ maxExponent :=
    zpow_le_zpow_right₀ (by norm_num) (by decide)
  rw [size_flush]
  rw [hpow] at hrange
  exact hround.trans_lt (hrange.trans_lt (zpow_maxExponent_lt_ceiling hp))

/-- **A decimal that is brought into a context** overflows just when it reaches the ceiling. -/
theorem finishes_finish (hp : 0 < ctx.precision) (d : Decimal) :
    ctx.Finishes d.toRat (ctx.finish d) := by
  rw [finish_eq]
  split
  · rename_i hz
    have hzero : ∀ e : ℤ, |({ d with exponent := e } : Decimal).toRat| = 0 := fun e =>
      abs_eq_zero.mpr (toRat_eq_zero_iff.mpr (isZero_iff.mp hz))
    exact .ok (hzero d.exponent ▸ ceiling_pos hp) (hzero _ ▸ ceiling_pos hp)
  · rename_i hz
    have hz : d.coefficient ≠ 0 := isZero_false_iff.mp (Bool.not_eq_true _ ▸ hz)
    split
    · rename_i hadj
      refine .overflow (ctx.ceiling_lt_zpow.le.trans ?_)
      rw [abs_toRat]
      exact (maxExponent_lt_adjusted_iff hz).mp hadj
    · rename_i hadj
      split
      · rename_i hlow
        refine .ok ?_ (by rw [abs_toRat]; exact size_flush_lt hp hlow)
        rw [abs_toRat]
        exact (d.size_lt_zpow_adjusted.trans_le (zpow_le_zpow_right₀ (by norm_num)
          (by unfold minExponent at hlow; unfold maxExponent; omega))).trans
          (zpow_maxExponent_lt_ceiling hp)
      · obtain ⟨hiff, hbelow⟩ := finishes_shorten hp hz (not_lt.mp hadj)
        rw [← abs_toRat] at hiff
        split
        · rename_i hover
          exact .overflow (hiff.mp hover)
        · rename_i hover
          have hlt := not_le.mp (hiff.not.mp hover)
          exact .ok hlt (by rw [abs_toRat]; exact hbelow (by rwa [← abs_toRat]))

theorem finishes_abs (hp : 0 < ctx.precision) (d : Decimal) :
    ctx.Finishes d.toRat (ctx.abs d) := by
  refine (finishes_finish hp d.magnitude).congr ?_
  rw [abs_toRat, abs_toRat, size_magnitude]

/-- A finished result has an absolute value. -/
theorem Finishes.bind_abs (hp : 0 < ctx.precision) {x : ℚ} {r : Except Fault Decimal}
    (h : ctx.Finishes x r) : ctx.Finishes x (r.bind ctx.abs) := by
  cases h with
  | overflow h => exact .overflow h
  | @ok d h hd =>
    have habs := finishes_abs hp d
    rw [Except.bind]
    generalize ctx.abs d = size at habs ⊢
    cases habs with
    | overflow hle => exact absurd hle (not_le.mpr hd)
    | ok _ hsize => exact .ok h hsize

/-! ## 4. Differences -/

/-- The ceiling as a whole number of powers of ten, none of them above the place that follows the
last digit of the largest numbers. -/
theorem exists_ceiling_eq (ctx : Context) {e : ℤ} (he : e ≤ maxExponent - ctx.precision) :
    ∃ k : ℕ, ctx.ceiling = (5 * k : ℕ) * 10 ^ e := by
  obtain ⟨j, hj⟩ := Int.eq_ofNat_of_zero_le (sub_nonneg.mpr he)
  have hten : (10 : ℚ) ^ (maxExponent + 1 - ctx.precision : ℤ) = 10 * 10 ^ j * 10 ^ e := by
    rw [← zpow_natCast, ← zpow_one_add₀ (by norm_num), ← zpow_add₀ (by norm_num)]
    congr 1
    omega
  have hone : 1 ≤ 2 * 10 ^ ctx.precision := by
    have : 0 < 10 ^ ctx.precision := by positivity
    omega
  refine ⟨(2 * 10 ^ ctx.precision - 1) * 10 ^ j, ?_⟩
  rw [ceiling, topUnit, hten]
  push_cast [hone]
  ring

/-- A change of less than a unit moves no whole number of units past another. -/
theorem units_le_add_iff {i j : ℕ} {u t : ℚ} (h0 : 0 < t) (ht : t < u) :
    ((i : ℚ) * u ≤ j * u + t ↔ (i : ℚ) * u ≤ j * u) ∧
      ((i : ℚ) * u ≤ j * u - t ↔ (i : ℚ) * u < j * u) := by
  have hu := h0.trans ht
  have hstep : ∀ {a b : ℕ}, a < b → (a : ℚ) * u + u ≤ b * u := by
    intro a b hab
    have hcast : (a : ℚ) + 1 ≤ b := by exact_mod_cast hab
    nlinarith
  rcases lt_trichotomy j i with hlt | rfl | hgt
  · have := hstep hlt
    exact ⟨iff_of_false (by linarith) (by linarith), iff_of_false (by linarith) (by linarith)⟩
  · exact ⟨iff_of_true (by linarith) le_rfl, iff_of_false (by linarith) (lt_irrefl _)⟩
  · have := hstep hgt
    exact ⟨iff_of_true (by linarith) (by linarith), iff_of_true (by linarith) (by linarith)⟩

/-- Out of range, a number is so far above the ceiling that a change below its last digit does not
bring it down. -/
theorem ceiling_add_le_size {large : Decimal} (hl : large.coefficient ≠ 0)
    (hadj : maxExponent < large.adjusted) :
    ctx.ceiling + 10 ^ (large.adjusted - ctx.precision - 1 : ℤ) ≤ large.size := by
  have hpow : (10 : ℚ) ^ large.adjusted =
      10 ^ (ctx.precision + 1) * 10 ^ (large.adjusted - ctx.precision - 1 : ℤ) := by
    rw [← zpow_natCast, ← zpow_add₀ (by norm_num)]
    congr 1
    push_cast
    ring
  have hunit : ctx.topUnit ≤ 10 * 10 ^ (large.adjusted - ctx.precision - 1 : ℤ) := by
    rw [topUnit, ← zpow_one_add₀ (by norm_num)]
    exact zpow_le_zpow_right₀ (by norm_num) (by omega)
  have hsize := zpow_adjusted_le hl
  have hdown := ten_zpow_pos (large.adjusted - ctx.precision - 1)
  have hone : (1 : ℚ) ≤ 10 ^ ctx.precision := one_le_pow₀ (by norm_num)
  have hmul := mul_le_mul_of_nonneg_left hunit (by linarith : (0 : ℚ) ≤ 10 ^ ctx.precision - 1 / 2)
  rw [ceiling]
  rw [hpow, pow_succ] at hsize
  nlinarith

/-- **What is added to a number far below its last digit** cannot make it reach the ceiling, and
what is taken away keeps it from that only if it stands there. -/
theorem ceiling_le_add_iff {large : Decimal} (hl : large.coefficient ≠ 0) {t : ℚ} (h0 : 0 < t)
    (hexp : t ≤ 10 ^ (large.exponent - 1))
    (hlead : t ≤ 10 ^ (large.adjusted - ctx.precision - 1)) :
    (ctx.ceiling ≤ large.size + t ↔ ctx.ceiling ≤ large.size) ∧
      (ctx.ceiling ≤ large.size - t ↔ ctx.ceiling < large.size) := by
  rcases lt_or_ge maxExponent large.adjusted with hadj | hadj
  · have hfar : ctx.ceiling + 10 ^ (large.adjusted - ctx.precision - 1 : ℤ) ≤ large.size :=
      ceiling_add_le_size hl hadj
    exact ⟨iff_of_true (by linarith) (by linarith), iff_of_true (by linarith) (by linarith)⟩
  · -- number and ceiling are multiples of a power of ten that is larger than the change
    obtain ⟨e, he⟩ : ∃ e, min large.exponent (maxExponent - ctx.precision) = e := ⟨_, rfl⟩
    obtain ⟨k, hk⟩ := ctx.exists_ceiling_eq (e := e) (by omega)
    obtain ⟨n, hn⟩ : ∃ n : ℕ, large.size = n * 10 ^ e :=
      ⟨_, (div_eq_iff (ten_zpow_pos e).ne').mp (size_div_zpow_of_le (by omega))⟩
    have ht : t < 10 ^ e := by
      rcases le_total large.exponent (maxExponent - ctx.precision) with h | h
      · exact hexp.trans_lt (zpow_lt_zpow_right₀ (by norm_num) (by omega))
      · exact hlead.trans_lt (zpow_lt_zpow_right₀ (by norm_num) (by omega))
    rw [hk, hn]
    exact units_le_add_iff h0 ht

/-- The magnitude of a sum. -/
theorem abs_toRat_add (a b : Decimal) :
    |a.toRat + b.toRat| =
      if a.negative = b.negative then a.size + b.size else |a.size - b.size| := by
  have ha := a.size_nonneg
  have hb := b.size_nonneg
  unfold toRat
  cases a.negative <;> cases b.negative
  · simp [abs_of_nonneg (add_nonneg ha hb)]
  · simp [sub_eq_add_neg]
  · rw [if_pos rfl, if_neg (by simp), if_neg (by simp), abs_sub_comm]
    congr 1
    ring
  · rw [if_pos rfl, if_pos rfl, if_pos rfl, ← neg_add, abs_neg, abs_of_nonneg (add_nonneg ha hb)]

/-- **The part of a small summand that matters** makes the sum reach the ceiling just when the
summand does. -/
theorem ceiling_le_add_relevant {large small : Decimal} (hl : large.coefficient ≠ 0)
    (hs : small.coefficient ≠ 0) :
    ctx.ceiling ≤ |large.toRat + (ctx.relevant large small).toRat| ↔
      ctx.ceiling ≤ |large.toRat + small.toRat| := by
  unfold relevant
  dsimp only
  split
  · rename_i hplace
    obtain ⟨place, he⟩ : ∃ place, large.exponent - 1 +
        min 0 ((digitCount large.coefficient : ℤ) - ctx.precision - 1) = place := ⟨_, rfl⟩
    rw [he] at hplace ⊢
    have hexp : place ≤ large.exponent - 1 := by omega
    have hlead : place ≤ large.adjusted - ctx.precision - 1 := by
      unfold adjusted
      omega
    have hunit : size ⟨small.negative, 1, place⟩ = 10 ^ place := by simp [size]
    have hbelow : ∀ t : ℚ, t ≤ 10 ^ place → t < large.size := by
      intro t ht
      exact ht.trans_lt ((zpow_lt_zpow_right₀ (by norm_num) (by omega)).trans_le
        (zpow_adjusted_le hl))
    have hsmall : small.size ≤ 10 ^ place :=
      (small.size_lt_zpow_adjusted.trans_le (zpow_le_zpow_right₀ (by norm_num) hplace)).le
    have hiff : ∀ t : ℚ, 0 < t → t ≤ 10 ^ place →
        (ctx.ceiling ≤ large.size + t ↔ ctx.ceiling ≤ large.size) ∧
          (ctx.ceiling ≤ |large.size - t| ↔ ctx.ceiling < large.size) := by
      intro t h0 ht
      rw [abs_of_pos (sub_pos.mpr (hbelow t ht))]
      exact ceiling_le_add_iff hl h0 (ht.trans (zpow_le_zpow_right₀ (by norm_num) hexp))
        (ht.trans (zpow_le_zpow_right₀ (by norm_num) hlead))
    obtain ⟨hadd, hsub⟩ := hiff _ (ten_zpow_pos place) le_rfl
    obtain ⟨hadd', hsub'⟩ := hiff _ (size_pos hs) hsmall
    rw [abs_toRat_add, abs_toRat_add, hunit]
    dsimp only
    split
    · exact hadd.trans hadd'.symm
    · exact hsub.trans hsub'.symm
  · rfl

/-- **A sum** overflows just when it reaches the ceiling. -/
theorem finishes_add (hp : 0 < ctx.precision) (a b : Decimal) :
    ctx.Finishes (a.toRat + b.toRat) (ctx.add a b) := by
  unfold add
  split
  · rename_i ha
    rw [toRat_eq_zero_iff.mpr (isZero_iff.mp ha), zero_add]
    exact finishes_finish hp b
  split
  · rename_i hb
    rw [toRat_eq_zero_iff.mpr (isZero_iff.mp hb), add_zero]
    exact finishes_finish hp a
  rename_i ha hb
  have ha : a.coefficient ≠ 0 := isZero_false_iff.mp (Bool.not_eq_true _ ▸ ha)
  have hb : b.coefficient ≠ 0 := isZero_false_iff.mp (Bool.not_eq_true _ ▸ hb)
  split
  · refine (finishes_finish hp _).congr ?_
    rw [toRat_exactSum, add_comm, ceiling_le_add_relevant hb ha, add_comm]
  · refine (finishes_finish hp _).congr ?_
    rw [toRat_exactSum, ceiling_le_add_relevant ha hb]

theorem finishes_sub (hp : 0 < ctx.precision) (a b : Decimal) :
    ctx.Finishes (a.toRat - b.toRat) (ctx.sub a b) := by
  rw [sub_eq_add_neg, ← toRat_neg]
  exact finishes_add hp a b.neg

/-! ## 5. Quotients -/

/-- The last digit of a quotient with a remainder, as it is finished. -/
def sticky (q : ℕ) : ℕ := if q % 5 = 0 then q + 1 else q

/-- **The last digit that a quotient gets for its remainder** does not make it reach the ceiling:
in units of that digit the ceiling is a multiple of five. -/
theorem ceiling_le_sticky_iff {n d : ℕ} (hq : 10 ^ ctx.precision ≤ n / d) (e : ℤ) :
    ctx.ceiling ≤ sticky (n / d) * 10 ^ e ↔ ctx.ceiling ≤ (n / d : ℚ) * 10 ^ e := by
  have hunit := ten_zpow_pos e
  have hfloor : ((n / d : ℕ) : ℚ) ≤ n / d := Nat.cast_div_le
  rcases le_or_gt e (maxExponent - ctx.precision) with he | he
  · obtain ⟨k, hk⟩ := ctx.exists_ceiling_eq he
    rw [hk, mul_le_mul_iff_of_pos_right hunit, mul_le_mul_iff_of_pos_right hunit, Nat.cast_le]
    have hwhole : ((5 * k : ℕ) : ℚ) ≤ n / d ↔ 5 * k ≤ n / d := by
      rw [← Nat.floor_div_eq_div (K := ℚ), Nat.le_floor_iff (by positivity)]
    rw [hwhole, sticky]
    split <;> omega
  · -- so many digits in front of the last one put the quotient out of range
    have hpow : ((10 ^ ctx.precision : ℕ) : ℚ) ≤ (n / d : ℕ) := by exact_mod_cast hq
    have htop : ctx.topUnit ≤ 10 ^ e := zpow_le_zpow_right₀ (by norm_num) (by omega)
    have hreach : ∀ x : ℚ, ((n / d : ℕ) : ℚ) ≤ x → ctx.ceiling ≤ x * 10 ^ e := by
      intro x hx
      refine ctx.ceiling_lt_zpow.le.trans ?_
      rw [← ctx.pow_mul_topUnit]
      push_cast at hpow
      have hx := hpow.trans hx
      exact mul_le_mul hx htop ctx.topUnit_pos.le ((by positivity : (0 : ℚ) ≤ _).trans hx)
    refine iff_of_true (hreach _ ?_) (hreach _ hfloor)
    rw [sticky]
    split
    · push_cast
      linarith
    · exact le_rfl

/-- A quotient in units of the last digit that it is carried to. -/
theorem abs_quotient_eq (a b : Decimal) (up down : ℕ) :
    |a.toRat / b.toRat| = (a.coefficient * 10 ^ up : ℕ) / (b.coefficient * 10 ^ down : ℕ) *
      10 ^ (a.exponent - b.exponent - (up - down)) := by
  have := ten_zpow_pos b.exponent
  rw [abs_div, abs_toRat, abs_toRat, size, size, zpow_sub₀ (by norm_num), zpow_sub₀ (by norm_num),
    zpow_sub₀ (by norm_num), zpow_natCast, zpow_natCast]
  push_cast
  field_simp

/-- A quotient that is carried far enough has more digits than the precision. -/
theorem pow_le_quotient {a b up down n : ℕ} (ha : a ≠ 0) (hb : b ≠ 0)
    (h : n + digitCount b + down + 1 = digitCount a + up) :
    10 ^ n ≤ a * 10 ^ up / (b * 10 ^ down) := by
  have hcount : 0 < digitCount a := Nat.length_toDigits_pos
  rw [Nat.le_div_iff_mul_le (Nat.mul_pos (Nat.pos_of_ne_zero hb) (by positivity))]
  calc 10 ^ n * (b * 10 ^ down)
      ≤ 10 ^ n * (10 ^ digitCount b * 10 ^ down) := by
        gcongr
        exact (lt_pow_digitCount b).le
    _ = 10 ^ (digitCount a - 1) * 10 ^ up := by
        rw [← pow_add, ← pow_add, ← pow_add]
        congr 1
        omega
    _ ≤ a * 10 ^ up := by
        gcongr
        exact pow_digitCount_le ha

/-- **A quotient** overflows just when it reaches the ceiling. -/
theorem finishes_div (hp : 0 < ctx.precision) {a b : Decimal} (hb : b.coefficient ≠ 0) :
    ctx.Finishes (a.toRat / b.toRat) (ctx.div a b) := by
  unfold div
  dsimp only
  rw [if_neg (Bool.not_eq_true _ ▸ isZero_false_iff.mpr hb)]
  split
  · rename_i ha
    have hzero : a.toRat / b.toRat = 0 := by
      rw [toRat_eq_zero_iff.mpr (isZero_iff.mp ha), zero_div]
    refine (finishes_finish hp _).congr ?_
    rw [hzero, toRat_eq_zero_iff.mpr rfl]
  rename_i ha
  have ha : a.coefficient ≠ 0 := isZero_false_iff.mp (Bool.not_eq_true _ ▸ ha)
  obtain ⟨shift, hshift⟩ : ∃ shift : ℤ,
      (digitCount b.coefficient - digitCount a.coefficient + ctx.precision + 1 : ℤ) = shift :=
    ⟨_, rfl⟩
  obtain ⟨up, hup⟩ : ∃ up, shift.toNat = up := ⟨_, rfl⟩
  obtain ⟨down, hdown⟩ : ∃ down, (-shift).toNat = down := ⟨_, rfl⟩
  have hvalue := abs_quotient_eq a b up down
  rw [show (up : ℤ) - down = shift by omega] at hvalue
  rw [hshift, powerOfTen_eq, powerOfTen_eq, hup, hdown]
  split
  · rename_i hexact
    have hpos : 0 < b.coefficient * 10 ^ down :=
      Nat.mul_pos (Nat.pos_of_ne_zero hb) (by positivity)
    refine (finishes_finish hp _).congr ?_
    rw [hvalue, abs_toRat, size, stripZeros_value, Nat.cast_div (Nat.dvd_of_mod_eq_zero hexact)]
    exact_mod_cast hpos.ne'
  · have hdigits : 10 ^ ctx.precision ≤ a.coefficient * 10 ^ up / (b.coefficient * 10 ^ down) :=
      pow_le_quotient ha hb (by omega)
    refine (finishes_finish hp _).congr ?_
    rw [hvalue, abs_toRat, ← ceiling_le_sticky_iff hdigits]
    rfl

end Context

/-! ## 6. Factors that can be shown -/

open Context

/-- **A factor can be shown** unless it has more than twenty-five digits before the point when it is
rounded to three behind it. -/
theorem compactFactor_eq_error_iff {d : Decimal} {f : Fault} :
    compactFactor d = .error f ↔ f = .invalidOperation ∧ (10 ^ 25 - 1 / 2000 : ℚ) ≤ |d.toRat| := by
  have hprec : standard.precision = 28 := rfl
  have hnonneg : (0 : ℚ) ≤ d.size / 10 ^ (-3 : ℤ) := div_nonneg d.size_nonneg (ten_zpow_pos _).le
  have hunits : d.size / 10 ^ (-3 : ℤ) = |d.toRat| * 1000 := by
    rw [abs_toRat, zpow_neg, div_inv_eq_mul]
    norm_num
  have hiff : 10 ^ standard.precision ≤ nearest .away (d.size / 10 ^ (-3 : ℤ)) ↔
      (10 ^ 25 - 1 / 2000 : ℚ) ≤ |d.toRat| := by
    rw [nearest_away hnonneg, Nat.le_floor_iff (by positivity), hunits, hprec]
    push_cast
    constructor <;> intro h <;> linarith
  rw [← hiff]
  unfold compactFactor
  rcases le_or_gt (10 ^ standard.precision) (nearest .away (d.size / 10 ^ (-3 : ℤ))) with hle | hlt
  · rw [quantize_of_le (by decide) hle, Except.map, Except.error.injEq, eq_comm]
    exact (and_iff_left hle).symm
  · rw [quantize_of_lt (by decide) (by decide) hlt]
    exact iff_of_false (fun he => nomatch he) fun he => not_le.mpr hlt he.2

end ModelScale
