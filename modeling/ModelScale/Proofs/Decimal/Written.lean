import ModelScale.Literal
import ModelScale.Proofs.Decimal.Numeral
import ModelScale.Proofs.Decimal.Value
import ModelScale.Proofs.Outcome

/-
# What is written can be read

The library writes numbers in fixed point only, so each of its texts is a numeral, and a word.
Main statements:

* `isNumeral_toPlaces`: a decimal with a given number of fractional digits is a numeral;
* `scaleLiteral_eq_ok`, `isNumeral_normalizeLiteral`: so are scaled and normalized literals, but
  for a blank that stands in the column of a sign;
* `exists_shortForm`: the short form of a number has its value and no superfluous digit;
* `exists_compact`: the short form of a number has a fraction just when the number is not whole;
* `read_compact`: the short form of a number is read back as that number.
-/

namespace ModelScale

open Text

namespace Decimal

open Numeral

/-! ## 1. Digits -/

theorem digits_digits (n : Nat) : Digits (digits n) :=
  digits_of_ascii fun _ hc => Nat.isDigit_of_mem_toDigits (by decide) (by decide) hc

theorem digits_ne_nil (n : Nat) : digits n ≠ [] :=
  Nat.toDigits_ne_nil

/-- The digits of a number denote it. -/
theorem digitsValue_digits (n : Nat) : digitsValue (digits n) = n := by
  have h : ∀ c ∈ digits n, c.isDigit = true := by
    intro _ hc
    exact Nat.isDigit_of_mem_toDigits (by decide) (by decide) hc
  rw [digitsValue_eq_ofDigitChars h]
  exact Nat.ofDigitChars_ten_toDigits

/-- No zero comes first among the digits, but for the one of zero itself. -/
def Unpadded (t : Text) : Prop := t.head? = some '0' → t = ['0']

theorem unpadded_append {s t : Text} (hs : Unpadded s) (hz : s ≠ ['0']) (hne : s ≠ []) :
    Unpadded (s ++ t) := by
  intro h
  rw [List.head?_append_of_ne_nil s hne] at h
  exact absurd (hs h) hz

theorem unpadded_digits (n : Nat) : Unpadded (digits n) := by
  induction n using Nat.strongRecOn with
  | ind n ih =>
    unfold digits at ih ⊢
    rcases Nat.lt_or_ge n 10 with h | h
    · rw [Nat.toDigits_of_lt_base h]
      intro hd
      rw [Option.some.inj hd]
    · rw [Nat.toDigits_of_base_le (by decide) h]
      refine unpadded_append (ih (n / 10) (by omega)) ?_ Nat.toDigits_ne_nil
      intro e
      have hzero := digitsValue_digits (n / 10)
      rw [digits, e, show digitsValue ['0'] = 0 by decide] at hzero
      omega

theorem digits_ne_zero {n : Nat} (h : n ≠ 0) : digits n ≠ ['0'] := by
  intro e
  have hzero := digitsValue_digits n
  rw [e, show digitsValue ['0'] = 0 by decide] at hzero
  exact h hzero.symm

theorem digitValue_lt (c : Char) : digitValue c < 10 := by
  rw [digitValue]
  cases hv : digitValue? c with
  | none => decide
  | some v => exact digitValue?_lt hv

theorem digitsValue_concat (t : Text) (c : Char) :
    digitsValue (t ++ [c]) = 10 * digitsValue t + digitValue c := by
  rw [digitsValue, List.foldl_append]
  rfl

theorem digitsValue_append (s t : Text) :
    digitsValue (s ++ t) = digitsValue s * 10 ^ t.length + digitsValue t := by
  induction t using List.reverseRecOn with
  | nil => simp [digitsValue]
  | append_singleton t c ih =>
    rw [← List.append_assoc, digitsValue_concat, digitsValue_concat, ih, List.length_append,
      List.length_singleton, pow_succ]
    ring

theorem digitsValue_lt (t : Text) : digitsValue t < 10 ^ t.length := by
  induction t using List.reverseRecOn with
  | nil => decide
  | append_singleton t c ih =>
    have hc := digitValue_lt c
    rw [digitsValue_concat, List.length_append, List.length_singleton, pow_succ]
    omega

/-- A digit is the digit of its value. -/
theorem digits_digitValue {c : Char} (h : c.isDigit = true) : digits (digitValue c) = [c] := by
  obtain ⟨h1, h2⟩ := toNat_of_ascii h
  have hlt : c.toNat - 0x30 < 10 := by omega
  rw [digitValue, isDigit_of_ascii h, Option.getD_some, digits, Nat.toDigits_of_lt_base hlt]
  refine congrArg (fun c => [c]) (Char.toNat_inj.mp ?_)
  rw [Nat.toNat_digitChar_of_lt_ten hlt]
  omega

/-- **Digits without padding are the digits of the number that they denote.** -/
theorem digits_digitsValue {t : Text} (h : ∀ c ∈ t, c.isDigit = true) (hne : t ≠ [])
    (hu : Unpadded t) : digits (digitsValue t) = t := by
  induction t using List.reverseRecOn with
  | nil => exact absurd rfl hne
  | append_singleton s c ih =>
    have hc : c.isDigit = true := h c (by simp)
    rw [digitsValue_concat]
    by_cases hs : s = []
    · rw [hs, show digitsValue [] = 0 from rfl, Nat.mul_zero, Nat.zero_add]
      exact digits_digitValue hc
    · have hlead : s.head? ≠ some '0' := by
        intro hd
        have := congrArg List.length (hu (by rw [List.head?_append_of_ne_nil s hs, hd]))
        rw [List.length_append, List.length_singleton, List.length_singleton] at this
        exact hs (List.length_eq_zero_iff.mp (by omega))
      have ih := ih (fun c hc => h c (List.mem_append_left _ hc)) hs fun hd => absurd hd hlead
      have hpos : 0 < digitsValue s := by
        rw [Nat.pos_iff_ne_zero]
        intro hz
        rw [hz] at ih
        exact hlead (ih ▸ rfl)
      rw [digits, ← Nat.toDigits_append_toDigits (by decide) hpos (digitValue_lt c)]
      change digits (digitsValue s) ++ digits (digitValue c) = s ++ [c]
      rw [ih, digits_digitValue hc]

theorem digits_zeros (k : Nat) : Digits (List.replicate k '0') := by
  intro c hc
  obtain rfl := (List.mem_replicate.mp hc).2
  decide

theorem digitsValue_zeros (k : Nat) : digitsValue (List.replicate k '0') = 0 := by
  induction k with
  | zero => rfl
  | succ k ih =>
    rw [List.replicate_succ', digitsValue_concat, ih]
    decide

theorem digitsValue_append_zeros (t : Text) (k : Nat) :
    digitsValue (t ++ List.replicate k '0') = digitsValue t * 10 ^ k := by
  rw [digitsValue_append, digitsValue_zeros, List.length_replicate, Nat.add_zero]

theorem digitsValue_zeros_append (k : Nat) (t : Text) :
    digitsValue (List.replicate k '0' ++ t) = digitsValue t := by
  rw [digitsValue_append, digitsValue_zeros, Nat.zero_mul, Nat.zero_add]

/-! ## 2. A point among digits -/

/-- Digits with a point among them, in two parts. -/
theorem exists_pointed {ds : Text} (hd : Digits ds) (hne : ds ≠ []) (places : Nat) :
    ∃ whole fraction, Digits whole ∧ Digits fraction ∧ whole ≠ [] ∧ fraction.length = places ∧
      digitsValue (whole ++ fraction) = digitsValue ds ∧ (Unpadded ds → Unpadded whole) ∧
      pointed ds places = whole ++ if fraction = [] then [] else '.' :: fraction := by
  unfold pointed
  split
  · rename_i h
    exact ⟨ds, [], hd, digits_nil, hne, h.symm, by rw [List.append_nil], id, by simp⟩
  · rename_i h
    generalize hp : List.replicate (places + 1 - ds.length) '0' ++ ds = padded
    have hpd : Digits padded := hp ▸ digits_append.mpr ⟨digits_zeros _, hd⟩
    have hlen : places < padded.length := by
      rw [← hp, List.length_append, List.length_replicate]
      omega
    refine ⟨padded.take (padded.length - places), padded.drop (padded.length - places),
      fun c hc => hpd c (List.mem_of_mem_take hc), fun c hc => hpd c (List.mem_of_mem_drop hc),
      ?_, ?_, ?_, ?_, ?_⟩
    · intro e
      have := congrArg List.length e
      rw [List.length_take, List.length_nil] at this
      omega
    · rw [List.length_drop]
      omega
    · rw [List.take_append_drop, ← hp, digitsValue_zeros_append]
    · intro hds hhead
      -- with zeros in front there is one digit before the point, without them the first is the same
      rcases Nat.lt_or_ge places ds.length with hlong | hshort
      · have hpad : padded = ds := by
          rw [← hp, Nat.sub_eq_zero_of_le hlong, List.replicate_zero, List.nil_append]
        rw [hpad, List.head?_take, if_neg (by omega)] at hhead
        have hone := congrArg List.length (hds hhead)
        rw [List.length_singleton] at hone
        omega
      · have hone : padded.length - places = 1 := by
          rw [← hp, List.length_append, List.length_replicate]
          omega
        rw [hone] at hhead ⊢
        rw [List.head?_take, if_neg (by decide)] at hhead
        rw [List.take_one, hhead]
        rfl
    · have hf : padded.drop (padded.length - places) ≠ [] := by
        intro e
        have := congrArg List.length e
        rw [List.length_drop, List.length_nil] at this
        omega
      simp only [if_neg hf]

/-- **A decimal with a given number of fractional digits is a numeral.** -/
theorem isNumeral_toPlaces (d : Decimal) (places : Nat) : isNumeral (d.toPlaces places) = true := by
  have hds : ∀ ds : Text, Digits ds → ds ≠ [] →
      isNumeral (d.signText ++ pointed ds places) = true := by
    intro ds hd hne
    obtain ⟨whole, fraction, hw, hf, hwne, -, -, -, hp⟩ := exists_pointed hd hne places
    rw [hp, ← List.append_assoc]
    exact isNumeral_fixedPoint hw hf hwne
  unfold toPlaces
  split
  · exact hds _ (by simpa using (by decide : isDigit '0' = true)) (by simp)
  · exact hds _ (digits_append.mpr ⟨digits_digits _, digits_zeros _⟩) (by simp [digits_ne_nil])

/-- A decimal written in full is a numeral of the same value, with no fraction unless its exponent
is negative. -/
theorem exists_toPlain (d : Decimal) :
    ∃ whole fraction, Digits whole ∧ Digits fraction ∧ whole ≠ [] ∧
      Unpadded whole ∧ fraction.length = d.places ∧
      d.toPlain = fixedPoint d.negative whole fraction ∧
      (digitsValue (whole ++ fraction) : ℚ) = d.size * 10 ^ fraction.length := by
  unfold toPlain
  split
  · rename_i he
    have hplaces : d.places = 0 := by
      unfold places
      omega
    obtain ⟨k, hk⟩ := Int.eq_ofNat_of_zero_le he
    split
    · rename_i hz
      refine ⟨['0'], [], by simpa using (by decide : isDigit '0' = true), digits_nil, by simp,
        fun _ => rfl, hplaces.symm, by simp [fixedPoint, signText], ?_⟩
      rw [size_eq_zero_iff.mpr (isZero_iff.mp hz), zero_mul]
      exact_mod_cast (by decide : digitsValue (['0'] ++ []) = 0)
    · rename_i hz
      have hlead : Unpadded (digits d.coefficient ++ List.replicate d.exponent.toNat '0') :=
        unpadded_append (unpadded_digits _) (digits_ne_zero fun e => hz (isZero_iff.mpr e))
          (digits_ne_nil _)
      refine ⟨digits d.coefficient ++ List.replicate d.exponent.toNat '0', [],
        digits_append.mpr ⟨digits_digits _, digits_zeros _⟩, digits_nil, by simp [digits_ne_nil],
        hlead, hplaces.symm, by simp [fixedPoint, signText], ?_⟩
      rw [List.append_nil, digitsValue_append_zeros, digitsValue_digits, size, hk]
      simp
  · rename_i he
    obtain ⟨whole, fraction, hw, hf, hne, hl, hv, hlead, hp⟩ :=
      exists_pointed (digits_digits d.coefficient) (digits_ne_nil _) d.places
    refine ⟨whole, fraction, hw, hf, hne, hlead (unpadded_digits _), hl,
      by rw [hp, fixedPoint, signText, List.append_assoc], ?_⟩
    have hexp : d.exponent = -((d.places : Nat) : ℤ) := by
      unfold places
      omega
    rw [hv, digitsValue_digits, hl, size, hexp, zpow_neg, zpow_natCast, mul_assoc,
      inv_mul_cancel₀ (by positivity), mul_one]

/-! ## 3. The short form -/

/-- A fraction is one without trailing zeros, and zeros. -/
theorem exists_trailing_zeros (f : Text) :
    ∃ g k, f = g ++ List.replicate k '0' ∧ g.getLast? ≠ some '0' := by
  induction f using List.reverseRecOn with
  | nil => exact ⟨[], 0, rfl, by simp⟩
  | append_singleton f c ih =>
    by_cases hc : c = '0'
    · obtain ⟨g, k, rfl, hg⟩ := ih
      exact ⟨g, k + 1, by rw [hc, List.replicate_succ', List.append_assoc], hg⟩
    · exact ⟨f ++ [c], 0, by simp, by simpa using hc⟩

/-- The zeros at the end of a fraction go, and the point with them if nothing else is left. -/
theorem trimFraction_fixedPoint {negative : Bool} {whole g : Text} {k : Nat} (hw : Digits whole)
    (hg : Digits g) (hne : whole ≠ []) (hlast : g.getLast? ≠ some '0') :
    trimFraction (fixedPoint negative whole (g ++ List.replicate k '0')) =
      fixedPoint negative whole g := by
  have hdot : ∀ t, Digits t → '.' ∉ t := by
    intro t ht h
    exact absurd (ht _ h) (by decide)
  have hsign : '.' ∉ if negative then ['-'] else [] := by cases negative <;> simp
  have hbody : '.' ∉ (if negative then ['-'] else []) ++ whole := by
    intro h
    exact (List.mem_append.mp h).elim hsign (hdot whole hw)
  by_cases hf : g ++ List.replicate k '0' = []
  · obtain ⟨rfl, -⟩ := List.append_eq_nil_iff.mp hf
    rw [hf, trimFraction, if_neg]
    simpa [fixedPoint] using hbody
  · rw [trimFraction, fixedPoint, if_neg hf, if_pos (by simp)]
    have hzeros : ∀ r : Text, (List.replicate k '0' ++ r).dropWhile (· == '0') =
        r.dropWhile (· == '0') := by
      intro r
      exact List.dropWhile_append_of_pos fun c hc => by simp [(List.mem_replicate.mp hc).2]
    rcases List.eq_nil_or_concat g with rfl | ⟨s, c, rfl⟩
    · obtain ⟨v, d, rfl⟩ := (List.eq_nil_or_concat whole).resolve_left hne
      have hd : d ≠ '.' := by
        intro e
        exact hdot _ hw (by simp [e])
      simp only [List.nil_append, List.reverse_append, List.reverse_cons, List.reverse_replicate,
        List.append_assoc, hzeros]
      simp [fixedPoint, hd]
    · have hc0 : c ≠ '0' := by simpa using hlast
      have hcd : c ≠ '.' := by
        intro e
        exact hdot _ hg (by simp [e])
      simp only [List.reverse_append, List.reverse_cons, List.reverse_replicate, List.append_assoc,
        hzeros]
      simp [fixedPoint, hc0, hcd]

/-- Reading a numeral in fixed point that is not out of reach. -/
theorem read_fixedPoint {negative : Bool} {whole fraction : Text} (hw : Digits whole)
    (hf : Digits fraction) (hne : whole ≠ [])
    (hr : inReach ⟨negative, digitsValue (whole ++ fraction), -fraction.length⟩ = true) :
    read (fixedPoint negative whole fraction) =
      .ok ⟨negative, digitsValue (whole ++ fraction), -fraction.length⟩ := by
  have hn : isNumeral (fixedPoint negative whole fraction) = true :=
    isNumeral_fixedPoint hw hf hne
  have hu : (fixedPoint negative whole fraction).filter (· != '_') =
      fixedPoint negative whole fraction := by
    rw [List.filter_eq_self]
    intro c hc
    have := (numeralChars_of_isNumeral hn c hc).ne (d := '_') (by decide) (by decide)
    simpa using this
  refine read_eq_ok_iff.mpr ⟨⟨negative, whole, fraction, 0⟩, ?_, ?_, ?_⟩
  · rw [trim_of_isNumeral hn, hu, parse?_fixedPoint hw hf hne]
  · simpa [toDecimal] using hr
  · simp [toDecimal]

/-- A number that has the value of one in reach is in reach, unless it is written with a smaller
exponent. -/
theorem inReach_of_size_eq {a b : Decimal} (h : a.inReach = true) (hs : b.size = a.size)
    (hle : min a.exponent 0 ≤ b.exponent) (h0 : b.exponent ≤ 0) : b.inReach = true := by
  unfold inReach greatestAdjusted leastExponent at h ⊢
  simp only [Bool.and_eq_true, decide_eq_true_eq] at h ⊢
  refine ⟨?_, by omega⟩
  by_cases hz : b.coefficient = 0
  · have : digitCount b.coefficient = 1 := by rw [hz]; decide
    unfold adjusted
    omega
  · rw [adjusted_eq_of_size_eq hs hz]
    exact h.1

/-- A number written in full holds no digits but those from 0 to 9. -/
theorem isDigit_of_mem_toPlain {d : Decimal} {c : Char} (h : c ∈ d.toPlain)
    (hd : isDigit c = true) : c.isDigit = true := by
  have hdigits : ∀ n, c ∈ digits n → c.isDigit = true :=
    fun n hc => Nat.isDigit_of_mem_toDigits (by decide) (by decide) hc
  have hzeros : ∀ k, c ∈ List.replicate k '0' → c.isDigit = true := by
    intro k hc
    rw [(List.mem_replicate.mp hc).2]
    decide
  rcases List.mem_append.mp h with h | h
  · unfold signText at h
    split at h
    · rw [List.mem_singleton.mp h] at hd
      exact absurd hd (by decide)
    · cases h
  · split at h
    · split at h
      · exact hzeros 1 h
      · exact (List.mem_append.mp h).elim (hdigits _) (hzeros _)
    · unfold pointed at h
      split at h
      · exact hdigits _ h
      · have hpadded : ∀ k, c ∈ List.replicate k '0' ++ digits d.coefficient → c.isDigit = true :=
          fun k hc => (List.mem_append.mp hc).elim (hzeros _) (hdigits _)
        rcases List.mem_append.mp h with h | h
        · exact hpadded _ (List.mem_of_mem_take h)
        · rcases List.mem_cons.mp h with rfl | h
          · exact absurd hd (by decide)
          · exact hpadded _ (List.mem_of_mem_drop h)

/-- The digits of a number in its short form: before the point there is at least one, and no zero
comes first unless it is the only one; behind the point the last is not zero. -/
structure ShortForm (whole fraction : Text) : Prop where
  ascii : ∀ c ∈ whole ++ fraction, c.isDigit = true
  whole_ne_nil : whole ≠ []
  unpadded : Unpadded whole
  trimmed : fraction.getLast? ≠ some '0'

namespace ShortForm

variable {whole fraction : Text}

theorem whole_ascii (h : ShortForm whole fraction) : ∀ c ∈ whole, c.isDigit = true :=
  fun c hc => h.ascii c (List.mem_append_left _ hc)

theorem fraction_ascii (h : ShortForm whole fraction) : ∀ c ∈ fraction, c.isDigit = true :=
  fun c hc => h.ascii c (List.mem_append_right _ hc)

theorem whole_digits (h : ShortForm whole fraction) : Digits whole :=
  digits_of_ascii h.whole_ascii

theorem fraction_digits (h : ShortForm whole fraction) : Digits fraction :=
  digits_of_ascii h.fraction_ascii

/-- The last digit of the fraction has a value. -/
theorem digitValue_last_ne_zero (h : ShortForm whole fraction) {s : Text} {c : Char}
    (hs : fraction = s ++ [c]) : digitValue c ≠ 0 := by
  have hascii : c.isDigit = true := h.ascii c (by simp [hs])
  have hc0 : c ≠ '0' := by simpa [hs] using h.trimmed
  intro hz
  have hdigit := digits_digitValue hascii
  rw [hz] at hdigit
  exact hc0 (List.cons.inj hdigit).1.symm

/-- **Zero has one short form.** -/
theorem eq_zero (h : ShortForm whole fraction) (hz : digitsValue (whole ++ fraction) = 0) :
    whole = ['0'] ∧ fraction = [] := by
  have hnil : fraction = [] := by
    rcases List.eq_nil_or_concat fraction with hf | ⟨s, c, hf⟩
    · exact hf
    · rw [List.concat_eq_append] at hf
      have hc := h.digitValue_last_ne_zero hf
      rw [hf, ← List.append_assoc, digitsValue_concat] at hz
      omega
  rw [hnil, List.append_nil] at hz
  have hw := digits_digitsValue h.whole_ascii h.whole_ne_nil h.unpadded
  rw [hz] at hw
  exact ⟨hw.symm, hnil⟩

end ShortForm

/-- A number without the superfluous digits of its fraction is a numeral of the same value, in the
short form but for a sign in front of zero. -/
theorem exists_trimFraction (d : Decimal) :
    ∃ whole g, ShortForm whole g ∧ g.length ≤ d.places ∧
      trimFraction d.toPlain = fixedPoint d.negative whole g ∧
      size ⟨d.negative, digitsValue (whole ++ g), -g.length⟩ = d.size := by
  obtain ⟨whole, fraction, hw, hf, hne, hlead, hl, hp, hv⟩ := exists_toPlain d
  obtain ⟨g, k, rfl, hlast⟩ := exists_trailing_zeros fraction
  have hg : Digits g := (digits_append.mp hf).1
  have hlen : (g ++ List.replicate k '0').length = g.length + k := by simp
  have hascii : ∀ c ∈ whole ++ g, c.isDigit = true := by
    intro c hc
    have hdigit : isDigit c = true := (digits_append.mpr ⟨hw, hg⟩) c hc
    refine isDigit_of_mem_toPlain (d := d) ?_ hdigit
    rw [hp, fixedPoint]
    rcases List.mem_append.mp hc with hc | hc
    · simp [hc]
    · have hg : g ≠ [] := List.ne_nil_of_mem hc
      simp [hc, hg]
  refine ⟨whole, g, ⟨hascii, hne, hlead, hlast⟩, by omega, ?_, ?_⟩
  · rw [hp]
    exact trimFraction_fixedPoint hw hg hne hlast
  · rw [← List.append_assoc, digitsValue_append_zeros, hlen, pow_add] at hv
    push_cast at hv
    rw [size, zpow_neg, zpow_natCast]
    field_simp at hv ⊢
    exact hv

/-- A fraction that does not end in a zero keeps a number from being whole. -/
theorem eq_nil_of_size_eq_nat {whole g : Text} {negative : Bool} (hg : ShortForm whole g) {n : ℕ}
    (h : size ⟨negative, digitsValue (whole ++ g), -g.length⟩ = n) : g = [] := by
  rcases List.eq_nil_or_concat g with rfl | ⟨s, c, rfl⟩
  · rfl
  · rw [List.concat_eq_append] at hg h
    have hc := hg.digitValue_last_ne_zero rfl
    have hlt := digitValue_lt c
    rw [size, ← List.append_assoc, digitsValue_concat, List.length_append, List.length_singleton,
      zpow_neg, zpow_natCast] at h
    have hnat : 10 * digitsValue (whole ++ s) + digitValue c = n * 10 ^ (s.length + 1) := by
      rw [← div_eq_mul_inv, div_eq_iff (by positivity)] at h
      exact_mod_cast h
    rw [pow_succ, ← mul_assoc] at hnat
    omega

/-- **The short form of a number** has the number's value, and a sign only if that is not zero. -/
theorem exists_shortForm (d : Decimal) :
    ∃ negative whole g, ShortForm whole g ∧ g.length ≤ d.places ∧
      (negative = true → digitsValue (whole ++ g) ≠ 0) ∧
      compact d = fixedPoint negative whole g ∧
      toRat ⟨negative, digitsValue (whole ++ g), -g.length⟩ = d.toRat := by
  obtain ⟨whole, g, hshort, hl, ht, hsize⟩ := exists_trimFraction d
  have hnumeral : isNumeral (fixedPoint d.negative whole g) = true :=
    isNumeral_fixedPoint hshort.whole_digits hshort.fraction_digits hshort.whole_ne_nil
  have hparse : Numeral.parse? (fixedPoint d.negative whole g) = some ⟨d.negative, whole, g, 0⟩ :=
    parse?_fixedPoint hshort.whole_digits hshort.fraction_digits hshort.whole_ne_nil
  unfold compact
  dsimp only
  rw [ht]
  split
  · rename_i hcase
    -- a sign in front of a zero goes as well
    rw [Bool.or_eq_true, decide_eq_true_eq] at hcase
    rcases hcase with hcase | hcase
    · rw [hcase, show parse? ['-', '0'] = some ⟨true, ['0'], [], 0⟩ by decide] at hparse
      obtain ⟨-, rfl, rfl, -⟩ := Numeral.mk.inj (Option.some.inj hparse)
      have hvalue : digitsValue (['0'] ++ []) = 0 := by decide
      have hz : d.size = 0 := hsize ▸ size_eq_zero_iff.mpr hvalue
      refine ⟨false, ['0'], [], hshort, hl, by simp, rfl, ?_⟩
      rw [toRat_eq_zero_iff.mpr hvalue, toRat_eq_zero_iff.mpr (size_eq_zero_iff.mp hz)]
    · exact absurd (List.isEmpty_iff.mp hcase) (ne_nil_of_isNumeral hnumeral)
  · rename_i hcase
    refine ⟨d.negative, whole, g, hshort, hl, ?_, rfl, by rw [toRat, toRat, hsize]⟩
    intro hn hz
    obtain ⟨rfl, rfl⟩ := hshort.eq_zero hz
    rw [hn] at hcase
    exact hcase (by decide)

/-- **The short form of a number is in fixed point, with a fraction just when the number is not
whole.** -/
theorem exists_compact (d : Decimal) :
    ∃ negative whole g, Digits whole ∧ Digits g ∧ whole ≠ [] ∧
      compact d = fixedPoint negative whole g ∧ (g = [] ↔ ∃ n : ℤ, d.toRat = n) := by
  obtain ⟨negative, whole, g, hshort, -, -, ht, hvalue⟩ := exists_shortForm d
  refine ⟨negative, whole, g, hshort.whole_digits, hshort.fraction_digits, hshort.whole_ne_nil, ht,
    ?_⟩
  constructor
  · rintro rfl
    rw [← hvalue, toRat]
    split
    · exact ⟨-(digitsValue (whole ++ []) : ℤ), by simp [size]⟩
    · exact ⟨(digitsValue (whole ++ []) : ℤ), by simp [size]⟩
  · rintro ⟨n, hn⟩
    have habs : size ⟨negative, digitsValue (whole ++ g), -g.length⟩ = n.natAbs := by
      rw [← abs_toRat, hvalue, hn, Nat.cast_natAbs, Int.cast_abs]
    exact eq_nil_of_size_eq_nat hshort habs

/-- The short form of a number is a numeral. -/
theorem isNumeral_compact (d : Decimal) : isNumeral (compact d) = true := by
  obtain ⟨negative, whole, g, hw, hg, hne, h, -⟩ := exists_compact d
  rw [h]
  exact isNumeral_fixedPoint hw hg hne

/-- **The short form of a number is read back as that number.** -/
theorem read_compact {d : Decimal} (h : d.inReach = true) :
    ∃ e, read (compact d) = .ok e ∧ e.toRat = d.toRat := by
  obtain ⟨negative, whole, g, hshort, hl, -, ht, hvalue⟩ := exists_shortForm d
  have hle : min d.exponent 0 ≤ -(g.length : ℤ) := by
    unfold places at hl
    omega
  have hreach := inReach_of_size_eq h (size_eq_of_toRat_eq hvalue) hle (by simp)
  rw [ht, read_fixedPoint hshort.whole_digits hshort.fraction_digits hshort.whole_ne_nil hreach]
  exact ⟨_, rfl, hvalue⟩

end Decimal

/-! ## 4. Literals -/

open Decimal Numeral

/-- A scaled literal is a numeral, with a blank in front where a sign was. -/
theorem scaleLiteral_eq_ok {written t : Text} {factor : Quantity} {places? : Option Int}
    (h : scaleLiteral written factor places? = .ok t) :
    ∃ u, isNumeral u = true ∧ (t = u ∨ t = ' ' :: u) := by
  unfold scaleLiteral at h
  obtain ⟨places, -, h⟩ := bind_eq_ok.mp h
  obtain ⟨exponent, -, h⟩ := bind_eq_ok.mp h
  obtain ⟨d, -, h⟩ := bind_eq_ok.mp h
  obtain ⟨f, -, h⟩ := bind_eq_ok.mp h
  obtain ⟨scaled, -, h⟩ := bind_eq_ok.mp h
  dsimp only at h
  split at h
  · cases h
  · refine ⟨scaled.toPlaces places.toNat, isNumeral_toPlaces _ _, ?_⟩
    have h := pure_eq_ok.mp h
    split at h
    · exact Or.inr h.symm
    · exact Or.inl h.symm

/-- Trimmed, a scaled literal is a numeral. -/
theorem isNumeral_trim_scaleLiteral {written t : Text} {factor : Quantity} {places? : Option Int}
    (h : scaleLiteral written factor places? = .ok t) : isNumeral (trim t) = true := by
  obtain ⟨u, hu, rfl | rfl⟩ := scaleLiteral_eq_ok h
  · rwa [trim_of_isNumeral hu]
  · rwa [trim_space_of_isNumeral hu]

/-- A literal brought back to scale 1 is a numeral. -/
theorem isNumeral_normalizeLiteral {literal t : Text} {previous : Quantity} {least : Int}
    (h : normalizeLiteral literal previous least = .ok t) : isNumeral t = true := by
  unfold normalizeLiteral at h
  obtain ⟨p, -, h⟩ := bind_eq_ok.mp h
  obtain ⟨d, -, h⟩ := bind_eq_ok.mp h
  have hscaled : ∀ f : Decimal, trim <$> scaleLiteral (trim literal) f
      (some (max (d.places : ℤ) least)) = .ok t → isNumeral t = true := by
    intro f hf
    obtain ⟨u, hu, rfl⟩ := map_eq_ok.mp hf
    exact isNumeral_trim_scaleLiteral hu
  dsimp only at h
  split at h
  · exact hscaled _ h
  · obtain ⟨f, -, h⟩ := bind_eq_ok.mp h
    exact hscaled f h

end ModelScale
