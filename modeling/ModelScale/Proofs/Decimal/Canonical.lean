import ModelScale.Proofs.Decimal.Written

/-
# The short form is canonical

A number has many decimals: the sign of zero, the zeros at the end and the exponent are free.  Its
short form is one text.  That the text has no superfluous digit does not make it unique by itself;
that comes from the digits.  Two short forms of one number have fractions of one length, since the
last digit of a fraction is not zero (`ShortForm.length_le`); then both parts denote the same, and
digits without padding are the digits of the number that they denote.  Main statement:

* `compact_canonical`: the short form is read back as the number, two numbers have one short form
  just when they are equal, and every short form is `Canonical`.
-/

namespace ModelScale.Decimal

open Text Numeral

/-! ## 1. Two short forms of one number -/

/-- Runs of digits of one length denote different numbers. -/
theorem eq_of_digitsValue_eq {s t : Text} (hs : ∀ c ∈ s, c.isDigit = true)
    (ht : ∀ c ∈ t, c.isDigit = true) (hlen : s.length = t.length)
    (hv : digitsValue s = digitsValue t) : s = t := by
  -- a one in front keeps the zeros at the start
  have hone : ∀ u : Text, (∀ c ∈ u, c.isDigit = true) →
      digits (10 ^ u.length + digitsValue u) = '1' :: u := by
    intro u hu
    have hvalue : digitsValue (['1'] ++ u) = 10 ^ u.length + digitsValue u := by
      rw [digitsValue_append, show digitsValue ['1'] = 1 by decide, Nat.one_mul]
    rw [← hvalue]
    refine digits_digitsValue ?_ (by simp) fun h => absurd (Option.some.inj h) (by decide)
    intro c hc
    rcases List.mem_cons.mp hc with rfl | hc
    · decide
    · exact hu c hc
  have h := hone s hs
  rw [hlen, hv, hone t ht] at h
  exact (List.cons.inj h).2.symm

namespace ShortForm

variable {whole whole' fraction fraction' : Text}

/-- A fraction is no longer than that of another short form of the number. -/
theorem length_le (h : ShortForm whole fraction)
    (hv : digitsValue (whole ++ fraction) * 10 ^ fraction'.length =
      digitsValue (whole' ++ fraction') * 10 ^ fraction.length) :
    fraction.length ≤ fraction'.length := by
  by_contra hlt
  obtain ⟨s, c, rfl⟩ : ∃ s c, fraction = s ++ [c] := by
    rcases List.eq_nil_or_concat fraction with rfl | ⟨s, c, hs⟩
    · exact absurd (Nat.zero_le _) hlt
    · exact ⟨s, c, by rw [hs, List.concat_eq_append]⟩
  have hc := h.digitValue_last_ne_zero rfl
  have hten := digitValue_lt c
  rw [List.length_append, List.length_singleton] at hlt hv
  obtain ⟨k, hk⟩ : ∃ k, s.length + 1 = k + 1 + fraction'.length :=
    ⟨s.length - fraction'.length, by omega⟩
  -- the digits would be a multiple of ten, and the last of them is not zero
  rw [hk, pow_add, ← mul_assoc] at hv
  have hlast := Nat.eq_of_mul_eq_mul_right (by positivity) hv
  rw [← List.append_assoc, digitsValue_concat, pow_succ, ← mul_assoc] at hlast
  omega

/-- **A number has one short form**, signs aside. -/
theorem unique (h : ShortForm whole fraction) (h' : ShortForm whole' fraction')
    (hv : digitsValue (whole ++ fraction) * 10 ^ fraction'.length =
      digitsValue (whole' ++ fraction') * 10 ^ fraction.length) :
    whole = whole' ∧ fraction = fraction' := by
  have hlen : fraction.length = fraction'.length :=
    le_antisymm (h.length_le hv) (h'.length_le hv.symm)
  have hpos : 0 < 10 ^ fraction.length := by positivity
  rw [← hlen] at hv
  have hvalue := Nat.eq_of_mul_eq_mul_right hpos hv
  rw [digitsValue_append, digitsValue_append, ← hlen] at hvalue
  have hlt := digitsValue_lt fraction
  have hlt' := digitsValue_lt fraction'
  rw [← hlen] at hlt'
  -- what stands before the point is a quotient
  have hquotient : ∀ a b, b < 10 ^ fraction.length →
      (a * 10 ^ fraction.length + b) / 10 ^ fraction.length = a := by
    intro a b hb
    rw [Nat.mul_comm, Nat.mul_add_div hpos, Nat.div_eq_of_lt hb, Nat.add_zero]
  have hwhole : digitsValue whole = digitsValue whole' := by
    rw [← hquotient (digitsValue whole) _ hlt, hvalue, hquotient _ _ hlt']
  have hfraction : digitsValue fraction = digitsValue fraction' := by
    rw [hwhole] at hvalue
    exact Nat.add_left_cancel hvalue
  refine ⟨?_, eq_of_digitsValue_eq h.fraction_ascii h'.fraction_ascii hlen hfraction⟩
  rw [← digits_digitsValue h.whole_ascii h.whole_ne_nil h.unpadded, hwhole,
    digits_digitsValue h'.whole_ascii h'.whole_ne_nil h'.unpadded]

end ShortForm

/-! ## 2. The form of the text -/

/-- **A canonical text**: a sign if there is one, digits, and a point with more digits if there are
any.  No zero stands before other digits in front of the point or comes last behind it, and zero
has no sign. -/
def Canonical (t : Text) : Prop :=
  ∃ negative whole fraction, ShortForm whole fraction ∧
    (negative = true → ¬ (whole = ['0'] ∧ fraction = [])) ∧
    t = fixedPoint negative whole fraction

theorem canonical_compact (d : Decimal) : Canonical (compact d) := by
  obtain ⟨negative, whole, g, hshort, -, hsign, ht, -⟩ := exists_shortForm d
  refine ⟨negative, whole, g, hshort, ?_, ht⟩
  rintro hn ⟨rfl, rfl⟩
  exact hsign hn (by decide)

/-- A text in fixed point was put together from one sign and one run of digits on either side of the
point. -/
theorem fixedPoint_inj {negative negative' : Bool} {whole whole' fraction fraction' : Text}
    (h : ShortForm whole fraction) (h' : ShortForm whole' fraction')
    (he : fixedPoint negative whole fraction = fixedPoint negative' whole' fraction') :
    negative = negative' ∧ whole = whole' ∧ fraction = fraction' := by
  have hparse : Numeral.parse? (fixedPoint negative whole fraction) =
      some ⟨negative, whole, fraction, 0⟩ :=
    parse?_fixedPoint h.whole_digits h.fraction_digits h.whole_ne_nil
  rw [he, parse?_fixedPoint h'.whole_digits h'.fraction_digits h'.whole_ne_nil] at hparse
  obtain ⟨rfl, rfl, rfl, -⟩ := Numeral.mk.inj (Option.some.inj hparse)
  exact ⟨rfl, rfl, rfl⟩

/-- **Equal numbers are written alike, and others are not.** -/
theorem compact_eq_iff {d e : Decimal} : compact d = compact e ↔ d.toRat = e.toRat := by
  obtain ⟨negative, whole, g, hd, -, hsign, ht, hvalue⟩ := exists_shortForm d
  obtain ⟨negative', whole', g', he, -, hsign', ht', hvalue'⟩ := exists_shortForm e
  rw [ht, ht', ← hvalue, ← hvalue']
  constructor
  · intro h
    obtain ⟨rfl, rfl, rfl⟩ := fixedPoint_inj hd he h
    rfl
  · intro h
    have hsize := size_eq_of_toRat_eq h
    simp only [size, zpow_neg, zpow_natCast] at hsize
    field_simp at hsize
    rw [mul_comm (10 ^ g.length : ℚ)] at hsize
    obtain ⟨rfl, rfl⟩ := hd.unique he (by exact_mod_cast hsize)
    -- only a zero could have either sign, and none has one
    by_cases hz : digitsValue (whole ++ g) = 0
    · have hn : negative = false := Bool.eq_false_iff.mpr fun hn => hsign hn hz
      have hn' : negative' = false := Bool.eq_false_iff.mpr fun hn => hsign' hn hz
      rw [hn, hn']
    · obtain rfl : negative = negative' := negative_eq_of_toRat_eq h hz
      rfl

/-- **The short form of a number is canonical.**  It is read back as the number if that has an
exponent within reach, as every number has that was read; equal numbers have one short form, and
different ones have two; and its text has the canonical form. -/
theorem compact_canonical :
    (∀ d : Decimal, d.inReach = true → ∃ e, read (compact d) = .ok e ∧ e.sameValue d = true) ∧
      (∀ d e : Decimal, compact d = compact e ↔ d.sameValue e = true) ∧
      ∀ d : Decimal, Canonical (compact d) := by
  refine ⟨?_, fun d e => compact_eq_iff.trans sameValue_iff.symm, canonical_compact⟩
  intro d hd
  obtain ⟨e, he, hv⟩ := read_compact hd
  exact ⟨e, he, sameValue_iff.mpr hv⟩

/-- A negative number with a zero at the end of its fraction. -/
theorem compact_canonical_trailing_zero :
    (⟨true, 1250, -3⟩ : Decimal).inReach = true ∧ compact ⟨true, 1250, -3⟩ = "-1.25".toList ∧
      ∃ e, read "-1.25".toList = .ok e ∧ e.sameValue ⟨true, 1250, -3⟩ = true := by
  have hreach : (⟨true, 1250, -3⟩ : Decimal).inReach = true := by decide +kernel
  have htext : compact ⟨true, 1250, -3⟩ = "-1.25".toList := by decide +kernel
  obtain ⟨e, he, hv⟩ := compact_canonical.1 _ hreach
  exact ⟨hreach, htext, e, htext ▸ he, hv⟩

end ModelScale.Decimal
