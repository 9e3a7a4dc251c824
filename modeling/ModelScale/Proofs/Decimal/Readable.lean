import ModelScale.Proofs.Decimal.ThereAndBack

/-
# Scaled literals can be read

What comes of scaling a literal is a literal again: it is read as the number that was printed
(`scaleLiteral_denotes`), also where the unit in the last of its places underflowed and zeros
were printed behind the last digit.
-/

namespace ModelScale

open Decimal Context Numeral Text

/-! ## 1. The number of a text -/

/-- The text is read, and as this number. -/
def Denotes (t : Text) (x : ℚ) : Prop := ∃ d, Decimal.read t = .ok d ∧ d.toRat = x

/-- The text is read as some number. -/
def Readable (t : Text) : Prop := ∃ d, Decimal.read t = .ok d

theorem Denotes.readable {t : Text} {x : ℚ} (h : Denotes t x) : Readable t := by
  obtain ⟨d, hd, -⟩ := h
  exact ⟨d, hd⟩

/-- Blanks around a text do not count. -/
theorem read_trim_eq_ok {t : Text} {d : Decimal} :
    Decimal.read (trim t) = .ok d ↔ Decimal.read t = .ok d := by
  rw [read_eq_ok_iff, read_eq_ok_iff, trim_trim]

theorem denotes_trim {t : Text} {x : ℚ} : Denotes (trim t) x ↔ Denotes t x := by
  simp only [Denotes, read_trim_eq_ok]

theorem readable_trim {t : Text} : Readable (trim t) ↔ Readable t := by
  simp only [Readable, read_trim_eq_ok]

/-! ## 2. Units -/

/-- A unit in which results are printed: it has no more places than there are, and is not out of
reach. -/
theorem quantumExponent_eq_ok {places e : ℤ} (h : quantumExponent places = .ok e) :
    -places ≤ e ∧ e ≤ maxExponent ∧ standard.tiniest ≤ e ∧ leastExponent ≤ -places := by
  have hmax : maxExponent = 999999 := rfl
  have hprec : standard.precision = 28 := rfl
  have htiny : standard.tiniest = -1000026 := rfl
  have hleast : leastExponent = -1999999999999999997 := rfl
  unfold quantumExponent at h
  split at h
  · cases h
  · split at h
    · cases h
    · obtain rfl := Except.ok.inj h
      omega

/-- **What is printed in such a unit is read as the number that it is.** -/
theorem denotes_toPlaces {d f r : Decimal} {places : ℕ} {e : ℤ}
    (he : quantumExponent places = .ok e) (h : scaleDecimal d f e = .ok r) :
    Denotes (r.toPlaces places) r.toRat := by
  obtain ⟨hunit, hdigits⟩ := scaleDecimal_shape h
  obtain ⟨hplaces, hhigh, hlow, hleast⟩ := quantumExponent_eq_ok he
  have hmax : maxExponent = 999999 := rfl
  have htiny : standard.tiniest = -1000026 := rfl
  have hreach : r.inReach = true := by
    unfold inReach adjusted greatestAdjusted leastExponent
    rw [Bool.and_eq_true, decide_eq_true_eq, decide_eq_true_eq]
    omega
  have hle : -(places : ℤ) ≤ r.exponent := hunit ▸ hplaces
  exact ⟨_, read_toPlaces_of_le hle hleast hreach, toRat_congr rfl (size_extended hle)⟩

/-! ## 3. Literals -/

/-- The blank in the column of a sign is not read. -/
theorem denotes_column {t : Text} {x : ℚ} (h : Denotes t x) (ht : isNumeral t = true) (b : Bool) :
    Denotes (if b then ' ' :: t else t) x := by
  cases b with
  | false => exact h
  | true => rwa [if_pos rfl, ← denotes_trim, trim_space_of_isNumeral ht]

/-- **A scaled literal denotes the scaled number.** -/
theorem scaleLiteral_denotes {written t : Text} {factor : Quantity} {places? : Option ℤ}
    (h : scaleLiteral written factor places? = .ok t) :
    ∃ (places : ℕ) (e : ℤ) (d f r : Decimal), targetPlaces (trim written) places? = .ok places ∧
      quantumExponent places = .ok e ∧ Decimal.read (trim written) = .ok d ∧
      factor.value = .ok f ∧ scaleDecimal d f e = .ok r ∧ Denotes t r.toRat := by
  obtain ⟨places, e, d, f, r, hplaces, he, hd, hf, hr, rfl⟩ := scaleLiteral_eq_ok_iff.mp h
  exact ⟨places, e, d, f, r, hplaces, he, hd, hf, hr,
    denotes_column (denotes_toPlaces he hr) (isNumeral_toPlaces r places) _⟩

/-- A number that can be scaled can be scaled in writing. -/
theorem exists_scaleLiteral {written : Text} {factor : Quantity} {places? : Option ℤ} {places : ℕ}
    {e : ℤ} {d f r : Decimal} (hplaces : targetPlaces (trim written) places? = .ok places)
    (he : quantumExponent places = .ok e) (hd : Decimal.read (trim written) = .ok d)
    (hf : factor.value = .ok f) (hr : scaleDecimal d f e = .ok r) :
    ∃ t, scaleLiteral written factor places? = .ok t ∧ Denotes t r.toRat :=
  ⟨_, scaleLiteral_eq_ok_iff.mpr ⟨places, e, d, f, r, hplaces, he, hd, hf, hr, rfl⟩,
    denotes_column (denotes_toPlaces he hr) (isNumeral_toPlaces r places) _⟩

end ModelScale
