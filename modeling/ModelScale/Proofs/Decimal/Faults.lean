import ModelScale.Proofs.Decimal.Overflow
import ModelScale.Proofs.Decimal.Readable

/-
# The faults of a calculation

A literal is refused where it is read or where there is no room for a result.  Once it is read, only
the second is left (`Fault.Arithmetic`), and what comes of it can be read again, so a run of
calculations never gets to a text that is no number.  Main statements:

* `read_of_isNumeral`: a numeral is read unless its exponent is out of reach;
* `scaleLiteral_fault`, `readable_of_scaleLiteral`: scaling a literal;
* `normalizeLiteral_fault`, `readable_of_normalizeLiteral`: bringing one to scale 1.
-/

namespace ModelScale

open Decimal Context Numeral Text

/-! ## 1. Reading -/

/-- **A numeral is read as it stands**, and refused only for an exponent that is out of reach. -/
theorem read_of_isNumeral {t : Text} (h : isNumeral t = true) :
    ∃ n, Numeral.parse? t = some n ∧
      Decimal.read t = if n.toDecimal.inReach then .ok n.toDecimal else .error (.notANumber t) := by
  obtain ⟨n, hn⟩ := Option.isSome_iff_exists.mp h
  refine ⟨n, hn, ?_⟩
  -- there are no blanks and no underscores to pass over
  have hplain : (trim t).filter (· != '_') = t := by
    rw [trim_of_isNumeral h, List.filter_eq_self]
    intro c hc
    have := (numeralChars_of_isNumeral h c hc).ne (d := '_') (by decide) (by decide)
    simpa using this
  rw [Decimal.read]
  simp only [hplain, hn]

/-! ## 2. Faults of the arithmetic -/

/-- A number was read, and there is no room for a result. -/
def Fault.Arithmetic (fault : Fault) : Prop := fault = .invalidOperation ∨ fault = .overflow

namespace Context

variable {ctx : Context} {fault : Fault}

theorem finish_fault (hp : 0 < ctx.precision) {d : Decimal} (h : ctx.finish d = .error fault) :
    fault = .overflow :=
  ((finishes_finish hp d).eq_error_iff.mp h).1

theorem quantize_fault {tie : Tie} {d : Decimal} {e : ℤ} (h : ctx.quantize tie d e = .error fault) :
    fault = .invalidOperation := by
  unfold quantize at h
  dsimp only at h
  split at h
  · cases h
  · split at h
    · exact (Except.error.inj h).symm
    · rw [shifted_eq_nearest] at h
      split at h
      · exact (Except.error.inj h).symm
      · cases h

end Context

theorem quantumExponent_fault {places : ℤ} {fault : Fault}
    (h : quantumExponent places = .error fault) : fault.Arithmetic := by
  unfold quantumExponent at h
  split at h
  · exact Or.inl (Except.error.inj h).symm
  · split at h
    · exact Or.inr (Except.error.inj h).symm
    · cases h

/-- **A product fails for its size**, at the first rounding or at the second. -/
theorem scaleDecimal_fault {d f : Decimal} {e : ℤ} {fault : Fault}
    (h : scaleDecimal d f e = .error fault) : fault.Arithmetic := by
  rw [scaleDecimal_eq] at h
  rcases bind_eq_error.mp h with h | ⟨a, -, h⟩
  · exact Or.inr (finish_fault (by decide) h)
  · cases hq : extended.quantize .away a e with
    | error f =>
      rw [hq] at h
      exact Or.inl (Except.error.inj h ▸ quantize_fault hq)
    | ok r => rw [hq] at h; cases h

/-- The reciprocal of a number other than zero fails for its size. -/
theorem inverse_fault {p : Decimal} (hz : p.toRat ≠ 0) {fault : Fault}
    (h : inverse p = .error fault) : fault = .overflow := by
  unfold inverse at h
  split at h
  · cases h
  · exact ((finishes_div (by decide) (toRat_eq_zero_iff.not.mp hz)).eq_error_iff.mp h).1

/-! ## 3. Literals -/

/-- **Scaling a literal that can be read fails by the arithmetic**, and in no other way. -/
theorem scaleLiteral_fault {written : Text} {factor : Quantity} {places? : Option ℤ} {f : Decimal}
    {fault : Fault} (hw : Readable written) (hf : factor.value = .ok f)
    (hp : ∀ places ∈ places?, 0 ≤ places)
    (h : scaleLiteral written factor places? = .error fault) : fault.Arithmetic := by
  obtain ⟨d, hd⟩ := readable_trim.mpr hw
  obtain ⟨places, htarget, hnonneg⟩ : ∃ places : ℤ,
      targetPlaces (trim written) places? = .ok places ∧ 0 ≤ places := by
    cases places? with
    | some places => exact ⟨places, rfl, hp places rfl⟩
    | none =>
      rw [targetPlaces, hd]
      exact ⟨d.places, rfl, Int.natCast_nonneg _⟩
  unfold scaleLiteral at h
  simp only [htarget, hd, hf, bind, Except.bind, not_lt.mpr hnonneg, if_false] at h
  cases he : quantumExponent places with
  | error g =>
    rw [he] at h
    exact Except.error.inj h ▸ quantumExponent_fault he
  | ok e =>
    rw [he] at h
    dsimp only at h
    cases hs : scaleDecimal d f e with
    | error g =>
      rw [hs] at h
      exact Except.error.inj h ▸ scaleDecimal_fault hs
    | ok r => rw [hs] at h; cases h

theorem readable_of_scaleLiteral {written t : Text} {factor : Quantity} {places? : Option ℤ}
    (h : scaleLiteral written factor places? = .ok t) : Readable t := by
  obtain ⟨_, _, _, _, _, -, -, -, -, -, ht⟩ := scaleLiteral_denotes h
  exact ht.readable

/-- **Bringing a literal that can be read to scale 1 fails by the arithmetic**, unless the previous
scale is zero. -/
theorem normalizeLiteral_fault {literal : Text} {previous : Quantity} {least : ℤ} {p : Decimal}
    {fault : Fault} (hl : Readable literal) (hp : previous.value = .ok p) (hz : p.toRat ≠ 0)
    (h : normalizeLiteral literal previous least = .error fault) : fault.Arithmetic := by
  obtain ⟨d, hd⟩ := readable_trim.mpr hl
  rw [normalizeLiteral_eq, hp, hd] at h
  change (inverse p).bind _ = _ at h
  rcases bind_eq_error.mp h with h | ⟨f, -, h⟩
  · exact Or.inr (inverse_fault hz h)
  · refine scaleLiteral_fault (readable_trim.mpr hl) rfl ?_ (map_eq_error.mp h)
    intro places hplaces
    rw [← Option.some.inj hplaces]
    exact (Int.natCast_nonneg _).trans (le_max_left _ _)

theorem readable_of_normalizeLiteral {literal t : Text} {previous : Quantity} {least : ℤ}
    (h : normalizeLiteral literal previous least = .ok t) : Readable t := by
  rw [normalizeLiteral_eq] at h
  obtain ⟨p, -, h⟩ := bind_eq_ok.mp h
  obtain ⟨d, -, h⟩ := bind_eq_ok.mp h
  obtain ⟨f, -, h⟩ := bind_eq_ok.mp h
  obtain ⟨u, hu, rfl⟩ := map_eq_ok.mp h
  exact readable_trim.mpr (readable_of_scaleLiteral hu)

end ModelScale
