import ModelScale.Proofs.Comment.Live
import ModelScale.Proofs.Vrd.Faults
import ModelScale.Qc.Rescale

/-
# The text of a script is never refused as a number

The readers of lines have one idea of a number and the decimals have another.  The first is within
the second, so a number that was found on a line is never refused when it is read, and neither is
one that was captured, stored or written.  What is left are the faults of the arithmetic.

There is one exception.  The index of an offset record is no decimal: it is recognised whatever its
length, and refused with more than 4300 digits, leading zeros included.  Main statements:

* `eyelidSplits_ok`, `scaleEyeballs_fault`: model scripts;
* `file_numbers_are_read`: everything together, with the exception
  (`file_numbers_are_read_overlong`).
-/

namespace ModelScale

open Text Baseline

/-! ## 1. Model scripts -/

/-- **The splits of eyelids are found**, and none of them is refused. -/
theorem eyelidSplits_ok {lines : List Text} (hr : WithinReach lines) :
    ∃ splits, Reference.eyelidSplits lines = .ok splits := by
  refine exists_filterM_eq_ok ?_
  rintro ⟨n, height⟩ hmem
  obtain ⟨line, hl, hheight⟩ := Comment.exists_of_mem_collectLive hmem
  obtain ⟨d, hd⟩ := readable_of_mem_numbersOn hr hl (List.mem_append_right _ hheight)
  dsimp only
  rw [hd]
  exact ⟨_, rfl⟩

theorem Eyeball.rescale_fault {e : Eyeball} {factor : Quantity} {f : Decimal} {places : ℤ}
    {fault : Fault} (he : ∀ t ∈ e.numbers, Readable t) (hf : factor.value = .ok f)
    (hp : 0 ≤ places) (h : e.rescale factor places = .error fault) : fault.Arithmetic := by
  have hscaled : ∀ {t : Text}, t ∈ e.numbers →
      trim <$> scaleLiteral t factor (some places) = .error fault → fault.Arithmetic := by
    intro t ht h
    refine scaleLiteral_fault (he t ht) hf ?_ (map_eq_error.mp h)
    intro n hn
    exact Option.some.inj hn ▸ hp
  rcases bind_eq_error.mp h with h | ⟨x, -, h⟩
  · exact hscaled (by simp [numbers, Triple.toList]) h
  rcases bind_eq_error.mp h with h | ⟨y, -, h⟩
  · exact hscaled (by simp [numbers, Triple.toList]) h
  rcases bind_eq_error.mp h with h | ⟨z, -, h⟩
  · exact hscaled (by simp [numbers, Triple.toList]) h
  rcases bind_eq_error.mp h with h | ⟨diameter, -, h⟩
  · exact hscaled (by simp [numbers]) h
  rcases bind_eq_error.mp h with h | ⟨pupil, -, h⟩
  · cases hpupil : e.pupil with
    | none =>
      rw [hpupil] at h
      exact absurd h pure_ne_error
    | some t =>
      rw [hpupil] at h
      exact hscaled (by simp [numbers, hpupil]) (map_eq_error.mp h)
  rcases bind_eq_error.mp h with h | ⟨irisScale, -, h⟩
  · exact hscaled (by simp [numbers]) h
  · exact absurd h pure_ne_error

/-- **Scaling eyeballs fails by the arithmetic**, and in no other way. -/
theorem scaleEyeballs_fault {settings : Settings} {lines : List Text} (hr : WithinReach lines)
    {factor : Quantity} {f : Decimal} (hf : factor.value = .ok f)
    (hp : 0 ≤ settings.eyeballPlaces) {fault : Fault}
    (h : scaleEyeballs settings lines factor = .error fault) : fault.Arithmetic := by
  rcases bind_eq_error.mp h with h | ⟨eyeballs, -, h⟩
  · obtain ⟨pre, line?, post, hlines, -, hline⟩ := mapM_eq_error.mp h
    unfold scaledEyeball at hline
    split at hline
    · cases hline
    · rename_i e he
      obtain ⟨line, rfl, hread⟩ := Option.bind_eq_some_iff.mp he
      have hl : line ∈ lines := Comment.mem_of_mem_liveLines (by rw [hlines]; simp)
      have hnumbers : ∀ t ∈ e.numbers, Readable t := fun t ht =>
        readable_of_mem_numbersOn hr hl (by simp [numbersOn, hread, ht])
      rcases bind_eq_error.mp hline with hline | ⟨after, -, hline⟩
      · exact e.rescale_fault hnumbers hf hp hline
      · exact absurd hline pure_ne_error
  · exact absurd h pure_ne_error

/-! ## 2. Everything together -/

/-- **The text of a script is never refused as a number.**  Every text of the pattern of a number is
one that the decimals parse.  Whatever a reader takes for a number has the pattern and is read, as
long as its exponent is within reach; so is whatever is stored, captured and written.  A rescale of
procedural bones from a previous scale other than zero succeeds or fails by the arithmetic or by a
marker block that does not fit, unless a record has an index with too many digits.  The splits of
eyelids are found, and scaling eyeballs fails by the arithmetic alone. -/
theorem file_numbers_are_read {settings : Settings} {lines : List Text} (hr : WithinReach lines)
    {new previous factor : Quantity} {n p f : Decimal} (hn : new.value = .ok n)
    (hp : previous.value = .ok p) (hz : p.isZero = false) (hf : factor.value = .ok f) :
    (∀ t, Numeral.Pattern t → ∃ n, Numeral.parse? t = some n ∧ Decimal.read t =
      if n.toDecimal.inReach then .ok n.toDecimal else .error (.notANumber t)) ∧
    (∀ line ∈ lines, ∀ t ∈ numbersOn line, Numeral.Pattern t ∧ Readable t) ∧
    (∀ fault, rescaleBones settings lines new previous = .error (.fault fault) →
      fault.Arithmetic ∨ fault.OfIndex lines) ∧
    (∀ b, stored settings lines = .ok (some b) → b.Readable) ∧
    (∀ b, capture settings lines previous = .ok b → b.Readable) ∧
    (∀ b r, writeBones lines b new = .ok r → List.Forall₂ Rewritten lines r.lines) ∧
    (∃ splits, Reference.eyelidSplits lines = .ok splits) ∧
    (0 ≤ settings.eyeballPlaces →
      ∀ fault, scaleEyeballs settings lines factor = .error fault → fault.Arithmetic) := by
  have hnonzero : p.toRat ≠ 0 := Decimal.toRat_eq_zero_iff.not.mpr (Decimal.isZero_false_iff.mp hz)
  refine ⟨?_, ?_, ?_, ?_, ?_, ?_, eyelidSplits_ok hr, ?_⟩
  · exact fun t ht => read_of_isNumeral (Numeral.isNumeral_iff_pattern.mpr ht)
  · intro line hl t ht
    exact ⟨Numeral.isNumeral_iff_pattern.mp (isNumeral_of_mem_numbersOn ht),
      readable_of_mem_numbersOn hr hl ht⟩
  · exact fun fault h => rescaleBones_fault hr hn hp hnonzero h
  · exact fun b h => readable_of_stored hr h
  · exact fun b h => readable_of_capture h
  · exact fun b r h => rewritten_of_writeBones h
  · exact fun hplaces fault h => scaleEyeballs_fault hr hf hplaces h

/-- Numbers in unusual forms: right behind a tag, without digits on one side of the point, with an
exponent, in digits of another script. -/
theorem file_numbers_are_read_unusual :
    let lines : List Text := ["<helper> h".toList, "<basepos>1. .5 -\u0663e2 // note".toList,
      "<trigger> 90 1E-2 +0 2.50".toList, "eyelid upper split .25 x".toList,
      "eyeball left head 1. .5 3e0 mat 1 7.5 0.5 iris 1".toList]
    WithinReach lines ∧ "-\u0663e2".toList ∈ lines.flatMap numbersOn ∧
      (∀ t ∈ lines.flatMap numbersOn, Readable t) ∧
      (∃ splits, Reference.eyelidSplits lines = .ok splits) ∧
      ∀ fault, scaleEyeballs {} lines (.written "-2".toList) = .error fault → fault.Arithmetic := by
  intro lines
  have hr : WithinReach lines := by decide +kernel
  have hn : Quantity.value (.written "2".toList) = .ok ⟨false, 2, 0⟩ := by decide +kernel
  have hp : Quantity.value (.written "0.5".toList) = .ok ⟨false, 5, -1⟩ := by decide +kernel
  have hf : Quantity.value (.written "-2".toList) = .ok ⟨true, 2, 0⟩ := by decide +kernel
  obtain ⟨-, hnumbers, -, -, -, -, hsplits, heyeballs⟩ :=
    @file_numbers_are_read {} lines hr _ _ _ _ _ _ hn hp rfl hf
  refine ⟨hr, by decide +kernel, fun t ht => ?_, hsplits, heyeballs (by decide)⟩
  obtain ⟨line, hl, ht⟩ := List.mem_flatMap.mp ht
  exact (hnumbers line hl t ht).2

/-- The numbers on an offset record whose index is a run of zeros are its coordinates. -/
theorem numbersOn_zeros {count : Nat} (hc : count ≠ 0) :
    numbersOn (commentOf [StoredOffset.tag, "h".toList, List.replicate count '0', ['0'], ['0'],
      ['0']]) = [['0'], ['0'], ['0']] := by
  generalize hline : commentOf [StoredOffset.tag, "h".toList, List.replicate count '0', ['0'],
    ['0'], ['0']] = line
  have hdigits : (List.replicate count '0').all isDigit = true :=
    List.all_eq_true.mpr fun c hc => List.eq_of_mem_replicate hc ▸ by decide
  have hwords := @commentWords?_offset "h".toList _ ⟨by decide, by decide⟩ hdigits
    (by simpa using hc)
  rw [hline] at hwords
  have hno : '>' ∉ line := by
    simp only [← hline, commentOf, join, List.mem_append, List.mem_replicate]
    simp
    decide
  have hrest : TripleLine.readRest? line = none := by
    refine Option.eq_none_iff_forall_not_mem.mpr fun l hl => hno ?_
    obtain ⟨hp, hm⟩ := TripleLine.readRest?_before hl
    exact hp.subset hm
  have hoffset : TripleLine.readOffset? line = none := by
    refine Option.eq_none_iff_forall_not_mem.mpr fun l hl => hno ?_
    obtain ⟨hp, hm⟩ := TripleLine.readOffset?_before hl
    exact hp.subset hm
  -- the other readers stop at the first characters of the line
  have heyeball : Eyeball.read? line = none := hline ▸ rfl
  have hsplit : Reference.eyelidSplit? line = none := hline ▸ rfl
  have hstored : StoredRest.read? line = none := by rw [StoredRest.read?, hwords]
  have hcoordinates : StoredOffset.coordinates? line = some ⟨['0'], ['0'], ['0']⟩ := by
    rw [StoredOffset.coordinates?, hwords]
    simp only [hdigits]
    rfl
  simp [numbersOn, triplesOn, hrest, hoffset, hstored, hcoordinates, heyeball, hsplit,
    Triple.toList]

/-- The record of an offset whose index is zero, in more digits than an integer may have.  Its
coordinates can be read and the rescale fails, and not by the arithmetic. -/
theorem file_numbers_are_read_overlong :
    let lines : List Text := ["// QCSCALE_NORMALIZATION_DATA".toList,
      commentOf [StoredOffset.tag, "h".toList, List.replicate 4301 '0', ['0'], ['0'], ['0']]]
    WithinReach lines ∧
      rescaleBones {} lines (.written "2".toList) (.written "1".toList) =
        .error (.fault (.tooManyDigits 4301)) ∧
      ¬ Fault.Arithmetic (.tooManyDigits 4301) ∧ Fault.kind (.tooManyDigits 4301) =
        "ValueError".toList := by
  intro lines
  have hread : StoredOffset.read? lines[1] = some (.error (.tooManyDigits 4301)) := by
    have hindex := @read?_of_digitLimit_lt "h".toList (List.replicate 4301 '0')
      ⟨by decide, by decide⟩
      (List.all_eq_true.mpr fun c hc => List.eq_of_mem_replicate hc ▸ by decide)
      (by rw [List.length_replicate]; decide)
    rwa [List.length_replicate] at hindex
  have hfault : stored {} lines = .error (.fault (.tooManyDigits 4301)) := by
    refine stored_eq_fault_iff.mpr ⟨rfl, [lines[0]], lines[1], [], rfl, hread, ?_⟩
    intro l hl f
    have hnone : StoredOffset.read? lines[0] = none := by decide +kernel
    rw [List.mem_singleton.mp hl, hnone]
    simp
  have hmarker : numbersOn lines[0] = [] := by decide +kernel
  have hrecord : numbersOn lines[1] = [['0'], ['0'], ['0']] := numbersOn_zeros (by decide)
  have hr : WithinReach lines := by
    intro line hl t ht n hn
    have ht : t ∈ [['0'], ['0'], ['0']] := by
      rcases List.mem_pair.mp hl with rfl | rfl
      · exact absurd ht (hmarker ▸ List.not_mem_nil)
      · exact hrecord ▸ ht
    obtain rfl : t = ['0'] := by simpa using ht
    obtain rfl := Option.some.inj (show some _ = some n from hn)
    decide
  refine ⟨hr, ?_, by simp [Fault.Arithmetic], rfl⟩
  rw [rescaleBones, hfault]
  rfl

end ModelScale
