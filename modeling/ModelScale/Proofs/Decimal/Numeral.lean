import Mathlib.Data.List.Basic
import Mathlib.Tactic.Common
import ModelScale.Decimal.Numeral
import ModelScale.Proofs.Text.Words

/-
# The characters of a numeral

A numeral is a word of few characters: digits, signs, a point and the letter of the exponent
(`numeralChars_of_isNumeral`).  So it holds no blank, nothing of a comment or a tag and no quotation
mark, which is what everything that is written around numerals relies on.

Numerals are defined by the function that reads them; `isNumeral_iff_pattern` says which texts they
are.

A numeral in fixed point (`fixedPoint`) is read as the parts that it was put together from
(`parse?_fixedPoint`).
-/

namespace ModelScale

namespace Text

/-! ## 1. Digits -/

/-- Digits and nothing else. -/
def Digits (t : Text) : Prop := ∀ c ∈ t, isDigit c = true

@[simp] theorem digits_nil : Digits [] := by
  intro _ h
  exact absurd h (by simp)

@[simp] theorem digits_cons {c : Char} {t : Text} :
    Digits (c :: t) ↔ isDigit c = true ∧ Digits t := by
  simp [Digits]

@[simp] theorem digits_append {s t : Text} : Digits (s ++ t) ↔ Digits s ∧ Digits t := by
  simp [Digits, or_imp, forall_and]

/-- A digit stands in one of the blocks of ten. -/
theorem exists_zero_of_isDigit {c : Char} (h : isDigit c = true) :
    ∃ z ∈ digitZeros, z ≤ c.toNat ∧ c.toNat < z + 10 := by
  unfold isDigit digitValue? at h
  rw [Option.isSome_map, Option.isSome_iff_exists] at h
  obtain ⟨z, hz⟩ := h
  have hc := List.find?_some hz
  simp only [Bool.and_eq_true, decide_eq_true_eq] at hc
  exact ⟨z, List.mem_of_find?_eq_some hz, hc⟩

/-- The blocks of digits keep clear of the blanks. -/
theorem digitZeros_clear :
    ∀ z ∈ digitZeros, z = 0x30 ∨ 0x660 ≤ z ∧ z + 10 ≤ 0x1680 ∨ 0x1681 ≤ z ∧ z + 10 ≤ 0x2000 ∨
      0x3001 ≤ z := by
  decide

theorem isBlank_of_isDigit {c : Char} (h : isDigit c = true) : isBlank c = false := by
  obtain ⟨z, hz, h1, h2⟩ := exists_zero_of_isDigit h
  have hc := digitZeros_clear z hz
  simp only [isBlank, Bool.or_eq_false_iff, Bool.and_eq_false_iff, decide_eq_false_iff_not,
    beq_eq_false_iff_ne]
  omega

theorem toNat_of_ascii {c : Char} (h : c.isDigit = true) : 0x30 ≤ c.toNat ∧ c.toNat ≤ 0x39 := by
  simp only [Char.isDigit, Bool.and_eq_true, decide_eq_true_eq, ge_iff_le, UInt32.le_iff_toNat_le]
    at h
  exact h

theorem isDigit_of_ascii {c : Char} (h : c.isDigit = true) :
    digitValue? c = some (c.toNat - 0x30) := by
  obtain ⟨h1, h2⟩ := toNat_of_ascii h
  obtain ⟨r, hr⟩ : ∃ r, digitZeros = 0x30 :: r := ⟨_, rfl⟩
  rw [digitValue?, hr, List.find?_cons_of_pos]
  · rfl
  · simp only [Bool.and_eq_true, decide_eq_true_eq]
    omega

theorem digits_of_ascii {t : Text} (h : ∀ c ∈ t, c.isDigit = true) : Digits t := by
  intro c hc
  rw [isDigit, isDigit_of_ascii (h c hc)]
  rfl

theorem digitsValue_eq_ofDigitChars {t : Text} (h : ∀ c ∈ t, c.isDigit = true) :
    digitsValue t = Nat.ofDigitChars 10 t 0 := by
  rw [Nat.ofDigitChars_eq_foldl, digitsValue]
  refine List.foldl_ext _ _ _ ?_
  intro n c hc
  rw [digitValue, isDigit_of_ascii (h c hc)]
  rfl

/-! ## 2. The characters of a numeral -/

/-- A character that a numeral can hold. -/
def NumeralChar (c : Char) : Prop :=
  isDigit c = true ∨ c ∈ ['+', '-', '.', 'e', 'E']

theorem NumeralChar.not_blank {c : Char} (h : NumeralChar c) : isBlank c = false := by
  rcases h with h | h
  · exact isBlank_of_isDigit h
  · exact (by decide : Inked ['+', '-', '.', 'e', 'E']) c h

/-- A character of neither kind is in no numeral. -/
theorem NumeralChar.ne {c d : Char} (h : NumeralChar c) (hd : isDigit d = false)
    (hn : d ∉ ['+', '-', '.', 'e', 'E']) : c ≠ d := by
  rintro rfl
  rcases h with h | h
  · exact absurd h (by simp [hd])
  · exact hn h

end Text

namespace Numeral

open Text

theorem takeSign_eq (t : Text) :
    t = (takeSign t).2 ∨ t = '-' :: (takeSign t).2 ∨ t = '+' :: (takeSign t).2 := by
  unfold takeSign
  split
  · exact Or.inr (Or.inl rfl)
  · exact Or.inr (Or.inr rfl)
  · exact Or.inl rfl

theorem numeralChars_of_takeSign {t : Text} (h : ∀ c ∈ (takeSign t).2, NumeralChar c) :
    ∀ c ∈ t, NumeralChar c := by
  intro c hc
  rcases takeSign_eq t with e | e | e <;> rw [e] at hc
  · exact h c hc
  · rcases List.mem_cons.mp hc with rfl | hc
    · exact Or.inr (by simp)
    · exact h c hc
  · rcases List.mem_cons.mp hc with rfl | hc
    · exact Or.inr (by simp)
    · exact h c hc

theorem span_isDigit {t w r : Text} (h : t.span isDigit = (w, r)) : t = w ++ r ∧ Digits w := by
  rw [List.span_eq_takeWhile_dropWhile] at h
  obtain ⟨rfl, rfl⟩ := Prod.mk.inj h
  exact ⟨List.takeWhile_append_dropWhile.symm, fun c hc => List.mem_takeWhile_imp hc⟩

theorem numeralChars_of_power? {t : Text} {n : Int} (h : power? t = some n) :
    ∀ c ∈ t, NumeralChar c := by
  cases t with
  | nil => intro c hc; cases hc
  | cons e t =>
    simp only [power?] at h
    split at h
    · rename_i hd
      simp only [Bool.and_eq_true, Bool.or_eq_true, beq_iff_eq, List.all_eq_true] at hd
      obtain ⟨⟨he, -⟩, hd⟩ := hd
      intro c hc
      rcases List.mem_cons.mp hc with rfl | hc
      · rcases he with rfl | rfl <;> exact Or.inr (by simp)
      · exact numeralChars_of_takeSign (fun c hc => Or.inl (hd c hc)) c hc
    · cases h

/-- The parts of a numeral, one behind the other. -/
theorem parse?_eq_some {t : Text} {n : Numeral} (h : parse? t = some n) :
    ∃ exponent, power? exponent = some n.power ∧ Digits n.whole ∧ Digits n.fraction ∧
      (n.whole ≠ [] ∨ n.fraction ≠ []) ∧ n.negative = (takeSign t).1 ∧
      ((takeSign t).2 = n.whole ++ '.' :: n.fraction ++ exponent ∨
        n.fraction = [] ∧ (takeSign t).2 = n.whole ++ exponent) := by
  unfold parse? at h
  dsimp only at h
  generalize hs : (takeSign t).2.span isDigit = s at h
  obtain ⟨whole, rest⟩ := s
  obtain ⟨hw, hwd⟩ := span_isDigit hs
  have hne : ∀ fraction : Text, ¬ (whole.isEmpty && fraction.isEmpty) = true →
      whole ≠ [] ∨ fraction ≠ [] := by
    intro fraction h
    rw [Bool.and_eq_true, List.isEmpty_iff, List.isEmpty_iff] at h
    exact not_and_or.mp h
  split at h
  · rename_i r hr
    generalize hs' : r.span isDigit = s at h
    obtain ⟨fraction, exponent⟩ := s
    obtain ⟨hf, hfd⟩ := span_isDigit hs'
    split at h
    · cases h
    · rename_i he
      obtain ⟨p, hp, rfl⟩ := Option.map_eq_some_iff.mp h
      refine ⟨exponent, hp, hwd, hfd, hne fraction he, rfl, Or.inl ?_⟩
      dsimp only at hr ⊢
      rw [hw, hr, hf, List.append_assoc, List.cons_append]
  · split at h
    · cases h
    · rename_i he
      obtain ⟨p, hp, rfl⟩ := Option.map_eq_some_iff.mp h
      exact ⟨rest, hp, hwd, digits_nil, hne [] he, rfl, Or.inr ⟨rfl, hw⟩⟩

/-- **A numeral holds digits, signs, a point and the letter of the exponent, and nothing
else.** -/
theorem numeralChars_of_isNumeral {t : Text} (h : isNumeral t = true) : ∀ c ∈ t, NumeralChar c := by
  obtain ⟨n, hn⟩ := Option.isSome_iff_exists.mp h
  obtain ⟨exponent, hp, hw, hf, -, -, hb⟩ := parse?_eq_some hn
  have he := numeralChars_of_power? hp
  refine numeralChars_of_takeSign ?_
  intro c hc
  rcases hb with hb | ⟨-, hb⟩
  · rw [hb, List.append_assoc, List.cons_append] at hc
    rcases List.mem_append.mp hc with hc | hc
    · exact Or.inl (hw c hc)
    · rcases List.mem_cons.mp hc with rfl | hc
      · exact Or.inr (by simp)
      · rcases List.mem_append.mp hc with hc | hc
        · exact Or.inl (hf c hc)
        · exact he c hc
  · rw [hb] at hc
    rcases List.mem_append.mp hc with hc | hc
    · exact Or.inl (hw c hc)
    · exact he c hc

theorem inked_of_isNumeral {t : Text} (h : isNumeral t = true) : Inked t := by
  intro c hc
  exact (numeralChars_of_isNumeral h c hc).not_blank

theorem ne_nil_of_isNumeral {t : Text} (h : isNumeral t = true) : t ≠ [] := by
  rintro rfl
  exact absurd h (by decide)

theorem trim_of_isNumeral {t : Text} (h : isNumeral t = true) : trim t = t := by
  obtain ⟨c, r, rfl⟩ := List.exists_cons_of_ne_nil (ne_nil_of_isNumeral h)
  have hi := inked_of_isNumeral h
  rw [trim, trimStart_of_inked (inked_cons.mp hi).1]
  simpa using trimEnd_append_inked (t := []) hi (by simp)

theorem trim_space_of_isNumeral {t : Text} (h : isNumeral t = true) : trim (' ' :: t) = t := by
  rw [← List.singleton_append, trim, trimStart_append (blanks_cons.mpr ⟨isBlank_space, blanks_nil⟩)]
  exact trim_of_isNumeral h

/-! ## 3. The pattern of a numeral -/

/-- At most one sign. -/
def Sign (t : Text) : Prop := t ∈ ([[], ['+'], ['-']] : List Text)

/-- Digits with a point among them, before them or behind them, or without one. -/
inductive Mantissa : Text → Prop where
  | integer {w : Text} (hw : Digits w) (hne : w ≠ []) : Mantissa w
  | pointed {w f : Text} (hw : Digits w) (hne : w ≠ []) (hf : Digits f) : Mantissa (w ++ '.' :: f)
  | fraction {f : Text} (hf : Digits f) (hne : f ≠ []) : Mantissa ('.' :: f)

/-- The letter of an exponent in either case, with a sign and digits, or nothing. -/
inductive Exponent : Text → Prop where
  | absent : Exponent []
  | written {e : Char} {s d : Text} (he : e ∈ ['e', 'E']) (hs : Sign s) (hd : Digits d)
    (hne : d ≠ []) : Exponent (e :: (s ++ d))

/-- The pattern of a number on a line: `[-+]?(\d+\.?\d*|\.\d+)([eE][-+]?\d+)?`. -/
def Pattern (t : Text) : Prop :=
  ∃ s m x, t = s ++ (m ++ x) ∧ Sign s ∧ Mantissa m ∧ Exponent x

theorem ne_of_isDigit {c d : Char} (h : isDigit c = true) (hd : isDigit d = false) : c ≠ d := by
  rintro rfl
  exact absurd h (by simp [hd])

theorem not_sign_of_isDigit {c : Char} (h : isDigit c = true) : c ∉ ['+', '-'] := by
  have hplus := ne_of_isDigit h (d := '+') (by decide)
  have hminus := ne_of_isDigit h (d := '-') (by decide)
  simp [hplus, hminus]

theorem exists_sign (t : Text) : ∃ s, Sign s ∧ t = s ++ (takeSign t).2 := by
  rcases takeSign_eq t with h | h | h
  · exact ⟨[], by simp [Sign], h⟩
  · exact ⟨['-'], by simp [Sign], h⟩
  · exact ⟨['+'], by simp [Sign], h⟩

/-- A sign is taken off in front of anything else. -/
theorem takeSign_sign_append {s t : Text} (hs : Sign s) (ht : ∀ c ∈ t.head?, c ∉ ['+', '-']) :
    takeSign (s ++ t) = (s.contains '-', t) := by
  simp only [Sign, List.mem_cons, List.not_mem_nil, or_false] at hs
  rcases hs with rfl | rfl | rfl
  · cases t with
    | nil => rfl
    | cons c t =>
      have hc := ht c rfl
      simp only [List.mem_cons, List.not_mem_nil, or_false, not_or] at hc
      rw [List.nil_append, takeSign]
      · rfl
      · simpa using hc.2
      · simpa using hc.1
  · rfl
  · rfl

theorem Exponent.of_power? {t : Text} (h : (power? t).isSome = true) : Exponent t := by
  cases t with
  | nil => exact .absent
  | cons e t =>
    simp only [power?] at h
    split at h
    · rename_i hd
      simp only [Bool.and_eq_true, Bool.or_eq_true, beq_iff_eq, List.all_eq_true,
        Bool.not_eq_true', List.isEmpty_eq_false_iff] at hd
      obtain ⟨⟨he, hne⟩, hd⟩ := hd
      obtain ⟨s, hs, ht⟩ := exists_sign t
      rw [ht]
      exact .written (by simpa using he) hs hd hne
    · cases h

theorem Exponent.isSome_power? {t : Text} (h : Exponent t) : (power? t).isSome = true := by
  cases h with
  | absent => rfl
  | @written e s d he hs hd hne =>
    have hhead : ∀ c ∈ d.head?, c ∉ ['+', '-'] := fun c hc =>
      not_sign_of_isDigit (hd c (List.mem_of_mem_head? hc))
    have hall : d.all isDigit = true := List.all_eq_true.mpr hd
    simp only [List.mem_cons, List.not_mem_nil, or_false] at he
    simp [power?, takeSign_sign_append hs hhead, he, hne, hall]

/-- No digit stands at the start of an exponent, and no point. -/
theorem Exponent.head_not_digit {t : Text} (h : Exponent t) :
    ∀ c ∈ t.head?, isDigit c = false ∧ c ≠ '.' := by
  cases h with
  | absent => intro c hc; cases hc
  | @written e s d he =>
    intro c hc
    obtain rfl : e = c := by simpa using hc
    simp only [List.mem_cons, List.not_mem_nil, or_false] at he
    rcases he with rfl | rfl <;> exact ⟨by decide, by decide⟩

/-- No sign stands at the start of digits or of a point. -/
theorem head_not_sign {w r : Text} (hw : Digits w) (hr : w = [] → ∃ u, r = '.' :: u) :
    ∀ c ∈ (w ++ r).head?, c ∉ ['+', '-'] := by
  intro c hc
  cases w with
  | nil =>
    obtain ⟨u, rfl⟩ := hr rfl
    obtain rfl : '.' = c := by simpa using hc
    decide
  | cons d w =>
    obtain rfl : d = c := by simpa using hc
    exact not_sign_of_isDigit (hw d List.mem_cons_self)

theorem isNumeral_of_pointed {s w f x : Text} (hs : Sign s) (hw : Digits w) (hf : Digits f)
    (hne : w ≠ [] ∨ f ≠ []) (hx : Exponent x) :
    isNumeral (s ++ (w ++ '.' :: f ++ x)) = true := by
  have hbody : w ++ '.' :: f ++ x = w ++ '.' :: (f ++ x) := by simp
  have hsign := takeSign_sign_append hs (head_not_sign hw fun _ => ⟨f ++ x, rfl⟩)
  have hwhole := span_append (p := isDigit) (r := '.' :: (f ++ x)) hw (by simp; decide)
  have hfraction := span_append (p := isDigit) hf fun c hc => (hx.head_not_digit c hc).1
  have hboth : (w.isEmpty && f.isEmpty) = false := by simpa using not_and_or.mpr hne
  rw [isNumeral, parse?, hbody, hsign]
  simp only [hwhole, hfraction, hboth]
  rw [if_neg (by decide), Option.isSome_map]
  exact hx.isSome_power?

theorem isNumeral_of_integer {s w x : Text} (hs : Sign s) (hw : Digits w) (hne : w ≠ [])
    (hx : Exponent x) : isNumeral (s ++ (w ++ x)) = true := by
  have hsign := takeSign_sign_append hs (head_not_sign (r := x) hw fun h => absurd h hne)
  have hwhole := span_append (p := isDigit) hw fun c hc => (hx.head_not_digit c hc).1
  have hboth : w.isEmpty = false := by simpa using hne
  rw [isNumeral, parse?, hsign]
  simp only [hwhole]
  split
  · rename_i r
    exact absurd rfl (hx.head_not_digit '.' rfl).2
  · simpa [hboth] using hx.isSome_power?

/-- **The numerals are the texts of the pattern.** -/
theorem isNumeral_iff_pattern {t : Text} : isNumeral t = true ↔ Pattern t := by
  constructor
  · intro h
    obtain ⟨n, hn⟩ := Option.isSome_iff_exists.mp h
    obtain ⟨x, hp, hw, hf, hne, -, hb⟩ := parse?_eq_some hn
    obtain ⟨s, hs, ht⟩ := exists_sign t
    have hx : Exponent x := .of_power? (by rw [hp]; rfl)
    rcases hb with hb | ⟨hfn, hb⟩
    · refine ⟨s, n.whole ++ '.' :: n.fraction, x, hb ▸ ht, hs, ?_, hx⟩
      by_cases hempty : n.whole = []
      · rw [hempty]
        exact .fraction hf (hne.resolve_left (not_not.mpr hempty))
      · exact .pointed hw hempty hf
    · exact ⟨s, n.whole, x, hb ▸ ht, hs, .integer hw (by simpa [hfn] using hne), hx⟩
  · rintro ⟨s, m, x, rfl, hs, hm, hx⟩
    cases hm with
    | integer hw hne => exact isNumeral_of_integer hs hw hne hx
    | pointed hw hne hf => exact isNumeral_of_pointed hs hw hf (Or.inl hne) hx
    | fraction hf hne => exact isNumeral_of_pointed hs digits_nil hf (Or.inr hne) hx

/-! ## 4. Fixed point -/

/-- A sign if there is one, digits, and a point with more digits if there are any. -/
def fixedPoint (negative : Bool) (whole fraction : Text) : Text :=
  (if negative then ['-'] else []) ++ whole ++ if fraction = [] then [] else '.' :: fraction

theorem takeSign_of_isDigit {c : Char} (h : isDigit c = true) (t : Text) :
    takeSign (c :: t) = (false, c :: t) := by
  refine takeSign_sign_append (s := []) (by simp [Sign]) ?_
  intro d hd
  obtain rfl : c = d := by simpa using hd
  exact not_sign_of_isDigit h

theorem takeSign_fixedPoint {negative : Bool} {whole : Text} (hw : Digits whole) (hne : whole ≠ [])
    (fraction : Text) :
    takeSign (fixedPoint negative whole fraction) =
      (negative, whole ++ if fraction = [] then [] else '.' :: fraction) := by
  unfold fixedPoint
  cases negative with
  | true => rfl
  | false =>
    obtain ⟨c, w, rfl⟩ := List.exists_cons_of_ne_nil hne
    exact takeSign_of_isDigit (digits_cons.mp hw).1 _

/-- **A numeral in fixed point is read as the parts that it was put together from.** -/
theorem parse?_fixedPoint {negative : Bool} {whole fraction : Text} (hw : Digits whole)
    (hf : Digits fraction) (hne : whole ≠ []) :
    parse? (fixedPoint negative whole fraction) = some ⟨negative, whole, fraction, 0⟩ := by
  have hspan : ∀ r : Text, (∀ c ∈ r.head?, isDigit c = false) →
      (whole ++ r).span isDigit = (whole, r) := by
    intro r hr
    exact span_append hw hr
  unfold parse?
  rw [takeSign_fixedPoint hw hne]
  dsimp only
  by_cases hz : fraction = []
  · subst hz
    rw [if_pos rfl, hspan [] (by simp)]
    simp [hne, power?]
  · have hdot : ∀ c ∈ ('.' :: fraction).head?, isDigit c = false := by
      intro c hc
      obtain rfl : '.' = c := by simpa using hc
      decide
    have hfspan := span_append (r := []) hf (by simp)
    rw [List.append_nil] at hfspan
    rw [if_neg hz, hspan _ hdot]
    simp [-List.span_eq_takeWhile_dropWhile, hfspan, hne, power?]

theorem isNumeral_fixedPoint {negative : Bool} {whole fraction : Text} (hw : Digits whole)
    (hf : Digits fraction) (hne : whole ≠ []) :
    isNumeral (fixedPoint negative whole fraction) = true := by
  rw [isNumeral, parse?_fixedPoint hw hf hne]
  rfl

end Numeral

end ModelScale
