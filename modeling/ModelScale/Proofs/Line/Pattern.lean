import ModelScale.Proofs.Line.Token
import ModelScale.Proofs.Text.Regex

/-
# The patterns of fields

The pieces that the patterns of lines are put together from: a number, blanks, and what may follow
the last field.  The pattern of a number takes every numeral that starts a text
(`recognizes_numeral`), and the beginnings of a numeral may be numerals.  Among blanks this makes no
difference: three numbers in a row can only be whole words (`fits_triple_iff`), the ones that
`takeTriple?` takes (`takeTriple?_eq_some_iff`).
-/

namespace ModelScale

open Text

/-! ## 1. The pattern of a number -/

namespace Text.Regex

/-- A sign that may be absent. -/
def sign : Regex := optional (one fun c => c == '+' || c == '-')

/-- Digits, at least one. -/
def digits : Regex := chain [one isDigit, most isDigit]

/-- Digits with a point among them or behind them, or without one; or behind a point. -/
def mantissa : Regex :=
  either (chain [digits, optional (one (· == '.')), most isDigit]) (chain [one (· == '.'), digits])

/-- The letter of an exponent, a sign and digits, or nothing. -/
def exponent : Regex := optional (chain [one fun c => c == 'e' || c == 'E', sign, digits])

/-- A number: `[-+]?(\d+\.?\d*|\.\d+)([eE][-+]?\d+)?`. -/
def numeral : Regex := chain [sign, mantissa, exponent]

/-- Blanks, at least one. -/
def blanks : Regex := chain [one isBlank, most isBlank]

theorem recognizes_sign : sign.Recognizes Numeral.Sign := by
  refine recognizes_one.optional.congr ?_
  intro s
  simp only [Numeral.Sign, Bool.or_eq_true, beq_iff_eq, List.mem_cons, List.not_mem_nil, or_false]
  constructor
  · rintro (⟨c, rfl | rfl, rfl⟩ | rfl) <;> simp
  · rintro (rfl | rfl | rfl) <;> simp

/-- One character of a class and more of them are a text in the class. -/
theorem recognizes_run (p : Char → Bool) :
    (chain [one p, most p]).Recognizes fun s => (∀ c ∈ s, p c = true) ∧ s ≠ [] := by
  refine (recognizes_one.seq recognizes_most).congr ?_
  intro s
  constructor
  · rintro ⟨-, v, rfl, ⟨c, hc, rfl⟩, hv⟩
    exact ⟨List.forall_mem_cons.mpr ⟨hc, hv⟩, by simp⟩
  · rintro ⟨hs, hne⟩
    obtain ⟨c, v, rfl⟩ := List.exists_cons_of_ne_nil hne
    obtain ⟨hc, hv⟩ := List.forall_mem_cons.mp hs
    exact ⟨[c], v, rfl, ⟨c, hc, rfl⟩, hv⟩

theorem recognizes_digits : digits.Recognizes fun s => Digits s ∧ s ≠ [] := recognizes_run isDigit

theorem recognizes_blanks : blanks.Recognizes fun s => Blanks s ∧ s ≠ [] := recognizes_run isBlank

theorem recognizes_mantissa : mantissa.Recognizes Numeral.Mantissa := by
  refine ((recognizes_digits.seq (recognizes_one.optional.seq recognizes_most)).either
    (recognizes_one.seq recognizes_digits)).congr ?_
  intro s
  constructor
  · rintro (⟨w, -, rfl, ⟨hw, hne⟩, u, f, rfl, ⟨c, hc, rfl⟩ | rfl, hf⟩ |
      ⟨-, f, rfl, ⟨c, hc, rfl⟩, hf, hne⟩)
    · obtain rfl := beq_iff_eq.mp hc
      exact .pointed hw hne hf
    · rw [List.nil_append]
      exact .integer (digits_append.mpr ⟨hw, hf⟩) (by simp [hne])
    · obtain rfl := beq_iff_eq.mp hc
      exact .fraction hf hne
  · intro h
    cases h with
    | integer hw hne =>
      exact Or.inl ⟨s, [], by simp, ⟨hw, hne⟩, [], [], rfl, Or.inr rfl, digits_nil⟩
    | @pointed w f hw hne hf =>
      exact Or.inl ⟨w, '.' :: f, rfl, ⟨hw, hne⟩, ['.'], f, rfl, Or.inl ⟨'.', rfl, rfl⟩, hf⟩
    | @fraction f hf hne => exact Or.inr ⟨['.'], f, rfl, ⟨'.', rfl, rfl⟩, hf, hne⟩

theorem recognizes_exponent : exponent.Recognizes Numeral.Exponent := by
  refine (recognizes_one.seq (recognizes_sign.seq recognizes_digits)).optional.congr ?_
  intro s
  constructor
  · rintro (⟨-, -, rfl, ⟨e, he, rfl⟩, a, d, rfl, ha, hd, hne⟩ | rfl)
    · exact Numeral.Exponent.written (s := a) (by simpa using he) ha hd hne
    · exact .absent
  · intro h
    cases h with
    | absent => exact Or.inr rfl
    | @written e s d he hs hd hne =>
      exact Or.inl ⟨[e], s ++ d, rfl, ⟨e, by simpa using he, rfl⟩, s, d, rfl, hs, hd, hne⟩

/-- **The pattern of a number takes every numeral that starts a text**, so also the beginnings of a
numeral that are numerals. -/
theorem recognizes_numeral : numeral.Recognizes fun s => isNumeral s = true := by
  refine (recognizes_sign.seq (recognizes_mantissa.seq recognizes_exponent)).congr ?_
  intro s
  rw [Numeral.isNumeral_iff_pattern, Numeral.Pattern]
  constructor
  · rintro ⟨a, -, rfl, ha, m, x, rfl, hm, hx⟩
    exact ⟨a, m, x, rfl, ha, hm, hx⟩
  · rintro ⟨a, m, x, rfl, ha, hm, hx⟩
    exact ⟨a, m ++ x, rfl, ha, m, x, rfl, hm, hx⟩

/-- A character that does not end the line. -/
def onLine (c : Char) : Bool := c != '\n'

/-- What may follow the last field of a line: nothing, or a blank and the rest of the line. -/
def tailOfLine : Regex := optional (chain [one isBlank, most onLine])

theorem forall_onLine {t : Text} : (∀ c ∈ t, onLine c = true) ↔ Unbroken t := by
  constructor
  · intro h hn
    exact absurd (h _ hn) (by decide)
  · intro h c hc
    exact bne_iff_ne.mpr fun e => h (e ▸ hc)

theorem recognizes_tailOfLine : tailOfLine.Recognizes fun s => AtGap s ∧ Unbroken s.tail := by
  refine (recognizes_one.seq recognizes_most).optional.congr ?_
  intro s
  constructor
  · rintro (⟨-, v, rfl, ⟨c, hc, rfl⟩, hv⟩ | rfl)
    · exact ⟨hc, forall_onLine.mp hv⟩
    · simp
  · rintro ⟨hg, hs⟩
    cases s with
    | nil => exact Or.inr rfl
    | cons c v => exact Or.inl ⟨[c], v, rfl, ⟨c, hg, rfl⟩, forall_onLine.mpr hs⟩

end Text.Regex

open Text.Regex

/-! ## 2. Three words at the start of a text -/

/-- A text is three words with blanks between them, and what stands behind them. -/
def Triple.Opens (v : Triple) (after t : Text) : Prop :=
  ∃ b c, t = v.x ++ (b ++ (v.y ++ (c ++ (v.z ++ after)))) ∧ Blanks b ∧ b ≠ [] ∧ Blanks c ∧ c ≠ []

theorem takeTriple?_eq_some_iff {t after : Text} {v : Triple} :
    takeTriple? t = some (v, after) ↔
      ∃ gap u, t = gap ++ u ∧ Blanks gap ∧ v.Numerals ∧ v.Opens after u ∧ AtGap after := by
  constructor
  · intro h
    obtain ⟨gap, b, c, rfl, hv, hgap, hb, hbne, hc, hcne, ha⟩ := takeTriple?_eq_some h
    exact ⟨gap, _, rfl, hgap, hv, ⟨b, c, rfl, hb, hbne, hc, hcne⟩, ha⟩
  · rintro ⟨gap, u, rfl, hgap, hv, ⟨b, c, rfl, hb, hbne, hc, hcne⟩, ha⟩
    exact takeTriple?_append hv hgap hb hbne hc hcne ha

section Opening

variable {v : Triple} {gap after t u : Text}

/-- Numerals at the start of a text leave no blank there. -/
theorem Triple.Opens.takeWhile_gap (h : v.Opens after u) (hv : v.Numerals) (hgap : Blanks gap) :
    (gap ++ u).takeWhile isBlank = gap := by
  obtain ⟨b, c, rfl, -⟩ := h
  obtain ⟨d, w, hx⟩ := List.exists_cons_of_ne_nil (Numeral.ne_nil_of_isNumeral hv.1)
  have hd : isBlank d = false := Numeral.inked_of_isNumeral hv.1 d (hx ▸ List.mem_cons_self)
  rw [hx, List.cons_append, takeWhile_blanks_append hgap hd]

theorem Triple.Opens.unbroken (h : v.Opens after u) (hu : Unbroken u) : Unbroken after := by
  obtain ⟨b, c, rfl, -⟩ := h
  simp only [unbroken_append] at hu
  exact hu.2.2.2.2.2

/-- Numerals that open a text are its first words. -/
theorem Triple.Opens.words_eq (h : v.Opens after u) (hv : v.Numerals) (hgap : Blanks gap)
    (ha : AtGap after) : words (gap ++ u) = v.toList ++ words after := by
  obtain ⟨b, c, rfl, hb, hbne, hc, hcne⟩ := h
  rw [← words_triple hv hgap hb hbne hc hcne, ← words_append_of_atGap ha]
  simp

theorem Triple.Opens.trailingBlanks_eq (h : v.Opens after u) (hv : v.Numerals) (ha : Blanks after)
    (s : Text) : trailingBlanks (s ++ u) = after := by
  obtain ⟨b, c, rfl, -⟩ := h
  have hz := trailingBlanks_append_word (s ++ (v.x ++ (b ++ (v.y ++ c))))
    (Numeral.inked_of_isNumeral hv.2.2) (Numeral.ne_nil_of_isNumeral hv.2.2) ha
  simpa using hz

/-- A text with three numerals as its first words. -/
theorem Triple.exists_opens {more : List Text} (hv : v.Numerals)
    (h : words t = v.toList ++ more) :
    ∃ gap u after, t = gap ++ u ∧ Blanks gap ∧ v.Opens after u ∧ AtGap after ∧
      words after = more := by
  obtain ⟨gap, r, rfl, hgap, -, -, hr, h⟩ := words_eq_cons_iff.mp h
  obtain ⟨b, r', rfl, hb, -, -, hr', h⟩ := words_eq_cons_iff.mp h
  obtain ⟨c, after, rfl, hc, -, -, ha, h⟩ := words_eq_cons_iff.mp h
  exact ⟨gap, _, after, rfl, hgap, ⟨b, c, rfl, hb, ne_nil_of_atGap_append hv.2.1 hr, hc,
    ne_nil_of_atGap_append hv.2.2 hr'⟩, ha, h⟩

end Opening

/-- Three numbers with blanks between them and a pattern behind: whatever the repetitions do,
numerals with blanks between them are kept. -/
theorem fits_triple_iff {k : Regex} {t : Text} {kept : List Text} :
    (chain [group numeral, blanks, group numeral, blanks, group numeral, k]).Fits t kept ↔
      ∃ (v : Triple) (after : Text) (r : List Text), v.Numerals ∧ v.Opens after t ∧
        k.Fits after r ∧ kept = v.toList ++ r := by
  simp only [chain, fits_group_seq_iff recognizes_numeral, fits_seq_iff recognizes_blanks]
  constructor
  · rintro ⟨x, -, -, rfl, hx, ⟨b, -, rfl, ⟨hb, hbne⟩, y, -, -, rfl, hy, ⟨c, -, rfl, ⟨hc, hcne⟩,
      z, after, r, rfl, hz, hr, rfl⟩, rfl⟩, rfl⟩
    exact ⟨⟨x, y, z⟩, after, r, ⟨hx, hy, hz⟩, ⟨b, c, rfl, hb, hbne, hc, hcne⟩, hr, rfl⟩
  · rintro ⟨v, after, r, ⟨hx, hy, hz⟩, ⟨b, c, rfl, hb, hbne, hc, hcne⟩, hr, rfl⟩
    exact ⟨v.x, _, _, rfl, hx, ⟨b, _, rfl, ⟨hb, hbne⟩, v.y, _, _, rfl, hy, ⟨c, _, rfl, ⟨hc, hcne⟩,
      v.z, after, r, rfl, hz, hr, rfl⟩, rfl⟩, rfl⟩

end ModelScale
