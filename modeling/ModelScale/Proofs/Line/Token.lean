import ModelScale.Line.Token
import ModelScale.Proofs.Decimal.Numeral
import ModelScale.Proofs.Text.Bytes
import ModelScale.Proofs.Text.Keyword

/-
# Numbers on a line

Numbers are taken from a line word by word, from its start or from its end.  Both ways are given
here as equations between the line and its pieces (`takeTriple?_append`, `takeLastTriple?_append`)
together with their converses.

What is taken does not depend on what stands behind a character that no number can hold
(`isSome_takeTriple?_marked`): so a line can be changed behind a tag without any number appearing or
disappearing in front of it.
-/

namespace ModelScale

namespace Text

/-! ## 1. Texts on one line -/

/-- No newline. -/
def Unbroken (t : Text) : Prop := '\n' ∉ t

instance (t : Text) : Decidable (Unbroken t) := inferInstanceAs (Decidable ('\n' ∉ t))

@[simp] theorem unbroken_nil : Unbroken [] := by simp [Unbroken]

@[simp] theorem unbroken_cons {c : Char} {t : Text} :
    Unbroken (c :: t) ↔ c ≠ '\n' ∧ Unbroken t := by
  simp [Unbroken, eq_comm]

@[simp] theorem unbroken_append {s t : Text} : Unbroken (s ++ t) ↔ Unbroken s ∧ Unbroken t := by
  simp [Unbroken]

theorem unbroken_join {separator : Text} (hs : Unbroken separator) {texts : List Text}
    (hu : ∀ t ∈ texts, Unbroken t) : Unbroken (join separator texts) := by
  induction texts with
  | nil => exact unbroken_nil
  | cons t texts ih =>
    obtain ⟨ht, hu⟩ := List.forall_mem_cons.mp hu
    cases texts with
    | nil => exact ht
    | cons u texts =>
      rw [join, unbroken_append, unbroken_append]
      exact ⟨⟨ht, hs⟩, ih hu⟩

theorem restOfLine?_of_unbroken {t : Text} (h : Unbroken t) : restOfLine? t = some t := by
  induction t with
  | nil => rfl
  | cons c t ih =>
    obtain ⟨hc, ht⟩ := unbroken_cons.mp h
    rw [restOfLine?]
    · rw [if_neg hc, ih ht]
      rfl
    · exact fun e _ => hc e

theorem tailOfLine?_of_unbroken {t : Text} (h : Unbroken t) (hg : AtGap t) :
    tailOfLine? t = some t := by
  cases t with
  | nil => rfl
  | cons c t =>
    rw [tailOfLine?, if_pos (atGap_cons.mp hg), restOfLine?_of_unbroken (unbroken_cons.mp h).2]
    rfl

end Text

open Text Numeral

/-! ## 2. One number -/

theorem unbroken_of_isNumeral {u : Text} (h : isNumeral u = true) : Unbroken u := by
  intro hc
  exact (numeralChars_of_isNumeral h _ hc).ne (by decide) (by decide) rfl

theorem plain_of_numeralChar {c : Char} (h : NumeralChar c) : Plain c := by
  rcases h with h | h
  · refine plain_of_lt ?_
    rw [isDigit, digitValue?, Option.isSome_map, List.find?_isSome] at h
    obtain ⟨start, hz, hc⟩ := h
    have hstart : ∀ start ∈ digitZeros, start < 0x20000 := by decide
    have hs := hstart start hz
    simp only [Bool.and_eq_true, decide_eq_true_eq] at hc
    rw [carrierBase]
    omega
  · exact (by decide : ∀ c ∈ (['+', '-', '.', 'e', 'E'] : Text), Plain c) c h

theorem plain_of_isNumeral {u : Text} (h : isNumeral u = true) : ∀ c ∈ u, Plain c :=
  fun c hc => plain_of_numeralChar (numeralChars_of_isNumeral h c hc)

theorem takeNumber?_append {b w r : Text} (hb : Blanks b) (hw : isNumeral w = true)
    (hr : AtGap r) : takeNumber? (b ++ (w ++ r)) = some (w, r) := by
  rw [takeNumber?, nextWord_append hb (inked_of_isNumeral hw) (ne_nil_of_isNumeral hw) hr]
  exact if_pos hw

theorem takeNumber?_eq_some {t w r : Text} (h : takeNumber? t = some (w, r)) :
    ∃ b, t = b ++ (w ++ r) ∧ Blanks b ∧ isNumeral w = true ∧ AtGap r := by
  unfold takeNumber? at h
  dsimp only at h
  split at h
  · rename_i hw
    obtain ⟨rfl, rfl⟩ := Prod.mk.inj (Option.some.inj h)
    obtain ⟨b, hb, ht, -, hr⟩ := exists_gap_nextWord t
    exact ⟨b, ht, hb, hw, hr⟩
  · cases h

/-- A number in front of a character that no number can hold is there whatever follows that
character. -/
theorem takeNumber?_marked {s t w r : Text} {d : Char} (hb : isBlank d = false)
    (hd : ¬ NumeralChar d) (h : takeNumber? (s ++ d :: t) = some (w, r)) :
    ∃ s', r = s' ++ d :: t ∧ ∀ u, takeNumber? (s ++ d :: u) = some (w, s' ++ d :: u) := by
  obtain ⟨b, ht, hbl, hw, hr⟩ := takeNumber?_eq_some h
  have hmem : d ∉ b ++ w := by
    intro hc
    rcases List.mem_append.mp hc with hc | hc
    · exact absurd (hbl d hc) (by simp [hb])
    · exact hd (numeralChars_of_isNumeral hw d hc)
  obtain ⟨s', rfl, rfl⟩ : ∃ s', s = b ++ w ++ s' ∧ r = s' ++ d :: t := by
    rw [← List.append_assoc] at ht
    rcases List.append_eq_append_iff.mp ht with ⟨a, ha, hat⟩ | ⟨a, ha, hat⟩
    · cases a with
      | nil => exact ⟨[], by simpa using ha.symm, by simpa using hat.symm⟩
      | cons e a =>
        rw [List.cons_append] at hat
        obtain rfl := (List.cons.inj hat).1
        exact absurd (ha ▸ List.mem_append_right s List.mem_cons_self) hmem
    · exact ⟨a, ha, hat⟩
  refine ⟨s', rfl, ?_⟩
  intro u
  have hg : AtGap (s' ++ d :: u) := by
    cases s' with
    | nil => exact absurd hr (by simp [hb])
    | cons e s' => exact hr
  rw [List.append_assoc, List.append_assoc]
  exact takeNumber?_append hbl hw hg

/-! ## 3. Three numbers at the start -/

theorem takeTriple?_eq (t : Text) :
    takeTriple? t = (takeNumber? t).bind fun p => (takeNumber? p.2).bind fun q =>
      (takeNumber? q.2).map fun s => (⟨p.1, q.1, s.1⟩, s.2) := by
  unfold takeTriple?
  cases takeNumber? t with
  | none => rfl
  | some p =>
    simp only [Option.bind_eq_bind, Option.bind_some]
    cases takeNumber? p.2 with
    | none => rfl
    | some q =>
      simp only [Option.bind_some]
      cases takeNumber? q.2 <;> rfl

/-- All three coordinates are numerals. -/
def Triple.Numerals (v : Triple) : Prop :=
  isNumeral v.x = true ∧ isNumeral v.y = true ∧ isNumeral v.z = true

theorem Triple.isNumeral_of_mem {v : Triple} (h : v.Numerals) :
    ∀ t ∈ v.toList, isNumeral t = true := by
  intro t ht
  simp only [toList, List.mem_cons, List.not_mem_nil, or_false] at ht
  rcases ht with rfl | rfl | rfl
  · exact h.1
  · exact h.2.1
  · exact h.2.2

theorem takeTriple?_append {b c d r : Text} {v : Triple} (hv : v.Numerals) (hb : Blanks b)
    (hc : Blanks c) (hcne : c ≠ []) (hd : Blanks d) (hdne : d ≠ []) (hr : AtGap r) :
    takeTriple? (b ++ (v.x ++ (c ++ (v.y ++ (d ++ (v.z ++ r)))))) = some (v, r) := by
  rw [takeTriple?_eq, takeNumber?_append hb hv.1 (hc.atGap_append_of_ne_nil hcne _)]
  simp only [Option.bind_some]
  rw [takeNumber?_append hc hv.2.1 (hd.atGap_append_of_ne_nil hdne _)]
  simp only [Option.bind_some]
  rw [takeNumber?_append hd hv.2.2 hr]
  rfl

/-- Blanks stand before a word where another one cannot go on. -/
theorem ne_nil_of_atGap_append {b w r : Text} (hw : isNumeral w = true)
    (hg : AtGap (b ++ (w ++ r))) : b ≠ [] :=
  (inked_of_isNumeral hw).ne_nil_of_atGap_append (ne_nil_of_isNumeral hw) hg

theorem takeTriple?_eq_some {t r : Text} {v : Triple} (h : takeTriple? t = some (v, r)) :
    ∃ b c d, t = b ++ (v.x ++ (c ++ (v.y ++ (d ++ (v.z ++ r))))) ∧ v.Numerals ∧ Blanks b ∧
      Blanks c ∧ c ≠ [] ∧ Blanks d ∧ d ≠ [] ∧ AtGap r := by
  rw [takeTriple?_eq] at h
  obtain ⟨⟨x, r1⟩, hx, h⟩ := Option.bind_eq_some_iff.mp h
  obtain ⟨⟨y, r2⟩, hy, h⟩ := Option.bind_eq_some_iff.mp h
  obtain ⟨⟨z, r3⟩, hz, h⟩ := Option.map_eq_some_iff.mp h
  obtain ⟨rfl, rfl⟩ := Prod.mk.inj h
  obtain ⟨b, rfl, hb, hnx, hg1⟩ := takeNumber?_eq_some hx
  obtain ⟨c, rfl, hc, hny, hg2⟩ := takeNumber?_eq_some hy
  obtain ⟨d, rfl, hd, hnz, hr⟩ := takeNumber?_eq_some hz
  exact ⟨b, c, d, rfl, ⟨hnx, hny, hnz⟩, hb, hc, ne_nil_of_atGap_append hny hg1, hd,
    ne_nil_of_atGap_append hnz hg2, hr⟩

/-- Three numerals with blanks between each two are words. -/
theorem words_triple {v : Triple} {b c d : Text} (hv : v.Numerals) (hb : Blanks b) (hc : Blanks c)
    (hcne : c ≠ []) (hd : Blanks d) (hdne : d ≠ []) :
    words (b ++ (v.x ++ (c ++ (v.y ++ (d ++ v.z))))) = v.toList := by
  rw [words_blanks_append hb, words_inked_append (inked_of_isNumeral hv.1)
      (ne_nil_of_isNumeral hv.1) (hc.atGap_append_of_ne_nil hcne _),
    words_blanks_append hc, words_inked_append (inked_of_isNumeral hv.2.1)
      (ne_nil_of_isNumeral hv.2.1) (hd.atGap_append_of_ne_nil hdne _),
    words_blanks_append hd, words_of_inked (inked_of_isNumeral hv.2.2) (ne_nil_of_isNumeral hv.2.2)]
  rfl

/-- **Whether three numbers start a text does not depend on what stands behind a character that no
number can hold.** -/
theorem isSome_takeTriple?_marked {s : Text} {d : Char} (hb : isBlank d = false)
    (hd : ¬ NumeralChar d) (t u : Text) :
    (takeTriple? (s ++ d :: t)).isSome = (takeTriple? (s ++ d :: u)).isSome := by
  have himp : ∀ t u : Text, (takeTriple? (s ++ d :: t)).isSome = true →
      (takeTriple? (s ++ d :: u)).isSome = true := by
    intro t u h
    obtain ⟨⟨v, r⟩, h⟩ := Option.isSome_iff_exists.mp h
    rw [takeTriple?_eq] at h ⊢
    obtain ⟨⟨x, r1⟩, hx, h⟩ := Option.bind_eq_some_iff.mp h
    obtain ⟨⟨y, r2⟩, hy, h⟩ := Option.bind_eq_some_iff.mp h
    obtain ⟨⟨z, r3⟩, hz, -⟩ := Option.map_eq_some_iff.mp h
    obtain ⟨s1, rfl, hx'⟩ := takeNumber?_marked hb hd hx
    obtain ⟨s2, rfl, hy'⟩ := takeNumber?_marked hb hd hy
    obtain ⟨s3, rfl, hz'⟩ := takeNumber?_marked hb hd hz
    simp [hx' u, hy' u, hz' u]
  rw [Bool.eq_iff_iff]
  exact ⟨himp t u, himp u t⟩

/-- The first three of some words are numerals. -/
def openWithTriple : List Text → Bool
  | x :: y :: z :: _ => isNumeral x && isNumeral y && isNumeral z
  | _ => false

theorem openWithTriple_iff {ws : List Text} :
    openWithTriple ws = true ↔ ∃ x y z rest, ws = x :: y :: z :: rest ∧ isNumeral x = true ∧
      isNumeral y = true ∧ isNumeral z = true := by
  constructor
  · intro h
    unfold openWithTriple at h
    split at h
    · rename_i x y z rest
      simp only [Bool.and_eq_true] at h
      exact ⟨x, y, z, rest, rfl, h.1.1, h.1.2, h.2⟩
    · cases h
  · rintro ⟨x, y, z, rest, rfl, hx, hy, hz⟩
    simp [openWithTriple, hx, hy, hz]

/-- A number that is taken is the first of the words. -/
theorem words_of_takeNumber? {t x r : Text} (h : takeNumber? t = some (x, r)) :
    words t = x :: words r := by
  obtain ⟨b, rfl, hb, hx, hr⟩ := takeNumber?_eq_some h
  exact words_eq_cons_iff.mpr
    ⟨b, r, rfl, hb, inked_of_isNumeral hx, ne_nil_of_isNumeral hx, hr, rfl⟩

theorem exists_takeNumber?_of_words {t x : Text} {ws : List Text} (h : words t = x :: ws)
    (hx : isNumeral x = true) : ∃ r, takeNumber? t = some (x, r) ∧ words r = ws := by
  obtain ⟨b, r, rfl, hb, -, -, hr, hws⟩ := words_eq_cons_iff.mp h
  exact ⟨r, takeNumber?_append hb hx hr, hws⟩

/-- Three numbers start a text when its first three words are numerals. -/
theorem isSome_takeTriple? (t : Text) : (takeTriple? t).isSome = openWithTriple (words t) := by
  rw [Bool.eq_iff_iff, openWithTriple_iff, takeTriple?_eq, Option.isSome_iff_exists]
  constructor
  · rintro ⟨_, h⟩
    obtain ⟨⟨x, r1⟩, hx, h⟩ := Option.bind_eq_some_iff.mp h
    obtain ⟨⟨y, r2⟩, hy, h⟩ := Option.bind_eq_some_iff.mp h
    obtain ⟨⟨z, r3⟩, hz, -⟩ := Option.map_eq_some_iff.mp h
    obtain ⟨-, -, -, hnx, -⟩ := takeNumber?_eq_some hx
    obtain ⟨-, -, -, hny, -⟩ := takeNumber?_eq_some hy
    obtain ⟨-, -, -, hnz, -⟩ := takeNumber?_eq_some hz
    refine ⟨x, y, z, words r3, ?_, hnx, hny, hnz⟩
    rw [words_of_takeNumber? hx, words_of_takeNumber? hy, words_of_takeNumber? hz]
  · rintro ⟨x, y, z, rest, h, hx, hy, hz⟩
    obtain ⟨r1, h1, h⟩ := exists_takeNumber?_of_words h hx
    obtain ⟨r2, h2, h⟩ := exists_takeNumber?_of_words h hy
    obtain ⟨r3, h3, -⟩ := exists_takeNumber?_of_words h hz
    exact ⟨(⟨x, y, z⟩, r3), by simp [h1, h2, h3]⟩

/-! ## 4. Three numbers at the end -/

theorem atGap_reverse_append_blanks {u b : Text} (hb : Blanks b) (hne : b ≠ []) :
    AtGap (u ++ b).reverse := by
  obtain ⟨c, r, hr⟩ := List.exists_cons_of_ne_nil (List.reverse_ne_nil_iff.mpr hne)
  rw [List.reverse_append, hr]
  exact hb c (List.mem_reverse.mp (hr ▸ List.mem_cons_self))

theorem takeLastTriple?_append {u b c d : Text} {v : Triple} (hv : v.Numerals)
    (hu : AtGap u.reverse) (hb : Blanks b) (hbne : b ≠ []) (hc : Blanks c) (hcne : c ≠ [])
    (hd : Blanks d) :
    takeLastTriple? (u ++ v.x ++ b ++ v.y ++ c ++ v.z ++ d) = some (u, v) := by
  obtain ⟨hx, hy, hz⟩ := hv
  simp only [takeLastTriple?]
  rw [lastWord_append (atGap_reverse_append_blanks hc hcne) (inked_of_isNumeral hz)
    (ne_nil_of_isNumeral hz) hd]
  dsimp only
  rw [lastWord_append (atGap_reverse_append_blanks hb hbne) (inked_of_isNumeral hy)
    (ne_nil_of_isNumeral hy) hc]
  dsimp only
  rw [lastWord_append hu (inked_of_isNumeral hx) (ne_nil_of_isNumeral hx) hb]
  simp [hx, hy, hz]

/-- Blanks stand between a word and a place before which another word ends. -/
theorem blanks_ne_nil_of_atGap {u w b : Text} (hw : Inked w) (hne : w ≠ [])
    (hg : AtGap (u ++ w ++ b).reverse) : b ≠ [] := by
  rintro rfl
  obtain ⟨c, r, hr⟩ := List.exists_cons_of_ne_nil (List.reverse_ne_nil_iff.mpr hne)
  rw [List.append_nil, List.reverse_append, hr, List.cons_append, atGap_cons,
    hw c (List.mem_reverse.mp (hr ▸ List.mem_cons_self))] at hg
  cases hg

theorem takeLastTriple?_eq_some {t u : Text} {v : Triple} (h : takeLastTriple? t = some (u, v)) :
    ∃ b c, t = u ++ v.x ++ b ++ v.y ++ c ++ v.z ++ trailingBlanks t ∧ v.Numerals ∧
      AtGap u.reverse ∧ Blanks b ∧ b ≠ [] ∧ Blanks c ∧ c ≠ [] := by
  unfold takeLastTriple? at h
  dsimp only at h
  split at h
  · rename_i hn
    simp only [Bool.and_eq_true] at hn
    obtain ⟨⟨hx, hy⟩, hz⟩ := hn
    obtain ⟨rfl, rfl⟩ := Prod.mk.inj (Option.some.inj h)
    obtain ⟨h1, -, hg1⟩ := lastWord_parts t
    obtain ⟨h2, -, hg2⟩ := lastWord_parts (lastWord t).2
    obtain ⟨h3, -, hg3⟩ := lastWord_parts (lastWord (lastWord t).2).2
    refine ⟨trailingBlanks (lastWord (lastWord t).2).2, trailingBlanks (lastWord t).2, ?_,
      ⟨hx, hy, hz⟩, hg3, blanks_trailingBlanks _, ?_, blanks_trailingBlanks _, ?_⟩
    · rw [← h3, ← h2, ← h1]
    · rw [h3] at hg2
      exact blanks_ne_nil_of_atGap (inked_of_isNumeral hx) (ne_nil_of_isNumeral hx) hg2
    · rw [h2] at hg1
      exact blanks_ne_nil_of_atGap (inked_of_isNumeral hy) (ne_nil_of_isNumeral hy) hg1
  · cases h

/-! ## 5. Keywords in front -/

theorem startsBlank_iff {t : Text} : (t.isEmpty || startsBlank t) = true ↔ AtGap t := by
  cases t <;> simp [startsBlank]

theorem atGap_of_startsBlank {t : Text} (h : startsBlank t = true) : AtGap t :=
  startsBlank_iff.mp (by rw [h, Bool.or_true])

/-- The head of a line: blanks, a word that folds to the keyword, and a gap. -/
def IsHead (keyword head : Text) : Prop :=
  ∃ lead word gap, head = lead ++ word ++ gap ∧ Blanks lead ∧ word.map foldCase = keyword ∧
    Blanks gap ∧ gap ≠ []

/-- Further blanks belong to the head. -/
theorem IsHead.append_blanks {keyword head b : Text} (h : IsHead keyword head) (hb : Blanks b) :
    IsHead keyword (head ++ b) := by
  obtain ⟨lead, word, gap, rfl, hlead, hm, hgap, hgne⟩ := h
  exact ⟨lead, word, gap ++ b, by simp, hlead, hm, blanks_append.mpr ⟨hgap, hb⟩, by simp [hgne]⟩

/-- **What it takes for a keyword to head a line**: no blank is left in front of the rest. -/
theorem takeHead?_eq_some_iff {keyword t head rest : Text} (hk : Inked keyword)
    (hne : keyword ≠ []) :
    takeHead? keyword t = some (head, rest) ↔
      IsHead keyword head ∧ t = head ++ rest ∧ trimStart rest = rest := by
  unfold takeHead?
  constructor
  · simp only [List.span_eq_takeWhile_dropWhile, Option.bind_eq_bind, Option.bind_eq_some_iff]
    rintro ⟨⟨word, r⟩, hw, h⟩
    obtain ⟨ht, hm⟩ := takeKeyword?_eq_some.mp hw
    dsimp only at h
    split at h
    · cases h
    · rename_i hgap
      obtain ⟨rfl, rfl⟩ := Prod.mk.inj (Option.some.inj h)
      refine ⟨⟨_, word, _, rfl, blanks_takeWhile t, hm, blanks_takeWhile r, by simpa using hgap⟩,
        ?_, trimStart_trimStart r⟩
      rw [List.append_assoc, List.takeWhile_append_dropWhile, List.append_assoc, ← ht,
        List.takeWhile_append_dropWhile]
  · rintro ⟨⟨lead, word, gap, rfl, hlead, hm, hgap, hgne⟩, rfl, hrest⟩
    have hword := trimStart_inked_append (inked_of_map_foldCase hm hk)
      (ne_nil_of_map_foldCase hm hne) (gap ++ rest)
    have e : lead ++ word ++ gap ++ rest = lead ++ (word ++ (gap ++ rest)) := by simp
    rw [e, hlead.span_append hword]
    dsimp only
    rw [takeKeyword?_eq_some.mpr ⟨rfl, hm⟩, Option.bind_eq_bind, Option.bind_some]
    dsimp only
    rw [hgap.span_append hrest]
    exact if_neg (by simpa using hgne)

/-- The first word of a line with a head is the keyword. -/
theorem IsHead.nextWord_append {keyword head : Text} (h : IsHead keyword head)
    (hk : Inked keyword) (hne : keyword ≠ []) (rest : Text) :
    (nextWord (head ++ rest)).1.map foldCase = keyword := by
  obtain ⟨lead, word, gap, rfl, hlead, hm, hgap, hgne⟩ := h
  rw [List.append_assoc, List.append_assoc, Text.nextWord_append hlead (inked_of_map_foldCase hm hk)
    (ne_nil_of_map_foldCase hm hne) (hgap.atGap_append_of_ne_nil hgne rest)]
  exact hm

/-! ## 6. Names -/

/-- A numeral begins with a digit, after a sign and a point at most. -/
theorem startsNumeric_of_isNumeral {w : Text} (h : isNumeral w = true) :
    startsNumeric w = true := by
  obtain ⟨n, hn⟩ := Option.isSome_iff_exists.mp h
  obtain ⟨exponent, -, hw, hf, hne, -, hb⟩ := parse?_eq_some hn
  have hwhole : ∀ c s r, n.whole = c :: s → (takeSign w).2 = c :: r → startsNumeric w = true := by
    intro c s r hc hr
    have hd : isDigit c = true := hw c (by simp [hc])
    have hdot : c ≠ '.' := ne_of_isDigit hd (by decide)
    unfold startsNumeric
    rw [hr]
    split
    · rename_i e; exact absurd (List.cons.inj e).1 hdot
    · rename_i e; rw [← (List.cons.inj e).1]; exact hd
    · rename_i e; cases e
  cases hc : n.whole with
  | cons c s =>
    rcases hb with hb | ⟨-, hb⟩
    · exact hwhole c s _ hc (by rw [hb, hc]; rfl)
    · exact hwhole c s _ hc (by rw [hb, hc]; rfl)
  | nil =>
    obtain ⟨d, f, hdf⟩ := List.exists_cons_of_ne_nil (hne.resolve_left fun e => e hc)
    rcases hb with hb | ⟨hnil, -⟩
    · unfold startsNumeric
      rw [hb, hc, hdf]
      exact hf d (by simp [hdf])
    · rw [hdf] at hnil
      cases hnil

theorem takeQuoted?_cons_of_ne {c : Char} {t : Text} (hc : c ≠ '"') :
    takeQuoted? (c :: t) = none := by
  unfold takeQuoted?
  split
  · rename_i e; exact absurd (List.cons.inj e).1 hc
  · rfl

/-- No name starts a text whose first word is a number. -/
theorem names_eq_nil {t : Text} (h : isNumeral (nextWord t).1 = true) : names t = [] := by
  have hw := ne_nil_of_isNumeral h
  have hq : takeQuoted? (trimStart t) = none := by
    cases hs : trimStart t with
    | nil => rfl
    | cons c s =>
      refine takeQuoted?_cons_of_ne ?_
      rintro rfl
      have hm : '"' ∈ (nextWord t).1 := by
        rw [nextWord, hs, List.span_eq_takeWhile_dropWhile, List.takeWhile_cons_of_pos (by decide)]
        exact List.mem_cons_self
      rcases numeralChars_of_isNumeral h _ hm with hd | hd
      · exact absurd hd (by decide)
      · exact absurd hd (by decide)
  unfold names
  dsimp only
  rw [hq, show (trimStart t).span isInk = nextWord t from rfl, startsNumeric_of_isNumeral h]
  simp

/-- **A name** stands at the start of a text, leading blanks skipped, and a blank follows it. -/
theorem mem_names {t name rest : Text} (h : (name, rest) ∈ names t) :
    trimStart t = name ++ rest ∧ startsBlank rest = true ∧
      ((∃ s, name = '"' :: s) ∨ Inked name ∧ name ≠ []) := by
  unfold names at h
  dsimp only at h
  obtain ⟨h, hb⟩ := List.mem_filter.mp h
  rcases List.mem_append.mp h with h | h
  · rw [Option.mem_toList] at h
    unfold takeQuoted? at h
    split at h
    · rename_i u hu
      obtain ⟨⟨inside, r⟩, hs, he⟩ := Option.map_eq_some_iff.mp h
      obtain ⟨rfl, rfl⟩ := Prod.mk.inj he
      refine ⟨?_, hb, Or.inl ⟨_, rfl⟩⟩
      rw [hu, splitFirst?_append hs]
      simp
    · cases h
  · split at h
    · cases h
    · rename_i hne
      rw [List.mem_singleton] at h
      rw [List.span_eq_takeWhile_dropWhile] at h hne
      rw [Bool.or_eq_true, not_or, List.isEmpty_iff] at hne
      obtain ⟨rfl, rfl⟩ := Prod.mk.inj h
      refine ⟨List.takeWhile_append_dropWhile.symm, hb, Or.inr ⟨?_, hne.1⟩⟩
      intro c hc
      simpa [isInk] using List.mem_takeWhile_imp hc

theorem not_blanks_of_mem_names {t name rest : Text} (h : (name, rest) ∈ names t) :
    ¬ Blanks name := by
  intro hb
  obtain ⟨-, -, ⟨s, rfl⟩ | ⟨hi, hne⟩⟩ := mem_names h
  · exact absurd (hb '"' List.mem_cons_self) (by decide)
  · exact hi.not_blanks hne hb

end ModelScale
