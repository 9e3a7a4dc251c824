import ModelScale.Proofs.Comment.Scanner
import ModelScale.Proofs.Decimal.Written
import ModelScale.Proofs.Line.Token
import ModelScale.Proofs.Text.Keyword
import ModelScale.Vrd.Rescale

/-
# Rebuilt lines are recognised again

A rescale takes a line apart, puts other coordinates in and joins the pieces
(`TripleLine.withValues`).  The next rescale has to see the same kind of line in the result, with
the same text around the coordinates, in the same comment region.  The line is the coordinates and
what stands around them, so the question is what a reader can make of a line in which one stretch of
coordinates (`Coordinates`) stands for another.  Main statements:

* `readRest?_eq_some`: where a rest position is found, and that it is found there with any other
  coordinates in its place;
* `isSome_readRest?_congr`: no tag of a rest position finds coordinates in a line with a trigger
  just because these changed;
* `isSome_readHelper?_marked`: whether a line opens a helper's section is settled in front of the
  coordinates;
* `classify_withValues_rest`, `classify_withValues_offset`: all of it together.
-/

namespace ModelScale

open Text Numeral

/-! ## 1. Coordinates -/

/-- Three numerals with blanks between each two, and perhaps in front. -/
def Coordinates (t : Text) : Prop :=
  ∃ (v : Triple) (b c d : Text), v.Numerals ∧ Blanks b ∧ Blanks c ∧ c ≠ [] ∧ Blanks d ∧ d ≠ [] ∧
    t = b ++ (v.x ++ (c ++ (v.y ++ (d ++ v.z))))

namespace Coordinates

variable {t : Text}

theorem chars (h : Coordinates t) : ∀ c ∈ t, isBlank c = true ∨ NumeralChar c := by
  obtain ⟨v, b, c, d, ⟨hx, hy, hz⟩, hb, hc, -, hd, -, rfl⟩ := h
  intro e he
  simp only [List.mem_append] at he
  rcases he with he | he | he | he | he | he
  · exact Or.inl (hb e he)
  · exact Or.inr (numeralChars_of_isNumeral hx e he)
  · exact Or.inl (hc e he)
  · exact Or.inr (numeralChars_of_isNumeral hy e he)
  · exact Or.inl (hd e he)
  · exact Or.inr (numeralChars_of_isNumeral hz e he)

/-- A character that is neither blank nor part of a numeral is not among coordinates. -/
theorem not_mem (h : Coordinates t) {c : Char} (hb : isBlank c = false) (hd : isDigit c = false)
    (hn : c ∉ ['+', '-', '.', 'e', 'E']) : c ∉ t := by
  intro hc
  rcases h.chars c hc with hc | hc
  · exact absurd hc (by simp [hb])
  · exact hc.ne hd hn rfl

theorem ne_nil (h : Coordinates t) : t ≠ [] := by
  obtain ⟨v, b, c, d, ⟨hx, -, -⟩, -, -, -, -, -, rfl⟩ := h
  have := ne_nil_of_isNumeral hx
  simp [this]

/-- Coordinates end in a character of a numeral. -/
theorem exists_last (h : Coordinates t) : ∃ s e, t = s ++ [e] ∧ isBlank e = false := by
  obtain ⟨v, b, c, d, ⟨-, -, hz⟩, -, -, -, -, -, rfl⟩ := h
  obtain ⟨s, e, hs⟩ := (List.eq_nil_or_concat v.z).resolve_left (ne_nil_of_isNumeral hz)
  rw [List.concat_eq_append] at hs
  refine ⟨b ++ (v.x ++ (c ++ (v.y ++ (d ++ s)))), e, by simp [hs], ?_⟩
  exact inked_of_isNumeral hz e (by simp [hs])

theorem neutral (h : Coordinates t) : Comment.Neutral t := by
  intro c hc
  constructor
  · rintro rfl; exact h.not_mem (by decide) (by decide) (by decide) hc
  · rintro rfl; exact h.not_mem (by decide) (by decide) (by decide) hc

theorem takeTriple? (h : Coordinates t) :
    ∃ v, ∀ {r : Text}, AtGap r → ModelScale.takeTriple? (t ++ r) = some (v, r) := by
  obtain ⟨v, b, c, d, hv, hb, hc, hcne, hd, hdne, rfl⟩ := h
  refine ⟨v, ?_⟩
  intro r hr
  simp only [List.append_assoc]
  exact takeTriple?_append hv hb hc hcne hd hdne hr

/-- The words of coordinates are three numerals. -/
theorem words (h : Coordinates t) : ∃ v : Triple, v.Numerals ∧ Text.words t = v.toList := by
  obtain ⟨v, b, c, d, hv, hb, hc, hcne, hd, hdne, rfl⟩ := h
  exact ⟨v, hv, words_triple hv hb hc hcne hd hdne⟩

end Coordinates

/-- A numeral, with a blank in front of it where a sign was. -/
def ScaledText (t : Text) : Prop :=
  ∃ u, isNumeral u = true ∧ (t = u ∨ t = ' ' :: u)

/-- Coordinates as a rescale writes them. -/
structure Triple.Scaled (v : Triple) : Prop where
  x : ScaledText v.x
  y : ScaledText v.y
  z : ScaledText v.z

section Coordinatewise

variable {f : Text → Except Fault Text} {v w : Triple}

/-- The same calculation for each coordinate in turn. -/
theorem Triple.each_eq_ok
    (h : (do
      let x ← f v.x
      let y ← f v.y
      let z ← f v.z
      pure (⟨x, y, z⟩ : Triple)) = .ok w) :
    f v.x = .ok w.x ∧ f v.y = .ok w.y ∧ f v.z = .ok w.z := by
  obtain ⟨x, hx, h⟩ := bind_eq_ok.mp h
  obtain ⟨y, hy, h⟩ := bind_eq_ok.mp h
  obtain ⟨z, hz, h⟩ := bind_eq_ok.mp h
  obtain rfl := pure_eq_ok.mp h
  exact ⟨hx, hy, hz⟩

theorem Triple.each_eq_error {fault : Fault}
    (h : (do
      let x ← f v.x
      let y ← f v.y
      let z ← f v.z
      pure (⟨x, y, z⟩ : Triple)) = .error fault) :
    ∃ t ∈ v.toList, f t = .error fault := by
  rcases bind_eq_error.mp h with h | ⟨x, -, h⟩
  · exact ⟨v.x, by simp [toList], h⟩
  rcases bind_eq_error.mp h with h | ⟨y, -, h⟩
  · exact ⟨v.y, by simp [toList], h⟩
  rcases bind_eq_error.mp h with h | ⟨z, -, h⟩
  · exact ⟨v.z, by simp [toList], h⟩
  · exact absurd h pure_ne_error

end Coordinatewise

theorem scaleTriple_steps {v w : Triple} {p : Decimal} (h : scaleTriple v p = .ok w) :
    scaleLiteral v.x (.exact p) none = .ok w.x ∧ scaleLiteral v.y (.exact p) none = .ok w.y ∧
      scaleLiteral v.z (.exact p) none = .ok w.z :=
  Triple.each_eq_ok (f := fun t => scaleLiteral t p none) h

theorem scaleTriple_eq_ok {t v : Triple} {scale : Decimal} (h : scaleTriple t scale = .ok v) :
    v.Scaled := by
  obtain ⟨hx, hy, hz⟩ := scaleTriple_steps h
  exact ⟨scaleLiteral_eq_ok hx, scaleLiteral_eq_ok hy, scaleLiteral_eq_ok hz⟩

theorem ScaledText.exists_blanks {t : Text} (h : ScaledText t) :
    ∃ b u, t = b ++ u ∧ Blanks b ∧ Unbroken b ∧ isNumeral u = true := by
  obtain ⟨u, hu, rfl | rfl⟩ := h
  · exact ⟨[], t, rfl, blanks_nil, unbroken_nil, hu⟩
  · exact ⟨[' '], u, rfl, by simp [isBlank_space], by simp, hu⟩

/-- The coordinates that a rescale writes are coordinates, with a space in front. -/
theorem Triple.Scaled.coordinates {v : Triple} (h : v.Scaled) :
    Coordinates (' ' :: v.joined) ∧ Unbroken (' ' :: v.joined) := by
  obtain ⟨x, y, z⟩ := v
  obtain ⟨b, u, rfl, hb, hbu, hu⟩ := h.x.exists_blanks
  obtain ⟨c, v, rfl, hc, hcu, hv⟩ := h.y.exists_blanks
  obtain ⟨d, w, rfl, hd, hdu, hw⟩ := h.z.exists_blanks
  constructor
  · exact ⟨⟨u, v, w⟩, ' ' :: b, ' ' :: c, ' ' :: d, ⟨hu, hv, hw⟩,
      blanks_cons.mpr ⟨isBlank_space, hb⟩, blanks_cons.mpr ⟨isBlank_space, hc⟩, by simp,
      blanks_cons.mpr ⟨isBlank_space, hd⟩, by simp,
      by simp [Triple.joined, Triple.toList, join]⟩
  · have hn := fun {t : Text} (ht : isNumeral t = true) => unbroken_of_isNumeral ht
    simp [Triple.joined, Triple.toList, join, hbu, hcu, hdu, hn hu, hn hv, hn hw]

/-! ## 2. Rest positions -/

namespace TripleLine

/-- The text around the coordinates is the same, blanks in front of them aside. -/
def SameFrame (l m : TripleLine) : Prop :=
  trimEnd l.before = trimEnd m.before ∧ l.after = m.after

theorem withValues_congr {l m : TripleLine} (h : l.SameFrame m) (v : Triple) :
    l.withValues v = m.withValues v := by
  rw [withValues, withValues, h.1, h.2]

theorem withValues_eq (l : TripleLine) (v : Triple) :
    l.withValues v = trimEnd l.before ++ (' ' :: v.joined ++ l.after) := by
  simp [withValues]

theorem readAfterTag?_eq_some {tag t : Text} {l : TripleLine} (h : readAfterTag? tag t = some l) :
    l.before = tag ++ t.takeWhile isBlank ∧
      ∃ u r, t = u ++ r ∧ Coordinates u ∧ AtGap r ∧ tailOfLine? r = some l.after := by
  unfold readAfterTag? at h
  simp only [Option.bind_eq_bind, Option.bind_eq_some_iff, Option.pure_def,
    Option.some.injEq] at h
  obtain ⟨⟨v, r⟩, ht, after, ha, rfl⟩ := h
  obtain ⟨b, c, d, rfl, hv, hb, hc, hcne, hd, hdne, hr⟩ := takeTriple?_eq_some ht
  exact ⟨rfl, b ++ (v.x ++ (c ++ (v.y ++ (d ++ v.z)))), r, by simp,
    ⟨v, b, c, d, hv, hb, hc, hcne, hd, hdne, rfl⟩, hr, ha⟩

/-- On one line, three numbers behind a tag are all that it takes. -/
theorem isSome_readAfterTag? {t : Text} (hu : Unbroken t) (tag : Text) :
    (readAfterTag? tag t).isSome = (takeTriple? t).isSome := by
  unfold readAfterTag?
  cases h : takeTriple? t with
  | none => rfl
  | some p =>
    obtain ⟨v, r⟩ := p
    obtain ⟨b, c, d, rfl, -, -, -, -, -, -, hr⟩ := takeTriple?_eq_some h
    simp only [unbroken_append] at hu
    have ha := tailOfLine?_of_unbroken hu.2.2.2.2.2.2 hr
    simp [ha]

/-- Coordinates behind a tag are read as they are, whatever the rest of the line is. -/
theorem readAfterTag?_append {u : Text} (hc : Coordinates u) (tag : Text) :
    ∃ v, ∀ {r : Text}, AtGap r → Unbroken r → ∃ l, readAfterTag? tag (u ++ r) = some l ∧
      l.values = v ∧ (∃ gap, Blanks gap ∧ l.before = tag ++ gap) ∧ l.after = r := by
  obtain ⟨v, hv⟩ := hc.takeTriple?
  refine ⟨v, ?_⟩
  intro r hr hu
  unfold readAfterTag?
  rw [hv hr]
  simp only [Option.bind_eq_bind, Option.bind_some, tailOfLine?_of_unbroken hu hr]
  exact ⟨_, rfl, rfl, ⟨_, blanks_takeWhile _, rfl⟩, rfl⟩

/-- A rest position whose tag starts the text. -/
def restHere? (t : Text) : Option TripleLine :=
  (takeKeyword? restTag t).bind fun (tag, rest) => readAfterTag? tag rest

theorem readRest?_cons (c : Char) (t : Text) :
    readRest? (c :: t) = (restHere? (c :: t) <|> if c = '\n' then none
      else (readRest? t).map fun l => { l with before := c :: l.before }) := by
  rw [readRest?, restHere?]

/-- A tag is a word and the character that closes it. -/
theorem restTag_eq : restTag = "<basepos".toList ++ ['>'] := rfl

theorem triggerTag_eq : triggerTag = "<trigger".toList ++ ['>'] := rfl

theorem restHere?_eq_some {t : Text} {l : TripleLine} (h : restHere? t = some l) :
    ∃ w r, t = w ++ '>' :: r ∧ w.map foldCase = "<basepos".toList ∧
      readAfterTag? (w ++ ['>']) r = some l := by
  obtain ⟨⟨tag, r⟩, ht, hr⟩ := Option.bind_eq_some_iff.mp h
  obtain ⟨rfl, hm⟩ := takeKeyword?_eq_some.mp ht
  obtain ⟨w, rfl, hw⟩ := exists_of_map_foldCase_concat (by decide) (restTag_eq ▸ hm)
  exact ⟨w, r, by simp, hw, hr⟩

/-- No tag starts with another character than an angle bracket. -/
theorem restHere?_eq_none_of_ne {c : Char} (hc : c ≠ '<') (t : Text) :
    restHere? (c :: t) = none := by
  have h : takeKeyword? restTag (c :: t) = none :=
    takeKeyword?_eq_none_of_ne (k := '<') (by decide) hc "basepos>".toList t
  rw [restHere?, h]
  rfl

theorem restHere?_append {w : Text} (hw : w.map foldCase = "<basepos".toList) (r : Text) :
    restHere? (w ++ '>' :: r) = readAfterTag? (w ++ ['>']) r := by
  have hm : (w ++ ['>']).map foldCase = restTag := by
    rw [List.map_append, hw]
    rfl
  have ht : takeKeyword? restTag (w ++ '>' :: r) = some (w ++ ['>'], r) :=
    takeKeyword?_eq_some.mpr ⟨by simp, hm⟩
  rw [restHere?, ht]
  rfl

/-- A rest position in front of a tag's end does not depend on what follows it. -/
theorem isSome_restHere?_marked {q t u : Text} (hlen : 9 ≤ q.length) (hq : Unbroken q)
    (ht : Unbroken t) (hu : Unbroken u) :
    (restHere? (q ++ '>' :: t)).isSome = (restHere? (q ++ '>' :: u)).isSome := by
  have himp : ∀ {t u : Text}, Unbroken t → Unbroken u →
      (restHere? (q ++ '>' :: t)).isSome = true → (restHere? (q ++ '>' :: u)).isSome = true := by
    intro t u ht hu h
    obtain ⟨l, h⟩ := Option.isSome_iff_exists.mp h
    obtain ⟨w, r, e, hw, h⟩ := restHere?_eq_some h
    have hwl : (w ++ ['>']).length = 9 := by
      rw [List.length_append, ← List.length_map foldCase, hw]
      rfl
    obtain ⟨s, rfl⟩ : w ++ ['>'] <+: q := by
      have hr : w ++ ['>'] ++ r = q ++ '>' :: t := by
        rw [e]
        simp
      exact List.prefix_of_prefix_length_le ⟨r, hr⟩ (List.prefix_append _ _) (by omega)
    obtain rfl : r = s ++ '>' :: t := by simpa using e.symm
    rw [List.append_assoc, List.append_assoc, List.singleton_append, restHere?_append hw]
    rw [unbroken_append] at hq
    have hs : ∀ {v : Text}, Unbroken v → Unbroken (s ++ '>' :: v) := by
      intro v hv
      exact unbroken_append.mpr ⟨hq.2, unbroken_cons.mpr ⟨by decide, hv⟩⟩
    have hnn : ¬ NumeralChar '>' := by
      intro hn
      exact hn.ne (by decide) (by decide) rfl
    rw [isSome_readAfterTag? (hs hu), ← isSome_takeTriple?_marked (by decide) hnn t u,
      ← isSome_readAfterTag? (hs ht) (w ++ ['>']), h]
    rfl
  rw [Bool.eq_iff_iff]
  exact ⟨himp ht hu, himp hu ht⟩

/-- Text in front of a tag is not trimmed away. -/
theorem trimEnd_cons {t q : Text} {c d : Char} (h : trimEnd t = q ++ [d]) :
    trimEnd (c :: t) = c :: q ++ [d] := by
  have hd : isBlank d = false := by
    rcases trimEnd_eq_nil_or t with h' | ⟨s, e, h', he⟩
    · rw [h'] at h; cases q <;> cases h
    · rw [h'] at h
      obtain ⟨-, h⟩ := List.append_inj' h rfl
      rwa [← (List.cons.inj h).1]
  rw [← trimEnd_append_trailingBlanks t, h, ← List.cons_append,
    trimEnd_append_blanks (blanks_trailingBlanks t), ← List.cons_append]
  exact trimEnd_append_inked (inked_cons.mpr ⟨hd, inked_nil⟩) (by simp)

/-- A rest position that was found and not made up: where its tag closes, and what is found there
when other coordinates stand behind it. -/
structure RestFound (line : Text) (l : TripleLine) (q t : Text) : Prop where
  line_eq : line = q ++ '>' :: (t ++ l.after)
  length_le : 9 ≤ (trimStart (q ++ ['>'])).length
  before : trimEnd l.before = q ++ ['>']
  coordinates : Coordinates t
  atGap : AtGap l.after
  again : ∀ u r, Coordinates u → AtGap r → Unbroken (u ++ r) →
    ∃ m, readRest? (q ++ '>' :: (u ++ r)) = some m ∧ trimEnd m.before = q ++ ['>'] ∧ m.after = r

theorem exists_restFound_of_restHere? {c : Char} {t : Text} {l : TripleLine}
    (hu : Unbroken (c :: t)) (h : restHere? (c :: t) = some l) :
    ∃ q u, RestFound (c :: t) l q u := by
  obtain ⟨w, r, e, hw, hr⟩ := restHere?_eq_some h
  obtain ⟨hb, u, s, rfl, hcu, hs, ha⟩ := readAfterTag?_eq_some hr
  have hi : Inked w := inked_of_map_foldCase hw (by decide)
  have hsu : Unbroken s := by
    rw [e] at hu
    simp only [unbroken_append, unbroken_cons] at hu
    exact hu.2.2.2
  obtain rfl : s = l.after := Option.some.inj ((tailOfLine?_of_unbroken hsu hs).symm.trans ha)
  have hclose : ∀ {gap : Text}, Blanks gap → trimEnd (w ++ ['>'] ++ gap) = w ++ ['>'] := by
    intro gap hg
    rw [trimEnd_append_blanks hg]
    exact trimEnd_append_inked (by decide) (by simp)
  refine ⟨w, u, e, ?_, ?_, hcu, hs, ?_⟩
  · have hlen : (w ++ ['>']).length = 9 := by
      rw [List.length_append, ← List.length_map foldCase, hw]
      rfl
    have hwi : Inked (w ++ ['>']) := inked_append.mpr ⟨hi, by decide⟩
    have := length_le_trimStart_append [] hwi
    rwa [hlen] at this
  · rw [hb]
    exact hclose (blanks_takeWhile _)
  · intro v r hv hg hvu
    obtain ⟨_, happ⟩ := readAfterTag?_append hv (w ++ ['>'])
    obtain ⟨m, hm, -, ⟨gap, hgap, hmb⟩, hma⟩ := happ hg (unbroken_append.mp hvu).2
    refine ⟨m, ?_, by rw [hmb, hclose hgap], hma⟩
    obtain ⟨d, w, rfl⟩ := List.exists_cons_of_ne_nil (ne_nil_of_map_foldCase hw (by decide))
    rw [List.cons_append, readRest?_cons, ← List.cons_append, restHere?_append hw, hm]
    rfl

/-- A rest position behind a character where none begins. -/
theorem RestFound.cons {c : Char} {t q u : Text} {l : TripleLine} (hc : c ≠ '\n')
    (hu : Unbroken t) (hnone : restHere? (c :: t) = none) (h : RestFound t l q u) :
    RestFound (c :: t) { l with before := c :: l.before } (c :: q) u where
  line_eq := congrArg (List.cons c) h.line_eq
  length_le := h.length_le.trans (length_trimStart_le_cons c (q ++ ['>']))
  before := trimEnd_cons h.before
  coordinates := h.coordinates
  atGap := h.atGap
  again := by
    intro v r hv hgr hvu
    obtain ⟨m, hm, hmb, hma⟩ := h.again v r hv hgr hvu
    have hq : 8 ≤ q.length := by
      have hle := (List.dropWhile_sublist isBlank (l := q ++ ['>'])).length_le
      have hlen := h.length_le
      rw [List.length_append, List.length_singleton] at hle
      unfold trimStart at hlen
      omega
    rw [h.line_eq] at hnone hu
    simp only [unbroken_append, unbroken_cons] at hu
    have hnone' : restHere? (c :: (q ++ '>' :: (v ++ r))) = none := by
      have hs := isSome_restHere?_marked (q := c :: q) (Nat.succ_le_succ hq)
        (unbroken_cons.mpr ⟨hc, hu.1⟩) (unbroken_append.mpr hu.2.2) hvu
      rw [List.cons_append, hnone] at hs
      simpa using hs.symm
    refine ⟨{ m with before := c :: m.before }, ?_, trimEnd_cons hmb, hma⟩
    rw [List.cons_append, readRest?_cons, hnone', if_neg hc, hm]
    rfl

/-- **Where a rest position is found**, it is found with any other coordinates. -/
theorem readRest?_eq_some {line : Text} {l : TripleLine} (hu : Unbroken line)
    (h : readRest? line = some l) : ∃ q t, RestFound line l q t := by
  induction line generalizing l with
  | nil => cases h
  | cons c t ih =>
    obtain ⟨hc, htu⟩ := unbroken_cons.mp hu
    rw [readRest?_cons, if_neg hc] at h
    cases hh : restHere? (c :: t) with
    | some l0 =>
      rw [hh] at h
      obtain rfl : l0 = l := Option.some.inj h
      exact exists_restFound_of_restHere? hu hh
    | none =>
      rw [hh] at h
      obtain ⟨l0, hl0, rfl⟩ := Option.map_eq_some_iff.mp h
      obtain ⟨q, u, hfound⟩ := ih htu hl0
      exact ⟨c :: q, u, hfound.cons hc htu hh⟩

/-- The text in front of a rest position is on the line, and holds its tag. -/
theorem readRest?_before {line : Text} {l : TripleLine} (h : readRest? line = some l) :
    l.before <+: line ∧ '>' ∈ l.before := by
  induction line generalizing l with
  | nil => cases h
  | cons c t ih =>
    rw [readRest?_cons] at h
    cases hh : restHere? (c :: t) with
    | some l0 =>
      rw [hh] at h
      obtain rfl : l0 = l := Option.some.inj h
      obtain ⟨w, r, e, -, hr⟩ := restHere?_eq_some hh
      obtain ⟨hb, -⟩ := readAfterTag?_eq_some hr
      rw [hb, e]
      refine ⟨?_, by simp⟩
      rw [List.append_assoc, List.singleton_append]
      exact (List.prefix_append_right_inj w).mpr
        (List.cons_prefix_cons.mpr ⟨rfl, List.takeWhile_prefix _⟩)
    | none =>
      rw [hh] at h
      by_cases hc : c = '\n'
      · rw [if_pos hc] at h; cases h
      · rw [if_neg hc] at h
        obtain ⟨l0, hl0, rfl⟩ := Option.map_eq_some_iff.mp h
        obtain ⟨hp, hm⟩ := ih hl0
        exact ⟨List.cons_prefix_cons.mpr ⟨rfl, hp⟩, List.mem_cons_of_mem c hm⟩

/-! ## 3. Offsets -/

theorem openWithTriple_append {v w : Triple} (hv : v.Numerals) (hw : w.Numerals)
    (ws : List Text) : openWithTriple (ws ++ v.toList) = openWithTriple (ws ++ w.toList) := by
  obtain ⟨hx, hy, hz⟩ := hv
  obtain ⟨hx', hy', hz'⟩ := hw
  match ws with
  | [] | [_] | [_, _] => simp [openWithTriple, Triple.toList, hx, hy, hz, hx', hy', hz']
  | a :: b :: c :: ws => rfl

theorem readRest?_eq_none_of_not_mem {t : Text} (h : '<' ∉ t) : readRest? t = none := by
  induction t with
  | nil => rfl
  | cons c t ih =>
    rw [List.mem_cons, not_or] at h
    rw [readRest?_cons, restHere?_eq_none_of_ne (Ne.symm h.1), ih h.2]
    simp

/-- A word in front of a blank is in front of it as a whole. -/
theorem prefix_of_atGap {w p t r : Text} (hw : Inked w) (ht : AtGap t) (e : p ++ t = w ++ r) :
    w <+: p := by
  rcases List.append_eq_append_iff.mp e with ⟨a, rfl, h⟩ | ⟨a, rfl, -⟩
  · cases a with
    | nil => rw [List.append_nil]
    | cons c a =>
      subst h
      have hc : isBlank c = false := hw c (by simp)
      exact absurd ht (by simp [hc])
  · exact List.prefix_append w a

/-- Coordinates at the end of a line, set off by a blank, are three numerals to a tag in front of
them, whichever they are. -/
theorem isSome_restHere?_of_coordinates {p t u b : Text} (ht : Coordinates t) (hu : Coordinates u)
    (htg : AtGap t) (hug : AtGap u) (hb : Blanks b) (htb : Unbroken (p ++ (t ++ b)))
    (hub : Unbroken (p ++ (u ++ b))) (h : (restHere? (p ++ (t ++ b))).isSome = true) :
    (restHere? (p ++ (u ++ b))).isSome = true := by
  obtain ⟨l, h⟩ := Option.isSome_iff_exists.mp h
  obtain ⟨w, r, e, hw, h⟩ := restHere?_eq_some h
  have hi : Inked (w ++ ['>']) :=
    inked_append.mpr ⟨inked_of_map_foldCase hw (by decide), by decide⟩
  have hgap : ∀ {t : Text}, Coordinates t → AtGap t → AtGap (t ++ b) := by
    intro t hc hg
    obtain ⟨c, t, rfl⟩ := List.exists_cons_of_ne_nil hc.ne_nil
    exact hg
  obtain ⟨s, rfl⟩ : w ++ ['>'] <+: p := by
    refine prefix_of_atGap (r := r) hi (hgap ht htg) ?_
    rw [e]
    simp
  obtain rfl : r = s ++ (t ++ b) := by simpa using e.symm
  have hwords : ∀ {t : Text}, Coordinates t → AtGap t →
      ∃ v : Triple, v.Numerals ∧ words (s ++ (t ++ b)) = words s ++ v.toList := by
    intro t hc hg
    obtain ⟨v, hv, hvw⟩ := hc.words
    refine ⟨v, hv, ?_⟩
    rw [words_append_of_atGap (hgap hc hg), words_append_blanks hb, hvw]
  obtain ⟨v, hv, hvw⟩ := hwords ht htg
  obtain ⟨x, hx, hxw⟩ := hwords hu hug
  have hsub : ∀ {t : Text}, Unbroken (w ++ ['>'] ++ s ++ (t ++ b)) → Unbroken (s ++ (t ++ b)) :=
    fun hs => by
      rw [List.append_assoc, unbroken_append] at hs
      exact hs.2
  have hsome : openWithTriple (words s ++ v.toList) = true := by
    rw [← hvw, ← isSome_takeTriple?, ← isSome_readAfterTag? (hsub htb) (w ++ ['>']), h]
    rfl
  rw [List.append_assoc, List.append_assoc, List.singleton_append, restHere?_append hw,
    isSome_readAfterTag? (hsub hub), isSome_takeTriple?, hxw, ← openWithTriple_append hv hx, hsome]

/-- No tag of a rest position finds coordinates just because those at the end of the line
changed. -/
theorem isSome_readRest?_congr {p t u b : Text} (ht : Coordinates t) (hu : Coordinates u)
    (htg : AtGap t) (hug : AtGap u) (hb : Blanks b) (htb : Unbroken (p ++ (t ++ b)))
    (hub : Unbroken (p ++ (u ++ b))) :
    (readRest? (p ++ (t ++ b))).isSome = (readRest? (p ++ (u ++ b))).isSome := by
  have hno : ∀ {t : Text}, Coordinates t → '<' ∉ t ++ b := by
    intro t h hm
    rcases List.mem_append.mp hm with hm | hm
    · exact h.not_mem (by decide) (by decide) (by decide) hm
    · exact absurd (hb _ hm) (by decide)
  induction p with
  | nil =>
    rw [List.nil_append, List.nil_append, readRest?_eq_none_of_not_mem (hno ht),
      readRest?_eq_none_of_not_mem (hno hu)]
  | cons c p ih =>
    have hhere : (restHere? (c :: p ++ (t ++ b))).isSome =
        (restHere? (c :: p ++ (u ++ b))).isSome := by
      rw [Bool.eq_iff_iff]
      exact ⟨isSome_restHere?_of_coordinates ht hu htg hug hb htb hub,
        isSome_restHere?_of_coordinates hu ht hug htg hb hub htb⟩
    rw [List.cons_append] at htb hub
    obtain ⟨hc, htb⟩ := unbroken_cons.mp htb
    obtain ⟨-, hub⟩ := unbroken_cons.mp hub
    have ih := ih htb hub
    rw [List.cons_append, List.cons_append] at hhere ⊢
    rw [readRest?_cons, readRest?_cons, if_neg hc, if_neg hc]
    simp only [Option.orElse_eq_orElse, Option.orElse_eq_or, Option.isSome_or, hhere,
      Option.isSome_map, ih]

/-- The parts of a line that holds a trigger. -/
theorem readOffset?_eq_some {line : Text} {l : TripleLine} (h : readOffset? line = some l) :
    ∃ t, line = l.before ++ (t ++ l.after) ∧ Coordinates t ∧ AtGap t ∧ Blanks l.after ∧
      trimEnd l.before = l.before ∧ Unbroken l.before ∧
      containsKeyword triggerTag l.before = true := by
  unfold readOffset? at h
  obtain ⟨⟨u, v⟩, ht, h⟩ := Option.bind_eq_some_iff.mp h
  dsimp only at h
  split at h
  · rename_i hk
    rw [Bool.and_eq_true, Bool.not_eq_true'] at hk
    obtain rfl := Option.some.inj h
    obtain ⟨c, d, e, hv, hg, hc, hcne, hd, hdne⟩ := takeLastTriple?_eq_some ht
    have hub : trailingBlanks u ≠ [] := by
      intro hn
      have hu := trimEnd_append_trailingBlanks u
      rw [hn, List.append_nil] at hu
      rcases trimEnd_eq_nil_or u with h' | ⟨s, c, h', hc⟩
      · rw [h'] at hk
        exact absurd hk.2 (by decide)
      · rw [← hu, h', List.reverse_append, List.reverse_singleton, List.singleton_append,
          atGap_cons, hc] at hg
        cases hg
    refine ⟨trailingBlanks u ++ (v.x ++ (c ++ (v.y ++ (d ++ v.z)))), ?_, ?_, ?_,
      blanks_trailingBlanks _, trimEnd_trimEnd u, ?_, hk.2⟩
    · dsimp only
      conv_lhs => rw [e]
      conv_lhs => rw [← trimEnd_append_trailingBlanks u]
      simp
    · exact ⟨v, trailingBlanks u, c, d, hv, blanks_trailingBlanks u, hc, hcne, hd, hdne, rfl⟩
    · obtain ⟨a, r, hr⟩ := List.exists_cons_of_ne_nil hub
      rw [hr]
      exact blanks_trailingBlanks u a (hr ▸ List.mem_cons_self)
    · simpa [Unbroken] using hk.1
  · cases h

/-- The text in front of an offset is on the line, and holds its tag. -/
theorem readOffset?_before {line : Text} {l : TripleLine} (h : readOffset? line = some l) :
    l.before <+: line ∧ '>' ∈ l.before := by
  obtain ⟨t, e, -, -, -, -, -, hk⟩ := readOffset?_eq_some h
  obtain ⟨pre, tag, post, hb, htag⟩ := containsKeyword_iff.mp hk
  obtain ⟨w, rfl, -⟩ := exists_of_map_foldCase_concat (by decide) (triggerTag_eq ▸ htag)
  exact ⟨⟨_, e.symm⟩, by simp [hb]⟩

/-- A trigger with other coordinates at the end of its line is a trigger. -/
theorem readOffset?_append {p t b : Text} (ht : Coordinates t) (hg : AtGap t) (hb : Blanks b)
    (hp : trimEnd p = p) (hu : Unbroken p) (hk : containsKeyword triggerTag p = true) :
    ∃ m, readOffset? (p ++ (t ++ b)) = some m ∧ m.before = p ∧ m.after = b := by
  obtain ⟨v, a, c, d, hv, ha, hc, hcne, hd, hdne, rfl⟩ := ht
  have hane : a ≠ [] := ne_nil_of_atGap_append hv.1 hg
  have e : p ++ (a ++ (v.x ++ (c ++ (v.y ++ (d ++ v.z)))) ++ b) =
      p ++ a ++ v.x ++ c ++ v.y ++ d ++ v.z ++ b := by simp
  have ht : takeLastTriple? (p ++ a ++ v.x ++ c ++ v.y ++ d ++ v.z ++ b) = some (p ++ a, v) :=
    takeLastTriple?_append hv (atGap_reverse_append_blanks ha hane) hc hcne hd hdne hb
  have hz : trailingBlanks (p ++ a ++ v.x ++ c ++ v.y ++ d ++ v.z ++ b) = b := by
    rw [List.append_assoc _ v.z b]
    exact trailingBlanks_append_word _ (inked_of_isNumeral hv.2.2) (ne_nil_of_isNumeral hv.2.2) hb
  rw [e, readOffset?, ht]
  simp only [Option.bind_eq_bind, Option.bind_some, trimEnd_append_blanks ha, hp, hk, hz]
  refine ⟨⟨p, v, b⟩, ?_, rfl, rfl⟩
  simpa [Unbroken] using hu

end TripleLine

/-! ## 4. Helpers -/

/-- **A line that opens a helper's section**: the tag and a gap, the name, and what comes behind. -/
theorem readHelper?_eq_some_iff {line name : Text} :
    readHelper? line = some name ↔
      ∃ head r, IsHead helperTag head ∧ line = head ++ (name ++ r) ∧ Inked name ∧ name ≠ [] ∧
        AtGap r := by
  unfold readHelper?
  rw [Option.bind_eq_bind, Option.bind_eq_some_iff]
  constructor
  · rintro ⟨⟨head, rest⟩, hhead, h⟩
    obtain ⟨hh, hline, -⟩ := (takeHead?_eq_some_iff (by decide) (by decide)).mp hhead
    obtain ⟨gap, hgap, hrest, hi, hr⟩ := exists_gap_nextWord rest
    dsimp only at h
    split at h
    · cases h
    · rename_i hne
      obtain rfl := Option.some.inj h
      refine ⟨head ++ gap, _, hh.append_blanks hgap, ?_, hi, by simpa using hne, hr⟩
      rw [List.append_assoc, ← hrest]
      exact hline
  · rintro ⟨head, r, hh, rfl, hi, hne, hr⟩
    refine ⟨(head, name ++ r), (takeHead?_eq_some_iff (by decide) (by decide)).mpr
      ⟨hh, rfl, trimStart_inked_append hi hne r⟩, ?_⟩
    have hnext : nextWord (name ++ r) = (name, r) := nextWord_append blanks_nil hi hne hr
    simp [hnext, hne]

/-- What it takes for a line to open a helper's section. -/
theorem isSome_readHelper?_iff {line : Text} :
    (readHelper? line).isSome = true ↔
      ∃ w r, trimStart line = w ++ r ∧ w.map foldCase = helperTag ∧ AtGap r ∧ ¬ Blanks r := by
  rw [Option.isSome_iff_exists]
  constructor
  · rintro ⟨name, h⟩
    obtain ⟨_, r, ⟨b, w, g, rfl, hb, hw, hg, hgne⟩, rfl, hi, hne, -⟩ :=
      readHelper?_eq_some_iff.mp h
    have hword := inked_of_map_foldCase hw (by decide)
    refine ⟨w, g ++ (name ++ r), ?_, hw, hg.atGap_append_of_ne_nil hgne _, fun hbl =>
      hi.not_blanks hne (blanks_append.mp (blanks_append.mp hbl).2).1⟩
    rw [List.append_assoc, List.append_assoc, trimStart_append hb]
    exact trimStart_inked_append hword (ne_nil_of_map_foldCase hw (by decide)) _
  · rintro ⟨w, r, hl, hw, hr, hb⟩
    obtain ⟨g, v, s, rfl, hg, hv, hvne, hs⟩ := (blanks_or_word r).resolve_left hb
    refine ⟨v, readHelper?_eq_some_iff.mpr ⟨line.takeWhile isBlank ++ w ++ g, s,
      ⟨_, w, g, rfl, blanks_takeWhile line, hw, hg, hv.ne_nil_of_atGap_append hvne hr⟩, ?_, hv,
      hvne, hs⟩⟩
    rw [List.append_assoc, List.append_assoc, ← hl, takeWhile_append_trimStart]

/-- **Whether a line opens a helper's section is settled in front of a tag's end**, where there are
characters enough. -/
theorem isSome_readHelper?_marked {q : Text} (hlen : 9 ≤ (trimStart (q ++ ['>'])).length)
    (t u : Text) : (readHelper? (q ++ '>' :: t)).isSome = (readHelper? (q ++ '>' :: u)).isSome := by
  have himp : ∀ t u : Text, (readHelper? (q ++ '>' :: t)).isSome = true →
      (readHelper? (q ++ '>' :: u)).isSome = true := by
    intro t u h
    obtain ⟨w, r, hl, hw, hr, -⟩ := isSome_readHelper?_iff.mp h
    have hwl : w.length = 8 := by
      rw [← List.length_map foldCase, hw]
      rfl
    have hnb : isBlank '>' = false := by decide
    obtain ⟨p, hp⟩ := exists_trimStart_append_singleton q hnb
    have ht : ∀ v, trimStart (q ++ '>' :: v) = p ++ '>' :: v := by
      intro v
      rw [show q ++ '>' :: v = (q ++ ['>']) ++ v by simp, trimStart_append_of_mem (by simp) hnb, hp]
      simp
    rw [hp, List.length_append, List.length_singleton] at hlen
    rw [ht] at hl
    obtain ⟨s, rfl⟩ : w <+: p :=
      List.prefix_of_prefix_length_le (hl ▸ List.prefix_append w r) (List.prefix_append _ _)
        (by omega)
    obtain rfl : s ++ '>' :: t = r := by simpa using hl
    refine isSome_readHelper?_iff.mpr ⟨w, s ++ '>' :: u, by rw [ht, List.append_assoc], hw, ?_, ?_⟩
    · cases s with
      | nil => cases hr
      | cons c s => exact hr
    · exact fun hb => absurd (hb '>' (by simp)) (by simp [hnb])
  rw [Bool.eq_iff_iff]
  exact ⟨himp t u, himp u t⟩

/-! ## 5. Whole lines -/

theorem record?_eq_none_of_not_inert {g : Region} {line : Text}
    (h : Comment.inert g line = false) : VrdShape.record? line = none := by
  cases g with
  | block => cases h
  | code =>
    have hw : commentWords? line = none := by
      unfold commentWords?
      split
      · rename_i t ht
        rw [Comment.inert, ht] at h
        cases h
      · rfl
    rw [VrdShape.record?, StoredRest.read?, StoredOffset.read?, hw]
    rfl

/-- A live line without a record is classified by its shape. -/
theorem classify_of_not_inert {g : Region} {line : Text} (h : Comment.inert g line = false) :
    classify g line = (VrdShape.live? line, Comment.advance g line) := by
  rw [classify, record?_eq_none_of_not_inert h]
  simp [h]

/-- The shapes that a rescale writes to. -/
def VrdShape.HasCoordinates : VrdShape → Prop
  | .rest _ | .offset _ => True
  | _ => False

/-- Records are no live shapes. -/
theorem record?_cases {line : Text} {shape : VrdShape} (h : VrdShape.record? line = some shape) :
    (∃ r, shape = .storedRest r) ∨ (∃ r, shape = .storedOffset r) ∨ ∃ f, shape = .unreadable f := by
  unfold VrdShape.record? at h
  rcases hr : StoredRest.read? line with _ | record
  · rw [hr] at h
    rcases ho : StoredOffset.read? line with _ | _ | record
    · rw [ho] at h; cases h
    · rw [ho] at h; cases h; exact Or.inr (Or.inr ⟨_, rfl⟩)
    · rw [ho] at h; cases h; exact Or.inr (Or.inl ⟨_, rfl⟩)
  · rw [hr] at h; cases h; exact Or.inl ⟨_, rfl⟩

/-- A line with coordinates is live. -/
theorem classify_eq_live {g g' : Region} {line : Text} {shape : VrdShape}
    (h : classify g line = (some shape, g')) (hs : shape.HasCoordinates) :
    Comment.inert g line = false ∧ Comment.advance g line = g' ∧
      VrdShape.live? line = some shape := by
  unfold classify at h
  cases hr : VrdShape.record? line with
  | some record =>
    rw [hr] at h
    obtain rfl := Option.some.inj (Prod.mk.inj h).1
    rcases record?_cases hr with ⟨r, rfl⟩ | ⟨r, rfl⟩ | ⟨f, rfl⟩ <;> cases hs
  | none =>
    rw [hr] at h
    obtain ⟨hl, rfl⟩ := Prod.mk.inj h
    cases hi : Comment.inert g line with
    | true => simp [hi] at hl
    | false => exact ⟨rfl, rfl, by simpa [hi] using hl⟩

theorem live?_eq_helper {line name : Text} :
    VrdShape.live? line = some (.helper name) ↔ readHelper? line = some name := by
  unfold VrdShape.live?
  rcases readHelper? line with _ | n
  · rcases TripleLine.readRest? line with _ | m
    · rcases TripleLine.readOffset? line with _ | m <;> simp
    · simp
  · simp

theorem live?_eq_rest {line : Text} {l : TripleLine} :
    VrdShape.live? line = some (.rest l) ↔
      readHelper? line = none ∧ TripleLine.readRest? line = some l := by
  unfold VrdShape.live?
  rcases readHelper? line with _ | n
  · rcases TripleLine.readRest? line with _ | m
    · rcases TripleLine.readOffset? line with _ | m <;> simp
    · simp
  · simp

theorem live?_eq_offset {line : Text} {l : TripleLine} :
    VrdShape.live? line = some (.offset l) ↔
      readHelper? line = none ∧ TripleLine.readRest? line = none ∧
        TripleLine.readOffset? line = some l := by
  unfold VrdShape.live?
  rcases readHelper? line with _ | n
  · rcases TripleLine.readRest? line with _ | m
    · rcases TripleLine.readOffset? line with _ | m <;> simp
    · simp
  · simp

/-- One stretch of coordinates stands for another as far as comments go. -/
theorem advance_swap {t u : Text} (ht : Coordinates t) (hu : Coordinates u) (g : Region)
    (p r : Text) :
    Comment.advance g (p ++ (t ++ r)) = Comment.advance g (p ++ (u ++ r)) := by
  rw [Comment.advance_eq_scan, Comment.advance_eq_scan, Comment.scan_append _ p,
    Comment.scan_append _ p, Comment.scan_swap ht.neutral ht.ne_nil hu.neutral hu.ne_nil]

/-- A rest position with other coordinates is a rest position with the same frame, in the same
place among the comments. -/
theorem classify_withValues_rest {g g' : Region} {line : Text} {l : TripleLine} {v : Triple}
    (hu : Unbroken line) (h : classify g line = (some (.rest l), g')) (hv : v.Scaled) :
    ∃ m, classify g (l.withValues v) = (some (.rest m), g') ∧ m.SameFrame l := by
  obtain ⟨hi, rfl, hl⟩ := classify_eq_live h trivial
  obtain ⟨hh, hr⟩ := live?_eq_rest.mp hl
  obtain ⟨q, t, rfl, hlen, hb, ht, hg, hre⟩ := TripleLine.readRest?_eq_some hu hr
  obtain ⟨hc, hcu⟩ := hv.coordinates
  have hru : Unbroken l.after := by
    simp only [unbroken_append, unbroken_cons] at hu
    exact hu.2.2.2
  obtain ⟨m, hm, hmb, hma⟩ := hre _ l.after hc hg (unbroken_append.mpr ⟨hcu, hru⟩)
  have e : l.withValues v = q ++ '>' :: (' ' :: v.joined ++ l.after) := by
    rw [TripleLine.withValues_eq, hb]
    simp
  have hs : ∀ s : Text, q ++ '>' :: s = (q ++ ['>']) ++ s := by
    intro s
    simp
  have hinert : Comment.inert g (l.withValues v) = false := by
    rw [← hi, e, hs (' ' :: v.joined ++ l.after), hs (t ++ l.after)]
    exact Comment.inert_append_congr (x := '>') (by simp) (by decide) (by decide) g _ _
  have hadv : Comment.advance g (l.withValues v) =
      Comment.advance g (q ++ '>' :: (t ++ l.after)) := by
    rw [e, hs (' ' :: v.joined ++ l.after), hs (t ++ l.after)]
    exact advance_swap hc ht g _ _
  have hhelper : readHelper? (l.withValues v) = none := by
    have hs := isSome_readHelper?_marked hlen (t ++ l.after) (' ' :: v.joined ++ l.after)
    rw [hh, ← e] at hs
    simpa using hs.symm
  refine ⟨m, ?_, hmb.trans hb.symm, hma⟩
  rw [classify_of_not_inert hinert, hadv, live?_eq_rest.mpr ⟨hhelper, e ▸ hm⟩]

/-- An offset with other coordinates is an offset with the same frame, in the same place among the
comments. -/
theorem classify_withValues_offset {g g' : Region} {line : Text} {l : TripleLine} {v : Triple}
    (hu : Unbroken line) (h : classify g line = (some (.offset l), g')) (hv : v.Scaled) :
    ∃ m, classify g (l.withValues v) = (some (.offset m), g') ∧ m.SameFrame l := by
  obtain ⟨hi, rfl, hl⟩ := classify_eq_live h trivial
  obtain ⟨hh, hr, ho⟩ := live?_eq_offset.mp hl
  obtain ⟨t, e, ht, htg, hb, hp, hpu, hk⟩ := TripleLine.readOffset?_eq_some ho
  obtain ⟨hc, hcu⟩ := hv.coordinates
  have hcg : AtGap (' ' :: v.joined) := isBlank_space
  have e' : l.withValues v = l.before ++ (' ' :: v.joined ++ l.after) := by
    rw [TripleLine.withValues_eq, hp]
  have hu' : Unbroken (l.withValues v) := by
    rw [e] at hu
    simp only [unbroken_append] at hu
    rw [e', unbroken_append, unbroken_append]
    exact ⟨hu.1, hcu, hu.2.2⟩
  obtain ⟨m, hm, hmb, hma⟩ := TripleLine.readOffset?_append hc hcg hb hp hpu hk
  -- the tag, up to its end, is what the readers of other shapes get to see of either line
  obtain ⟨pre, tag, post, hpre, htag⟩ := containsKeyword_iff.mp hk
  obtain ⟨w, rfl, hw⟩ := exists_of_map_foldCase_concat (by decide) (TripleLine.triggerTag_eq ▸ htag)
  have hs : ∀ s, l.before ++ s = (pre ++ w) ++ '>' :: (post ++ s) := by
    intro s
    rw [hpre]; simp
  have hlen : 9 ≤ (trimStart (pre ++ w ++ ['>'])).length := by
    have hi : Inked (w ++ ['>']) := inked_of_map_foldCase htag (by decide)
    have := length_le_trimStart_append pre hi
    rw [← List.length_map foldCase, htag, ← List.append_assoc] at this
    exact this
  have hinert : Comment.inert g (l.withValues v) = false := by
    rw [e', ← hi, e]
    exact Comment.inert_append_congr (x := '>') (by simp [hpre]) (by decide) (by decide) g _ _
  have hadv : Comment.advance g (l.withValues v) = Comment.advance g line := by
    rw [e', e]
    exact advance_swap hc ht g _ _
  have hhelper : readHelper? (l.withValues v) = none := by
    have := isSome_readHelper?_marked hlen (post ++ (t ++ l.after))
      (post ++ (' ' :: v.joined ++ l.after))
    rw [← hs, ← hs, ← e, ← e', hh] at this
    simpa using this.symm
  have hrest : TripleLine.readRest? (l.withValues v) = none := by
    have := TripleLine.isSome_readRest?_congr ht hc htg hcg hb (e ▸ hu) (e' ▸ hu')
    rw [← e, ← e', hr] at this
    simpa using this.symm
  refine ⟨m, ?_, by rw [hmb], hma⟩
  rw [classify_of_not_inert hinert, hadv, live?_eq_offset.mpr ⟨hhelper, hrest, e' ▸ hm⟩]

end ModelScale
