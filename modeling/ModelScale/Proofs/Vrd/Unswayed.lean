import ModelScale.Proofs.Comment.Outline
import ModelScale.Proofs.Vrd.Padded
import ModelScale.Proofs.Vrd.Survey

/-
# Comments that sway nothing

A live line is read as a whole, comments included.  What it is read by, though, is a piece of it:
the name of a helper, or a tag and three numbers.  A line is *tame* if that piece stands outside of
its comments.  Main statement:

* `Tame.unswayed`: a tame line is read like its outline, as the same helper or with the same
  coordinates, or as nothing.

So on tame lines it does not matter what the comments hold.  All that has to be seen is that an
outline is not read where the line is not, and that no other piece of it is found first.  The
readers are taken one by one (`readHelper?_outline`, `values_readRest?_outline`,
`values_readOffset?_outline`).  Apart from the name of a helper, what they look for has no slash in
it, so it stands inside or outside of comments as a whole.
-/

namespace ModelScale

open Text Comment

/-! ## 1. Rules for comments -/

/-- Nothing of a text stands in a comment, and no block is open behind it. -/
def Exposed (t : Text) : Prop :=
  outline .code t = t ∧ (scan .code t).region = .code

instance (t : Text) : Decidable (Exposed t) :=
  inferInstanceAs (Decidable (_ ∧ _))

/-- A keyword stands in a text, outside of comments. -/
def keywordOutside (keyword : Text) (s : Scan) : Text → Bool
  | [] => false
  | c :: t =>
    decide s.Outside && (takeKeyword? keyword (c :: t)).isSome ||
      keywordOutside keyword (s.step c) t

/-- The rules that the comments on a line keep to: the text that the line is read by is not in them.
What else they hold is free. -/
structure Tame (line : Text) : Prop where
  /-- No comment reaches into the name of a helper. -/
  name : ∀ name ∈ readHelper? line, Exposed name
  /-- On a line that opens no section, the first tag of a rest position that three numbers follow is
  in no comment. -/
  rest : readHelper? line = none → ∀ l ∈ TripleLine.readRest? line, (scan .code l.before).Outside
  /-- On one without a rest position that ends in three numbers behind the tag of a trigger, those
  numbers are in no comment, and at least one tag in front of them is in none either. -/
  offset : readHelper? line = none → TripleLine.readRest? line = none →
    ∀ l ∈ TripleLine.readOffset? line, (scan .code line).Outside ∧
      keywordOutside TripleLine.triggerTag .code l.before = true

instance (line : Text) : Decidable (Tame line) :=
  decidable_of_iff (_ ∧ _ ∧ _) ⟨fun ⟨h1, h2, h3⟩ => ⟨h1, h2, h3⟩, fun ⟨h1, h2, h3⟩ => ⟨h1, h2, h3⟩⟩

/-- A shape without the text around its coordinates. -/
def VrdShape.bare : VrdShape → VrdShape
  | rest line => rest ⟨[], line.values, []⟩
  | offset line => offset ⟨[], line.values, []⟩
  | shape => shape

/-- The comments of a line have no part in what it is read as: with nothing inside them it is the
same helper, or it has the same coordinates. -/
def Unswayed (line : Text) : Prop :=
  (VrdShape.live? line).map VrdShape.bare =
    (VrdShape.live? (outline .code line)).map VrdShape.bare

/-! ## 2. Helpers -/

theorem slash_not_mem_of_isHead {head : Text} (h : IsHead helperTag head) : '/' ∉ head := by
  obtain ⟨b, w, g, rfl, hb, hw, hg, -⟩ := h
  rw [List.mem_append, List.mem_append, not_or, not_or]
  exact ⟨⟨hb.not_mem isBlank_slash, not_mem_of_map_foldCase hw (by decide)⟩,
    hg.not_mem isBlank_slash⟩

/-- **A name that no comment reaches into is read from the outline.** -/
theorem readHelper?_outline {line : Text} (h : ∀ name ∈ readHelper? line, Exposed name) :
    readHelper? (outline .code line) = readHelper? line := by
  cases hl : readHelper? line with
  | some name =>
    obtain ⟨head, r, hh, rfl, hn, hne, hr⟩ := readHelper?_eq_some_iff.mp hl
    obtain ⟨hout, hreg⟩ := h name hl
    have hname : outline .code (name ++ r) = name ++ outlineFrom (scan .code name) r :=
      (outlineFrom_append _ name r).trans (congrArg (· ++ _) hout)
    rw [outline_append_of_not_mem (slash_not_mem_of_isHead hh), hname]
    exact readHelper?_eq_some_iff.mpr ⟨head, _, hh, rfl, hn, hne, atGap_outlineFrom hreg hr⟩
  | none =>
    by_contra ho
    obtain ⟨name, ho⟩ := Option.ne_none_iff_exists'.mp ho
    obtain ⟨head, r, hh, e, hn, hne, -⟩ := readHelper?_eq_some_iff.mp ho
    obtain ⟨q, rfl, hq⟩ := exists_of_outline_eq_append (slash_not_mem_of_isHead hh) e
    rcases blanks_or_word q with hqb | ⟨c, v, s, rfl, hc, hv, hvne, hs⟩
    · -- the outline of blanks holds no name
      have hout := outline_append_of_not_mem (hqb.not_mem isBlank_slash) []
      rw [outline_nil, List.append_nil, hq] at hout
      exact hn.not_blanks hne (blanks_append.mp (hout ▸ hqb)).1
    · have hread : readHelper? (head ++ (c ++ (v ++ s))) = some v :=
        readHelper?_eq_some_iff.mpr ⟨head ++ c, s, hh.append_blanks hc, by simp, hv, hvne, hs⟩
      rw [hl] at hread
      cases hread

/-! ## 3. Rest positions -/

/-- No more is shown of a character than that character, and a star. -/
theorem unbroken_shown (s : Scan) {c : Char} (hc : c ≠ '\n') : Unbroken (s.shown c) := by
  intro hm
  rcases Scan.mem_shown hm with he | he
  · exact hc he.symm
  · exact absurd he (by decide)

theorem unbroken_outlineFrom {s : Scan} {t : Text} (hu : Unbroken t) :
    Unbroken (outlineFrom s t) := by
  induction t generalizing s with
  | nil => exact unbroken_nil
  | cons c t ih =>
    obtain ⟨hc, hu⟩ := unbroken_cons.mp hu
    exact unbroken_append.mpr ⟨unbroken_shown s hc, ih hu⟩

theorem angle_not_mem_shown (s : Scan) {c : Char} (hc : c ≠ '<') : '<' ∉ s.shown c := by
  intro hm
  rcases Scan.mem_shown hm with he | he
  · exact hc he.symm
  · exact absurd he (by decide)

namespace TripleLine

/-- A rest position is found in text without a slash, whatever the rest of the line is. -/
theorem exists_front_of_restHere? {t : Text} {l : TripleLine} (hu : Unbroken t)
    (h : restHere? t = some l) :
    ∃ w r, t = w ++ r ∧ '/' ∉ w ∧ AtGap r ∧ ∀ {s : Text}, AtGap s → Unbroken s →
      ∃ m, restHere? (w ++ s) = some m ∧ m.values = l.values := by
  obtain ⟨w, t, rfl, hw, h⟩ := restHere?_eq_some h
  obtain ⟨-, u, r, rfl, hc, hr, -⟩ := readAfterTag?_eq_some h
  obtain ⟨v, hv⟩ := readAfterTag?_append hc (w ++ ['>'])
  simp only [unbroken_append, unbroken_cons] at hu
  obtain ⟨m, hm, hmv, -⟩ := hv hr hu.2.2.2
  obtain rfl := Option.some.inj (h.symm.trans hm)
  refine ⟨w ++ '>' :: u, r, by simp, ?_, hr, ?_⟩
  · rw [List.mem_append, List.mem_cons, not_or, not_or]
    exact ⟨not_mem_of_map_foldCase hw (by decide), by decide,
      hc.not_mem (by decide) (by decide) (by decide)⟩
  · intro s hs hsu
    obtain ⟨m, hm, hms, -⟩ := hv hs hsu
    refine ⟨m, ?_, hms.trans hmv.symm⟩
    rw [List.append_assoc, List.cons_append, restHere?_append hw]
    exact hm

theorem values_restHere?_outline {t : Text} (hu : Unbroken t) :
    (restHere? (outline .code t)).map (·.values) = (restHere? t).map (·.values) := by
  have huo : Unbroken (outline .code t) := unbroken_outlineFrom hu
  cases h : restHere? t with
  | some l =>
    obtain ⟨w, r, rfl, hw, hr, hall⟩ := exists_front_of_restHere? hu h
    rw [outline_append_of_not_mem hw] at huo ⊢
    obtain ⟨m, hm, hv⟩ := hall (atGap_outline.mpr hr) (unbroken_append.mp huo).2
    rw [hm]
    exact congrArg some hv
  | none =>
    cases ho : restHere? (outline .code t) with
    | none => rfl
    | some l =>
      obtain ⟨w, x, e, hw, hx, hall⟩ := exists_front_of_restHere? huo ho
      obtain ⟨r, rfl, rfl⟩ := exists_of_outline_eq_append hw e
      obtain ⟨m, hm, -⟩ := hall (atGap_outline.mp hx) (unbroken_append.mp hu).2
      rw [h] at hm
      cases hm

theorem values_readRest?_cons {c : Char} (hc : c ≠ '\n') (t : Text) :
    (readRest? (c :: t)).map (·.values) =
      ((restHere? (c :: t)).map (·.values)).or ((readRest? t).map (·.values)) := by
  rw [readRest?_cons, if_neg hc]
  cases restHere? (c :: t) with
  | some l => rfl
  | none => cases readRest? t <;> rfl

/-- No tag starts in front of the first angle bracket. -/
theorem values_readRest?_append {w : Text} (hw : '<' ∉ w) (hu : Unbroken w) (t : Text) :
    (readRest? (w ++ t)).map (·.values) = (readRest? t).map (·.values) := by
  induction w with
  | nil => rfl
  | cons c w ih =>
    rw [List.mem_cons, not_or] at hw
    obtain ⟨hc, hu⟩ := unbroken_cons.mp hu
    rw [List.cons_append, values_readRest?_cons hc, restHere?_eq_none_of_ne (Ne.symm hw.1),
      ih hw.2 hu]
    rfl

/-- The text in front of a rest position at the start is its tag, and has no slash in it. -/
theorem slash_not_mem_before {t : Text} {l : TripleLine} (h : restHere? t = some l) :
    '/' ∉ l.before := by
  obtain ⟨w, r, rfl, hw, h⟩ := restHere?_eq_some h
  obtain ⟨hb, -⟩ := readAfterTag?_eq_some h
  rw [hb, List.append_assoc, List.mem_append, List.singleton_append, List.mem_cons, not_or, not_or]
  exact ⟨not_mem_of_map_foldCase hw (by decide), by decide,
    (blanks_takeWhile r).not_mem isBlank_slash⟩

/-- No rest position starts in a comment, if the first one does not stand in one. -/
theorem restHere?_eq_none_of_inside {s : Scan} {c : Char} {t : Text} (hs : ¬ s.Outside)
    (h : ∀ l ∈ readRest? (c :: t), (scan s l.before).Outside) : restHere? (c :: t) = none := by
  by_contra hn
  obtain ⟨l, hl⟩ := Option.ne_none_iff_exists'.mp hn
  have hread : readRest? (c :: t) = some l := by
    rw [readRest?_cons, hl]
    rfl
  exact hs (outside_of_scan (slash_not_mem_before hl) (h l hread))

/-- The rest position that is found further on stands where it stands. -/
theorem outside_of_readRest?_cons {s : Scan} {c : Char} {t : Text} (hc : c ≠ '\n')
    (hn : restHere? (c :: t) = none) (h : ∀ l ∈ readRest? (c :: t), (scan s l.before).Outside) :
    ∀ l ∈ readRest? t, (scan (s.step c) l.before).Outside := by
  intro l hl
  refine h { l with before := c :: l.before } ?_
  rw [readRest?_cons, hn, if_neg hc, Option.mem_def.mp hl]
  rfl

/-- A text and its outline from a point of the scan on, by induction on the text.  Only at an angle
bracket something happens: outside of comments the tag is there in both, and inside of one the
condition says that there is none. -/
theorem values_readRest?_outlineFrom {s : Scan} {t : Text} (hu : Unbroken t)
    (h : ∀ l ∈ readRest? t, (scan s l.before).Outside) :
    (readRest? (outlineFrom s t)).map (·.values) = (readRest? t).map (·.values) := by
  induction t generalizing s with
  | nil => rfl
  | cons c t ih =>
    obtain ⟨hc, hut⟩ := unbroken_cons.mp hu
    have hskip : restHere? (c :: t) = none → (readRest? (c :: t)).map (·.values) =
        (readRest? (outlineFrom (s.step c) t)).map (·.values) := by
      intro hn
      rw [ih hut (outside_of_readRest?_cons hc hn h), values_readRest?_cons hc, hn]
      rfl
    by_cases hb : c = '<'
    · subst hb
      by_cases hs : s.Outside
      · have hhere := values_restHere?_outline hu
        rw [outline_cons_of_ne_slash (by decide)] at hhere
        rw [outlineFrom_cons_of_outside hs (by decide) (by decide),
          values_readRest?_cons (by decide), hhere]
        cases hr : restHere? ('<' :: t) with
        | some l => rw [readRest?_cons, hr]; rfl
        | none => rw [hskip hr, step_of_outside hs (by decide) (by decide)]; rfl
      · rw [outlineFrom_cons_of_inside hs (by decide), hskip (restHere?_eq_none_of_inside hs h)]
    · rw [outlineFrom, values_readRest?_append (angle_not_mem_shown s hb) (unbroken_shown s hc),
        hskip (restHere?_eq_none_of_ne hb t)]

/-- **The coordinates of a rest position are read from the outline**, if they are outside of
comments on the line. -/
theorem values_readRest?_outline {line : Text} (hu : Unbroken line)
    (h : ∀ l ∈ readRest? line, (scan .code l.before).Outside) :
    (readRest? (outline .code line)).map (·.values) = (readRest? line).map (·.values) :=
  values_readRest?_outlineFrom hu h

/-! ## 4. Offsets -/

theorem isSome_takeKeyword?_outline {keyword : Text} (hk : foldCase '/' ∉ keyword) (t : Text) :
    (takeKeyword? keyword (outline .code t)).isSome = (takeKeyword? keyword t).isSome := by
  rw [Bool.eq_iff_iff, Option.isSome_iff_exists, Option.isSome_iff_exists]
  constructor
  · rintro ⟨⟨word, x⟩, h⟩
    obtain ⟨e, hw⟩ := takeKeyword?_eq_some.mp h
    obtain ⟨r, rfl, -⟩ := exists_of_outline_eq_append (not_mem_of_map_foldCase hw hk) e
    exact ⟨_, takeKeyword?_eq_some.mpr ⟨rfl, hw⟩⟩
  · rintro ⟨⟨word, r⟩, h⟩
    obtain ⟨rfl, hw⟩ := takeKeyword?_eq_some.mp h
    exact ⟨_, takeKeyword?_eq_some.mpr
      ⟨outline_append_of_not_mem (not_mem_of_map_foldCase hw hk) r, hw⟩⟩

theorem takeKeyword?_triggerTag_of_ne {c : Char} (hc : c ≠ '<') (t : Text) :
    takeKeyword? triggerTag (c :: t) = none :=
  takeKeyword?_eq_none_of_ne (k := '<') (by decide) hc "trigger>".toList t

theorem containsKeyword_append {w : Text} (hw : '<' ∉ w) (t : Text) :
    containsKeyword triggerTag (w ++ t) = containsKeyword triggerTag t := by
  induction w with
  | nil => rfl
  | cons c w ih =>
    rw [List.mem_cons, not_or] at hw
    rw [List.cons_append, containsKeyword, takeKeyword?_triggerTag_of_ne (Ne.symm hw.1), ih hw.2]
    rfl

/-- **The tags of an outline** are those that stand outside of comments. -/
theorem containsKeyword_outlineFrom (s : Scan) (t : Text) :
    containsKeyword triggerTag (outlineFrom s t) = keywordOutside triggerTag s t := by
  induction t generalizing s with
  | nil => rfl
  | cons c t ih =>
    rw [keywordOutside]
    by_cases hb : c = '<'
    · subst hb
      by_cases hs : s.Outside
      · have hstep : s.step '<' = .code := step_of_outside hs (by decide) (by decide)
        have hhere := isSome_takeKeyword?_outline (by decide : foldCase '/' ∉ triggerTag) ('<' :: t)
        rw [outline_cons_of_ne_slash (by decide)] at hhere
        rw [outlineFrom_cons_of_outside hs (by decide) (by decide), containsKeyword, hhere,
          decide_eq_true hs, Bool.true_and, hstep, ← ih]
        rfl
      · rw [outlineFrom_cons_of_inside hs (by decide), ih, decide_eq_false hs, Bool.false_and,
          Bool.false_or]
    · rw [outlineFrom, containsKeyword_append (angle_not_mem_shown s hb), ih,
        takeKeyword?_triggerTag_of_ne hb, Option.isSome_none, Bool.and_false, Bool.false_or]

theorem containsKeyword_of_keywordOutside {keyword : Text} {s : Scan} {t : Text}
    (h : keywordOutside keyword s t = true) : containsKeyword keyword t = true := by
  induction t generalizing s with
  | nil => cases h
  | cons c t ih =>
    rw [keywordOutside, Bool.or_eq_true, Bool.and_eq_true] at h
    rw [containsKeyword, Bool.or_eq_true]
    exact h.imp And.right ih

/-- A tag stands where it stood if there is more text behind it. -/
theorem keywordOutside_append {keyword : Text} {s : Scan} {t : Text}
    (h : keywordOutside keyword s t = true) (u : Text) :
    keywordOutside keyword s (t ++ u) = true := by
  induction t generalizing s with
  | nil => cases h
  | cons c t ih =>
    rw [keywordOutside, Bool.or_eq_true, Bool.and_eq_true] at h
    rw [List.cons_append, keywordOutside, Bool.or_eq_true, Bool.and_eq_true]
    refine h.imp (And.imp_right fun hk => ?_) ih
    obtain ⟨⟨word, r⟩, hk⟩ := Option.isSome_iff_exists.mp hk
    obtain ⟨e, hw⟩ := takeKeyword?_eq_some.mp hk
    exact Option.isSome_iff_exists.mpr ⟨(word, r ++ u), takeKeyword?_eq_some.mpr
      ⟨by rw [← List.cons_append, e, List.append_assoc], hw⟩⟩

/-- Whether a word occurs does not depend on blanks at the end. -/
theorem containsKeyword_trimEnd {keyword : Text} (hi : Inked keyword) (hne : keyword ≠ [])
    (t : Text) : containsKeyword keyword (trimEnd t) = containsKeyword keyword t := by
  rw [Bool.eq_iff_iff, containsKeyword_iff, containsKeyword_iff]
  constructor
  · rintro ⟨pre, word, rest, e, hw⟩
    refine ⟨pre, word, rest ++ trailingBlanks t, ?_, hw⟩
    conv_lhs => rw [← trimEnd_append_trailingBlanks t, e]
    simp
  · rintro ⟨pre, word, rest, rfl, hw⟩
    refine ⟨pre, word, trimEnd rest, trimEnd_append_word pre (inked_of_map_foldCase hw hi) ?_ rest,
      hw⟩
    rintro rfl
    exact hne hw.symm

theorem prefix_of_takeLastTriple? {t u : Text} {v : Triple} (h : takeLastTriple? t = some (u, v)) :
    u <+: t := by
  obtain ⟨b, c, e, -⟩ := takeLastTriple?_eq_some h
  rw [e]
  simp only [List.append_assoc, List.prefix_append]

/-- A trigger is a line whose last three words are numbers, with a tag in front of them. -/
theorem readOffset?_of_takeLastTriple? {line u : Text} {v : Triple} (hu : Unbroken line)
    (h : takeLastTriple? line = some (u, v)) :
    readOffset? line = if containsKeyword triggerTag u then
      some ⟨trimEnd u, v, trailingBlanks line⟩ else none := by
  obtain ⟨r, hr⟩ := prefix_of_takeLastTriple? h
  have hn : (trimEnd u).contains '\n' = false := by
    rw [← hr, ← trimEnd_append_trailingBlanks u] at hu
    simpa [Unbroken] using (unbroken_append.mp (unbroken_append.mp hu).1).1
  have hk := containsKeyword_trimEnd (by decide : Inked triggerTag) (by decide) u
  unfold readOffset?
  simp only [h, Option.bind_eq_bind, Option.bind_some, hn, hk, Bool.not_false, Bool.true_and,
    Option.pure_def]

theorem values_readOffset? {line : Text} (hu : Unbroken line) :
    (readOffset? line).map (·.values) =
      (takeLastTriple? line).bind fun p =>
        if containsKeyword triggerTag p.1 then some p.2 else none := by
  cases h : takeLastTriple? line with
  | none =>
    unfold readOffset?
    rw [h]
    rfl
  | some p =>
    rw [readOffset?_of_takeLastTriple? hu h, Option.bind_some]
    split <;> rfl

/-- The last three numbers of a line that ends outside of comments are those of its outline. -/
theorem takeLastTriple?_outline_of_outside {line : Text} (h : (scan .code line).Outside) :
    takeLastTriple? (outline .code line) =
      (takeLastTriple? line).map fun p => (outline .code p.1, p.2) := by
  have htail : ∀ {v : Triple} {b c d : Text}, v.Numerals → Blanks b → Blanks c → Blanks d →
      '/' ∉ v.x ++ (b ++ (v.y ++ (c ++ (v.z ++ d)))) := by
    intro v b c d hv hb hc hd
    have hnum : ∀ {t : Text}, isNumeral t = true → '/' ∉ t := fun ht hm =>
      (Numeral.numeralChars_of_isNumeral ht _ hm).ne (by decide) (by decide) rfl
    simp only [List.mem_append, not_or]
    exact ⟨hnum hv.1, hb.not_mem isBlank_slash, hnum hv.2.1, hc.not_mem isBlank_slash,
      hnum hv.2.2, hd.not_mem isBlank_slash⟩
  have hassoc : ∀ (u : Text) (v : Triple) (b c d : Text), u ++ v.x ++ b ++ v.y ++ c ++ v.z ++ d =
      u ++ (v.x ++ (b ++ (v.y ++ (c ++ (v.z ++ d))))) := by
    intro u v b c d
    simp
  cases hl : takeLastTriple? line with
  | some p =>
    obtain ⟨u, v⟩ := p
    obtain ⟨b, c, e, hv, hg, hb, hbne, hc, hcne⟩ := takeLastTriple?_eq_some hl
    rw [hassoc] at e
    have hw := htail hv hb hc (blanks_trailingBlanks line)
    rw [e] at h
    obtain ⟨hu, hout⟩ := outlineFrom_append_of_outside hw h
    have ho : outline .code line = outline .code u ++
        (v.x ++ (b ++ (v.y ++ (c ++ (v.z ++ trailingBlanks line))))) := (congrArg _ e).trans hout
    rw [ho, ← hassoc]
    exact takeLastTriple?_append hv ((atGap_reverse_outlineFrom hu).mpr hg) hb hbne hc hcne
      (blanks_trailingBlanks line)
  | none =>
    by_contra ho
    obtain ⟨⟨x, v⟩, ho⟩ := Option.ne_none_iff_exists'.mp ho
    obtain ⟨b, c, e, hv, hg, hb, hbne, hc, hcne⟩ := takeLastTriple?_eq_some ho
    rw [hassoc] at e
    have hw := htail hv hb hc (blanks_trailingBlanks (outline .code line))
    obtain ⟨u, hline, rfl⟩ := exists_of_outlineFrom_eq_append hw h e
    rw [hline] at h
    have hu := (outlineFrom_append_of_outside hw h).1
    have hread := takeLastTriple?_append hv ((atGap_reverse_outlineFrom hu).mp hg) hb hbne hc hcne
      (blanks_trailingBlanks (outline .code line))
    rw [hassoc, ← hline, hl] at hread
    cases hread

/-- A line that ends in a comment has no numbers at the end of its outline. -/
theorem takeLastTriple?_outline_of_not_outside {line : Text} (h : ¬ (scan .code line).Outside) :
    takeLastTriple? (outline .code line) = none := by
  obtain ⟨x, d, hx, hd⟩ := exists_delimiter_of_not_outside (s := .code) trivial h
  by_contra ho
  obtain ⟨⟨u, v⟩, ho⟩ := Option.ne_none_iff_exists'.mp ho
  obtain ⟨b, c, e, hv, -⟩ := takeLastTriple?_eq_some ho
  have hmem : d ∈ v.z ++ trailingBlanks (outline .code line) := by
    rcases List.eq_nil_or_concat (v.z ++ trailingBlanks (outline .code line)) with hnil | ⟨q, f, hq⟩
    · exact absurd (List.append_eq_nil_iff.mp hnil).1 (Numeral.ne_nil_of_isNumeral hv.2.2)
    · rw [List.append_assoc, hq, List.concat_eq_append, ← List.append_assoc] at e
      obtain ⟨-, hf⟩ := List.append_inj' (hx.symm.trans e) rfl
      rw [hq, (List.cons.inj hf).1]
      simp
  rcases List.mem_append.mp hmem with hm | hm
  · have hn := Numeral.numeralChars_of_isNumeral hv.2.2 d hm
    rcases hd with rfl | rfl
    · exact hn.ne (by decide) (by decide) rfl
    · exact hn.ne (by decide) (by decide) rfl
  · have hb := blanks_trailingBlanks (outline .code line) d hm
    rcases hd with rfl | rfl <;> exact absurd hb (by decide)

/-- **The coordinates of a trigger are read from the outline**, if they are outside of comments on
the line, and so is a tag in front of them. -/
theorem values_readOffset?_outline {line : Text} (hu : Unbroken line)
    (h : ∀ l ∈ readOffset? line, (scan .code line).Outside ∧
      keywordOutside triggerTag .code l.before = true) :
    (readOffset? (outline .code line)).map (·.values) = (readOffset? line).map (·.values) := by
  have huo : Unbroken (outline .code line) := unbroken_outlineFrom hu
  rw [values_readOffset? huo]
  by_cases ho : (scan .code line).Outside
  · rw [values_readOffset? hu, takeLastTriple?_outline_of_outside ho, Option.bind_map]
    refine Option.bind_congr ?_
    rintro ⟨u, v⟩ hp
    have hk : containsKeyword triggerTag (outline .code u) = containsKeyword triggerTag u := by
      rw [Bool.eq_iff_iff, outline, containsKeyword_outlineFrom]
      refine ⟨containsKeyword_of_keywordOutside, fun hk => ?_⟩
      have hread := readOffset?_of_takeLastTriple? hu hp
      rw [if_pos hk] at hread
      have happ := keywordOutside_append (h _ hread).2 (trailingBlanks u)
      rwa [trimEnd_append_trailingBlanks] at happ
    exact if_congr (by rw [hk]) rfl rfl
  · have hnone : readOffset? line = none :=
      Option.eq_none_iff_forall_not_mem.mpr fun l hl => ho (h l hl).1
    rw [takeLastTriple?_outline_of_not_outside ho, hnone]
    rfl

end TripleLine

/-! ## 5. Tame lines -/

theorem bare_live? (line : Text) :
    (VrdShape.live? line).map VrdShape.bare =
      ((readHelper? line).map VrdShape.helper).or
        ((((TripleLine.readRest? line).map (·.values)).map fun v => VrdShape.rest ⟨[], v, []⟩).or
          (((TripleLine.readOffset? line).map (·.values)).map fun v =>
            VrdShape.offset ⟨[], v, []⟩)) := by
  unfold VrdShape.live?
  cases readHelper? line with
  | some name => rfl
  | none =>
    cases TripleLine.readRest? line with
    | some l => rfl
    | none => cases TripleLine.readOffset? line <;> rfl

/-- **The comments of a tame line do not sway what it is read as.** -/
theorem Tame.unswayed {line : Text} (h : Tame line) (hu : Unbroken line) : Unswayed line := by
  rw [Unswayed, bare_live?, bare_live?, readHelper?_outline h.name]
  cases hn : readHelper? line with
  | some name => rw [Option.map_some, Option.some_or, Option.some_or]
  | none =>
    rw [TripleLine.values_readRest?_outline hu (h.rest hn)]
    cases hr : TripleLine.readRest? line with
    | some l => simp only [Option.map_some, Option.some_or]
    | none => rw [TripleLine.values_readOffset?_outline hu (h.offset hn hr)]

/-- A comment behind the coordinates may repeat them, but it must not supply them. -/
example : Tame "<basepos> 2 0 4 // was <basepos> 3 0 4".toList ∧
    ¬ Tame "<display> 1 1 1 // <basepos> 3 0 4".toList ∧
    ¬ Tame "<trigger> 90 0 0 0 // at 1 1 1".toList ∧ ¬ Tame "<helper> h//old".toList := by
  decide +kernel

end ModelScale
