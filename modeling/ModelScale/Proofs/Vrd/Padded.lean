import ModelScale.Proofs.Vrd.Marker

/-
# Blanks at the end of a line are nothing to a rescale

What a line is recognised as does not depend on blanks at its end.  Words do not reach into them, so
the readers of records, helpers and numbers see the same; only the text after the coordinates of a
line becomes longer (`TripleLine.pad`).  Main statement:

* `classify_append_blanks`: the shape of a line with blanks behind it, and the region at its end.
-/

namespace ModelScale

open Text

/-! ## 1. Words -/

namespace Text

theorem takeKeyword?_append_blanks {keyword b : Text} (hk : Inked keyword) (hb : Blanks b)
    (t : Text) : takeKeyword? keyword (t ++ b) =
      (takeKeyword? keyword t).map fun (word, rest) => (word, rest ++ b) := by
  induction keyword generalizing t with
  | nil => rfl
  | cons k ks ih =>
    cases t with
    | nil =>
      have hnone : takeKeyword? (k :: ks) b = none := by
        refine Option.eq_none_iff_forall_ne_some.mpr ?_
        rintro ⟨word, rest⟩ h
        obtain ⟨rfl, hm⟩ := takeKeyword?_eq_some.mp h
        cases word with
        | nil => cases hm
        | cons c word =>
          have hi := inked_of_map_foldCase hm hk c List.mem_cons_self
          rw [hb c (by simp)] at hi
          cases hi
      rw [List.nil_append, hnone]
      rfl
    | cons c t =>
      rw [List.cons_append, takeKeyword?, takeKeyword?, ih (inked_cons.mp hk).2]
      split
      · cases takeKeyword? ks t <;> rfl
      · rfl

theorem takeWhile_append_of_not_blanks {t : Text} (ht : ¬ Blanks t) (u : Text) :
    (t ++ u).takeWhile isBlank = t.takeWhile isBlank := by
  rcases blanks_or_word t with h | ⟨b, w, r, rfl, hb, hw, hne, -⟩
  · exact absurd h ht
  · obtain ⟨c, w, rfl⟩ := List.exists_cons_of_ne_nil hne
    have hc := (inked_cons.mp hw).1
    rw [List.append_assoc, List.cons_append, List.cons_append, takeWhile_blanks_append hb hc,
      takeWhile_blanks_append hb hc]

theorem lastWord_append_blanks {b : Text} (hb : Blanks b) (t : Text) :
    lastWord (t ++ b) = lastWord t := by
  have hbr : Blanks b.reverse := by
    intro c hc
    exact hb c (List.mem_reverse.mp hc)
  rw [lastWord, lastWord, List.reverse_append, List.dropWhile_append_of_pos hbr]

theorem trailingBlanks_append_blanks {b : Text} (hb : Blanks b) (t : Text) :
    trailingBlanks (t ++ b) = trailingBlanks t ++ b := by
  have hbr : Blanks b.reverse := by
    intro c hc
    exact hb c (List.mem_reverse.mp hc)
  rw [trailingBlanks, trailingBlanks, List.reverse_append, List.takeWhile_append_of_pos hbr,
    List.reverse_append, List.reverse_reverse]

/-- A piece without blanks does not reach into blanks at the end. -/
theorem occurs_append_blanks {piece b : Text} (hi : Inked piece) (hne : piece ≠ []) (hb : Blanks b)
    (t : Text) : occurs piece (t ++ b) = occurs piece t := by
  rw [Bool.eq_iff_iff, occurs_iff, occurs_iff]
  constructor
  · intro h
    cases b with
    | nil => rwa [List.append_nil] at h
    | cons c b =>
      obtain ⟨hc, hb⟩ := blanks_cons.mp hb
      rcases infix_or_of_not_mem h fun hm => absurd (hi c hm) (by simp [hc]) with h | h
      · exact h
      · obtain ⟨d, p, rfl⟩ := List.exists_cons_of_ne_nil hne
        have hd := hb d (h.subset List.mem_cons_self)
        rw [hi d List.mem_cons_self] at hd
        cases hd
  · exact fun h => h.trans (List.prefix_append t b).isInfix

end Text

/-! ## 2. Numbers and names -/

theorem takeNumber?_append_blanks {b : Text} (hb : Blanks b) (t : Text) :
    takeNumber? (t ++ b) = (takeNumber? t).map fun (word, rest) => (word, rest ++ b) := by
  rcases blanks_or_word t with h | ⟨c, w, r, rfl, hc, hw, hne, hr⟩
  · rw [takeNumber?, takeNumber?, nextWord_of_blanks h,
      nextWord_of_blanks (blanks_append.mpr ⟨h, hb⟩)]
    rfl
  · have hrb : AtGap (r ++ b) := hr.append hb.atGap
    have e : c ++ (w ++ r) ++ b = c ++ (w ++ (r ++ b)) := by simp
    rw [e, takeNumber?, takeNumber?, nextWord_append hc hw hne hr, nextWord_append hc hw hne hrb]
    dsimp only
    split <;> rfl

theorem takeTriple?_append_blanks {b : Text} (hb : Blanks b) (t : Text) :
    takeTriple? (t ++ b) = (takeTriple? t).map fun (values, rest) => (values, rest ++ b) := by
  rw [takeTriple?_eq, takeTriple?_eq, takeNumber?_append_blanks hb]
  cases takeNumber? t with
  | none => rfl
  | some p =>
    obtain ⟨x, r⟩ := p
    simp only [Option.map_some, Option.bind_some]
    rw [takeNumber?_append_blanks hb]
    cases takeNumber? r with
    | none => rfl
    | some p =>
      obtain ⟨y, r⟩ := p
      simp only [Option.map_some, Option.bind_some]
      rw [takeNumber?_append_blanks hb]
      cases takeNumber? r <;> rfl

/-- The words of a line say which helper it names. -/
theorem readHelper?_iff_words {line name : Text} :
    readHelper? line = some name ↔
      ∃ w r, words line = w :: name :: r ∧ w.map foldCase = helperTag := by
  rw [readHelper?_eq_some_iff]
  constructor
  · rintro ⟨_, r, ⟨b, w, g, rfl, hb, hw, hg, hgne⟩, rfl, hi, hne, hr⟩
    refine ⟨w, words r, ?_, hw⟩
    rw [List.append_assoc, List.append_assoc]
    exact words_eq_cons_iff.mpr ⟨b, _, rfl, hb, inked_of_map_foldCase hw (by decide),
      ne_nil_of_map_foldCase hw (by decide), hg.atGap_append_of_ne_nil hgne _,
      words_eq_cons_iff.mpr ⟨g, r, rfl, hg, hi, hne, hr, rfl⟩⟩
  · rintro ⟨w, ws, hl, hw⟩
    obtain ⟨b, s, rfl, hb, -, -, hs, hname⟩ := words_eq_cons_iff.mp hl
    obtain ⟨g, r, rfl, hg, hi, hne, hr, -⟩ := words_eq_cons_iff.mp hname
    exact ⟨b ++ w ++ g, r, ⟨b, w, g, rfl, hb, hw, hg, hi.ne_nil_of_atGap_append hne hs⟩,
      by simp, hi, hne, hr⟩

theorem readHelper?_append_blanks {b : Text} (hb : Blanks b) (t : Text) :
    readHelper? (t ++ b) = readHelper? t := by
  refine Option.ext ?_
  intro name
  rw [readHelper?_iff_words, readHelper?_iff_words, words_append_blanks hb]

/-! ## 3. Coordinates -/

namespace TripleLine

/-- The line with blanks at its end. -/
def pad (b : Text) (l : TripleLine) : TripleLine := { l with after := l.after ++ b }

theorem withValues_pad (b : Text) (l : TripleLine) (v : Triple) :
    (l.pad b).withValues v = l.withValues v ++ b := by
  rw [withValues_eq, withValues_eq, pad]
  simp only [List.append_assoc]

theorem readAfterTag?_append_blanks {b t : Text} (hb : Blanks b) (hu : Unbroken (t ++ b))
    (tag : Text) : readAfterTag? tag (t ++ b) = (readAfterTag? tag t).map (pad b) := by
  unfold readAfterTag?
  rw [takeTriple?_append_blanks hb]
  cases h : takeTriple? t with
  | none => rfl
  | some p =>
    obtain ⟨v, r⟩ := p
    obtain ⟨c, d, e, rfl, hv, -, -, -, -, -, hr⟩ := takeTriple?_eq_some h
    have hur : Unbroken (r ++ b) := by
      simp only [unbroken_append] at hu ⊢
      exact ⟨hu.1.2.2.2.2.2.2, hu.2⟩
    have hrb : AtGap (r ++ b) := hr.append hb.atGap
    have hnot : ¬ Blanks (c ++ (v.x ++ (d ++ (v.y ++ (e ++ (v.z ++ r)))))) := by
      intro hbl
      simp only [blanks_append] at hbl
      obtain ⟨a, x, hx⟩ := List.exists_cons_of_ne_nil (Numeral.ne_nil_of_isNumeral hv.1)
      have hm := hbl.2.1 a (by simp [hx])
      rw [Numeral.inked_of_isNumeral hv.1 a (by simp [hx])] at hm
      cases hm
    simp only [Option.map_some, Option.bind_eq_bind, Option.bind_some, Option.pure_def,
      takeWhile_append_of_not_blanks hnot b, tailOfLine?_of_unbroken hur hrb,
      tailOfLine?_of_unbroken (unbroken_append.mp hur).1 hr]
    rfl

theorem restHere?_append_blanks {b t : Text} (hb : Blanks b) (hu : Unbroken (t ++ b)) :
    restHere? (t ++ b) = (restHere? t).map (pad b) := by
  unfold restHere?
  rw [takeKeyword?_append_blanks (by decide) hb]
  cases h : takeKeyword? restTag t with
  | none => rfl
  | some p =>
    obtain ⟨tag, r⟩ := p
    obtain ⟨rfl, -⟩ := takeKeyword?_eq_some.mp h
    rw [List.append_assoc, unbroken_append] at hu
    exact readAfterTag?_append_blanks hb hu.2 tag

theorem readRest?_append_blanks {b t : Text} (hb : Blanks b) (hu : Unbroken (t ++ b)) :
    readRest? (t ++ b) = (readRest? t).map (pad b) := by
  induction t with
  | nil =>
    exact readRest?_eq_none_of_not_mem fun hm => absurd (hb _ hm) (by decide)
  | cons c t ih =>
    have hut := (unbroken_cons.mp hu).2
    rw [List.cons_append, readRest?_cons, readRest?_cons, ← List.cons_append,
      restHere?_append_blanks hb hu, ih hut]
    cases restHere? (c :: t) with
    | some l => rfl
    | none =>
      simp only [Option.map_none, Option.orElse_eq_orElse, Option.orElse_eq_or, Option.none_or]
      split
      · rfl
      · cases readRest? t <;> rfl

theorem readOffset?_append_blanks {b : Text} (hb : Blanks b) (t : Text) :
    readOffset? (t ++ b) = (readOffset? t).map (pad b) := by
  have ht : takeLastTriple? (t ++ b) = takeLastTriple? t := by
    rw [takeLastTriple?, takeLastTriple?, lastWord_append_blanks hb]
  unfold readOffset?
  rw [ht, trailingBlanks_append_blanks hb]
  cases takeLastTriple? t with
  | none => rfl
  | some p =>
    obtain ⟨rest, values⟩ := p
    simp only [Option.bind_eq_bind, Option.bind_some]
    split <;> rfl

end TripleLine

/-! ## 4. Comments -/

/-- A line comment with blanks behind it is that comment. -/
theorem trimStart_append_blanks_iff {b : Text} (hb : Blanks b) {t u : Text} :
    trimStart (t ++ b) = '/' :: '/' :: u ↔ ∃ v, u = v ++ b ∧ trimStart t = '/' :: '/' :: v := by
  have hslash : '/' ∉ b := by
    intro hm
    exact absurd (hb _ hm) (by decide)
  constructor
  · intro h
    have ht : ∃ c ∈ t, isBlank c = false := by
      by_contra hn
      have hbt : Blanks t := by
        intro c hc
        by_contra hi
        exact hn ⟨c, hc, by simpa using hi⟩
      rw [trimStart_of_blanks (blanks_append.mpr ⟨hbt, hb⟩)] at h
      cases h
    obtain ⟨c, hm, hc⟩ := ht
    rw [trimStart_append_of_mem hm hc] at h
    rcases hs : trimStart t with _ | ⟨d, _ | ⟨e, v⟩⟩
    · rw [hs, List.nil_append] at h
      exact absurd (h ▸ List.mem_cons_self) hslash
    · rw [hs] at h
      obtain ⟨-, h⟩ := List.cons.inj h
      exact absurd ((by simpa using h : b = '/' :: u) ▸ List.mem_cons_self) hslash
    · rw [hs] at h
      obtain ⟨rfl, htail⟩ := List.cons.inj h
      obtain ⟨rfl, rfl⟩ := List.cons.inj htail
      exact ⟨v, rfl, rfl⟩
  · rintro ⟨v, rfl, h⟩
    have hs : trimStart t <:+ t := List.dropWhile_suffix isBlank
    have hm : '/' ∈ t := hs.subset (by rw [h]; exact List.mem_cons_self)
    rw [trimStart_append_of_mem hm (by decide), h]
    rfl

theorem commentWords?_eq_some_iff {line : Text} {fields : List Text} :
    commentWords? line = some fields ↔
      ∃ t, trimStart line = '/' :: '/' :: t ∧ words t = fields := by
  unfold commentWords?
  constructor
  · intro h
    split at h
    · rename_i t ht
      exact ⟨t, ht, Option.some.inj h⟩
    · cases h
  · rintro ⟨t, ht, rfl⟩
    rw [ht]
    rfl

theorem commentWords?_append_blanks {b : Text} (hb : Blanks b) (t : Text) :
    commentWords? (t ++ b) = commentWords? t := by
  refine Option.ext ?_
  intro fields
  rw [commentWords?_eq_some_iff, commentWords?_eq_some_iff]
  constructor
  · rintro ⟨u, hu, rfl⟩
    obtain ⟨v, rfl, hv⟩ := (trimStart_append_blanks_iff hb).mp hu
    exact ⟨v, hv, (words_append_blanks hb).symm⟩
  · rintro ⟨v, hv, rfl⟩
    exact ⟨v ++ b, (trimStart_append_blanks_iff hb).mpr ⟨v, rfl, hv⟩, words_append_blanks hb⟩

theorem StoredRest.read?_append_blanks {b : Text} (hb : Blanks b) (t : Text) :
    StoredRest.read? (t ++ b) = StoredRest.read? t := by
  rw [StoredRest.read?, StoredRest.read?, commentWords?_append_blanks hb]

theorem StoredOffset.read?_append_blanks {b : Text} (hb : Blanks b) (t : Text) :
    StoredOffset.read? (t ++ b) = StoredOffset.read? t := by
  rw [StoredOffset.read?, StoredOffset.read?, commentWords?_append_blanks hb]

theorem isSentinel_append_blanks {b : Text} (hb : Blanks b) (t : Text) :
    Baseline.isSentinel {} (t ++ b) = Baseline.isSentinel {} t := by
  have hprefix : ∀ u : Text, Comment.lineOpen.isPrefixOf u = true ↔ ∃ v, u = '/' :: '/' :: v := by
    intro u
    rw [List.isPrefixOf_iff_prefix]
    constructor
    · rintro ⟨v, rfl⟩
      exact ⟨v, rfl⟩
    · rintro ⟨v, rfl⟩
      exact ⟨v, rfl⟩
  have hopen : Comment.lineOpen.isPrefixOf (trimStart (t ++ b)) =
      Comment.lineOpen.isPrefixOf (trimStart t) := by
    rw [Bool.eq_iff_iff, hprefix, hprefix]
    constructor
    · rintro ⟨u, hu⟩
      obtain ⟨v, -, hv⟩ := (trimStart_append_blanks_iff hb).mp hu
      exact ⟨v, hv⟩
    · rintro ⟨v, hv⟩
      exact ⟨v ++ b, (trimStart_append_blanks_iff hb).mpr ⟨v, rfl, hv⟩⟩
  rw [Baseline.isSentinel, Baseline.isSentinel, hopen,
    occurs_append_blanks (by decide) (by decide) hb]

/-! ## 5. Shapes -/

namespace VrdShape

/-- The shape with blanks at the end of its line. -/
def pad (b : Text) : VrdShape → VrdShape
  | rest line => rest (line.pad b)
  | offset line => offset (line.pad b)
  | shape => shape

theorem record?_append_blanks {b : Text} (hb : Blanks b) (t : Text) :
    record? (t ++ b) = record? t := by
  rw [record?, record?, StoredRest.read?_append_blanks hb, StoredOffset.read?_append_blanks hb]

theorem live?_append_blanks {b t : Text} (hb : Blanks b) (hu : Unbroken (t ++ b)) :
    live? (t ++ b) = (live? t).map (pad b) := by
  unfold live?
  rw [readHelper?_append_blanks hb, TripleLine.readRest?_append_blanks hb hu,
    TripleLine.readOffset?_append_blanks hb]
  cases readHelper? t with
  | some name => rfl
  | none =>
    cases TripleLine.readRest? t with
    | some l => rfl
    | none => cases TripleLine.readOffset? t <;> rfl

/-- Records have no coordinates that a rescale writes to. -/
theorem pad_of_record? {line : Text} {shape : VrdShape} (h : record? line = some shape) (b : Text) :
    shape.pad b = shape := by
  rcases record?_cases h with ⟨r, rfl⟩ | ⟨r, rfl⟩ | ⟨f, rfl⟩
  · rfl
  · rfl
  · rfl

end VrdShape

/-- **Blanks at the end of a line** are in the text after its coordinates, and nowhere else. -/
theorem classify_append_blanks {b line : Text} (hb : Blanks b) (hu : Unbroken (line ++ b))
    (g : Region) :
    classify g (line ++ b) = ((classify g line).1.map (VrdShape.pad b), (classify g line).2) := by
  unfold classify
  rw [VrdShape.record?_append_blanks hb]
  cases h : VrdShape.record? line with
  | some shape =>
    dsimp only
    rw [Option.map_some, VrdShape.pad_of_record? h]
  | none =>
    dsimp only
    rw [Comment.inert_append_blanks hb, Comment.advance_append_blanks hb,
      VrdShape.live?_append_blanks hb hu]
    split <;> rfl

end ModelScale
