import ModelScale.Proofs.Line.Pattern
import ModelScale.Proofs.Vrd.Restored

/-
# The patterns of coordinates accept tokens

A rest position and an offset each have a pattern (`restPattern`, `offsetPattern`).  A matcher that
backtracks can fit it to a line in many ways: a tag may stand on the line more than once, the text
and the blanks around it can be divided differently among the repetitions, and the beginnings of a
numeral are numerals (`recognizes_numeral`).  The readers do not backtrack; they go from tag to tag
and from word to word.  On every line both come to the same, and what is accepted can be said in
terms of words:

* `fits_triple_iff`: however the repetitions share out the text, the numbers are whole words;
* `read?_restPattern`, `read?_offsetPattern`: the first way of a pattern keeps what the reader
  returns.  For a rest position all ways behind one tag keep the same, and the tag is the first one
  that works out; for an offset all ways agree but for blanks, and these are left out because the
  repetition behind the tag takes the least;
* `patterns_accept_exactly_tokens`: which lines are accepted, and what is kept of them.
-/

namespace ModelScale

open Text Text.Regex

namespace TripleLine

/-! ## 1. The pattern of a rest position -/

/-- The parts of a line in order. -/
def parts (l : TripleLine) : List Text := l.before :: (l.values.toList ++ [l.after])

/-- Behind the gap of a rest position: three numbers, then nothing or a blank and the rest of the
line. -/
def restTail : Regex :=
  chain [group numeral, blanks, group numeral, blanks, group numeral, group tailOfLine, lineEnd]

/-- The pattern of a rest position: `(.*?<basepos>\s*)`, the numbers and the rest of the line. -/
def restPattern : Regex :=
  seq (group (chain [least onLine, keyword restTag, most isBlank])) restTail

/-- On one line, what follows the last field is all that is left of the line. -/
theorem fits_tailOfLine_iff {t : Text} (hu : Unbroken t) {kept : List Text} :
    (seq (group tailOfLine) lineEnd).Fits t kept ↔ AtGap t ∧ kept = [t] := by
  rw [fits_group_seq_iff recognizes_tailOfLine]
  constructor
  · rintro ⟨s, u, r, rfl, ⟨hg, -⟩, hend, rfl⟩
    obtain ⟨rfl, rfl⟩ := (fits_lineEnd_iff (unbroken_append.mp hu).2).mp hend
    rw [List.append_nil]
    exact ⟨hg, rfl⟩
  · rintro ⟨hg, rfl⟩
    refine ⟨t, [], [], by simp, ⟨hg, ?_⟩, (fits_lineEnd_iff (by simp)).mpr ⟨rfl, rfl⟩, rfl⟩
    exact fun hn => hu (List.mem_of_mem_tail hn)

/-- A rest position whose tag starts the text. -/
theorem restHere?_eq_some_iff {t : Text} (ht : Unbroken t) {l : TripleLine} :
    restHere? t = some l ↔
      ∃ tag gap u, t = tag ++ (gap ++ u) ∧ tag.map foldCase = restTag ∧ Blanks gap ∧
        l.before = tag ++ gap ∧ l.values.Numerals ∧ l.values.Opens l.after u ∧ AtGap l.after := by
  constructor
  · intro h
    obtain ⟨⟨tag, post⟩, htag, h⟩ := Option.bind_eq_some_iff.mp h
    obtain ⟨⟨v, r⟩, hv, h⟩ := Option.bind_eq_some_iff.mp h
    obtain ⟨after, ha, h⟩ := Option.bind_eq_some_iff.mp h
    obtain rfl := Option.some.inj h
    obtain ⟨rfl, hm⟩ := takeKeyword?_eq_some.mp htag
    obtain ⟨gap, u, rfl, hgap, hn, hopen, hr⟩ := takeTriple?_eq_some_iff.mp hv
    have hu : Unbroken u := (unbroken_append.mp (unbroken_append.mp ht).2).2
    rw [tailOfLine?_of_unbroken (hopen.unbroken hu) hr] at ha
    obtain rfl := Option.some.inj ha
    exact ⟨tag, gap, u, rfl, hm, hgap, by rw [hopen.takeWhile_gap hn hgap], hn, hopen, hr⟩
  · rintro ⟨tag, gap, u, rfl, hm, hgap, hbefore, hn, hopen, hr⟩
    have hu : Unbroken u := (unbroken_append.mp (unbroken_append.mp ht).2).2
    have htriple := takeTriple?_eq_some_iff.mpr ⟨gap, u, rfl, hgap, hn, hopen, hr⟩
    have htail := tailOfLine?_of_unbroken (hopen.unbroken hu) hr
    rw [restHere?, takeKeyword?_eq_some.mpr ⟨rfl, hm⟩, Option.bind_some]
    simp only [readAfterTag?, htriple, htail, hopen.takeWhile_gap hn hgap, ← hbefore,
      Option.bind_eq_bind, Option.bind_some, Option.pure_def]

/-- The pattern of a rest position whose tag starts the text. -/
def herePattern : Regex := seq (group (chain [keyword restTag, most isBlank])) restTail

/-- The numbers are the first words behind the tag, whatever the repetitions do. -/
theorem fits_herePattern_iff {t : Text} (ht : Unbroken t) {kept : List Text} :
    herePattern.Fits t kept ↔ ∃ l, restHere? t = some l ∧ kept = l.parts := by
  have htag := (recognizes_keyword restTag).seq (recognizes_most (p := isBlank))
  simp only [restHere?_eq_some_iff ht]
  refine (fits_group_seq_iff htag).trans ?_
  constructor
  · rintro ⟨-, u, r, rfl, ⟨tag, gap, rfl, hm, hgap⟩, hfits, rfl⟩
    obtain ⟨v, after, r, hn, hopen, hend, rfl⟩ := fits_triple_iff.mp hfits
    have hu := hopen.unbroken (unbroken_append.mp ht).2
    obtain ⟨hr, rfl⟩ := (fits_tailOfLine_iff hu).mp hend
    exact ⟨⟨tag ++ gap, v, after⟩, ⟨tag, gap, u, by simp, hm, hgap, rfl, hn, hopen, hr⟩, rfl⟩
  · rintro ⟨⟨-, v, after⟩, ⟨tag, gap, u, rfl, hm, hgap, rfl, hn, hopen, hr⟩, rfl⟩
    have hu := hopen.unbroken (unbroken_append.mp (unbroken_append.mp ht).2).2
    have hend := (fits_tailOfLine_iff hu).mpr ⟨hr, rfl⟩
    exact ⟨tag ++ gap, u, _, by simp, ⟨tag, gap, rfl, hm, hgap⟩,
      fits_triple_iff.mpr ⟨v, after, [after], hn, hopen, hend, rfl⟩, rfl⟩

/-- The line with more text in front of it. -/
def behind (s : Text) (l : TripleLine) : TripleLine := { l with before := s ++ l.before }

/-- A rest position is found behind the shortest text that leaves one at the start of what
follows. -/
theorem readRest?_eq_findSome? (line : Text) :
    readRest? line = (splits onLine line).findSome? fun x => (restHere? x.2).map (behind x.1) := by
  induction line with
  | nil => rfl
  | cons c t ih =>
    rw [readRest?_cons, splits, List.findSome?_cons]
    cases restHere? (c :: t) with
    | some l => rfl
    | none =>
      by_cases hc : c = '\n'
      · rw [if_pos hc, if_neg (by simp [onLine, hc])]
        rfl
      · rw [if_neg hc, if_pos (by simp [onLine, hc]), ih, List.findSome?_map, List.map_findSome?]
        simp only [Function.comp_def, Option.map_map]
        rfl

/-- **The pattern of a rest position keeps what the reader returns.** -/
theorem read?_restPattern {line : Text} (hu : Unbroken line) :
    restPattern.read? line = (readRest? line).map parts := by
  have hhere : ∀ x ∈ splits onLine line,
      (herePattern.read? x.2).map (List.modifyHead (x.1 ++ ·)) =
        ((restHere? x.2).map (behind x.1)).map parts := by
    intro x hx
    obtain ⟨e, -⟩ := mem_splits.mp hx
    rw [e] at hu
    rw [read?_eq_map fun kept => fits_herePattern_iff (unbroken_append.mp hu).2]
    simp only [Option.map_map]
    rfl
  rw [readRest?_eq_findSome?, List.map_findSome?]
  refine (read?_least_group_seq _ _ onLine line).trans ?_
  rw [← List.head?_filterMap, ← List.head?_filterMap]
  exact congrArg List.head? (List.filterMap_congr hhere)

/-! ## 2. The pattern of an offset -/

/-- Behind the text that holds the tag of an offset: blanks, three numbers and nothing but blanks
up to the end of the line. -/
def offsetTail : Regex :=
  chain [blanks, group numeral, blanks, group numeral, blanks, group numeral, group (most isBlank),
    lineEnd]

/-- The pattern of an offset: `(.*<trigger>.*?)`, blanks, the numbers and the end of the line. -/
def offsetPattern : Regex :=
  seq (group (seq (seq (most onLine) (keyword triggerTag)) (least onLine))) offsetTail

theorem fits_offsetTail_iff {t : Text} (ht : Unbroken t) {kept : List Text} :
    offsetTail.Fits t kept ↔
      ∃ (gap u : Text) (v : Triple) (after : Text), t = gap ++ u ∧ Blanks gap ∧ gap ≠ [] ∧
        v.Numerals ∧ v.Opens after u ∧ Blanks after ∧ kept = v.toList ++ [after] := by
  refine (fits_seq_iff recognizes_blanks).trans ?_
  constructor
  · rintro ⟨gap, u, rfl, ⟨hgap, hne⟩, hfits⟩
    obtain ⟨v, t, r, hn, hopen, hblank, rfl⟩ := fits_triple_iff.mp hfits
    have hu := hopen.unbroken (unbroken_append.mp ht).2
    obtain ⟨after, rest, r, rfl, hb, hend, rfl⟩ := (fits_group_seq_iff recognizes_most).mp hblank
    obtain ⟨rfl, rfl⟩ := (fits_lineEnd_iff (unbroken_append.mp hu).2).mp hend
    rw [List.append_nil] at hopen
    exact ⟨gap, u, v, after, rfl, hgap, hne, hn, hopen, hb, rfl⟩
  · rintro ⟨gap, u, v, after, rfl, hgap, hne, hn, hopen, hb, rfl⟩
    have hend : (seq (group (most isBlank)) lineEnd).Fits after [after] :=
      (fits_group_seq_iff recognizes_most).mpr
        ⟨after, [], [], by simp, hb, (fits_lineEnd_iff (by simp)).mpr ⟨rfl, rfl⟩, rfl⟩
    exact ⟨gap, u, rfl, ⟨hgap, hne⟩, fits_triple_iff.mpr ⟨v, after, [after], hn, hopen, hend, rfl⟩⟩

/-- A line that ends in three numbers. -/
theorem reads_of_opens {before gap u after : Text} {v : Triple} (hn : v.Numerals)
    (hgap : Blanks gap) (hopen : v.Opens after u) (hb : trimEnd before = before) :
    Reads ⟨before, v, after⟩ (before ++ (gap ++ u)) := by
  obtain ⟨b, c, rfl, hbl, hbne, hc, hcne⟩ := hopen
  exact ⟨hn, gap ++ (v.x ++ (b ++ (v.y ++ (c ++ v.z)))), by simp [hb],
    words_triple hn hgap hbl hbne hc hcne⟩

theorem readOffset?_eq_some_iff {line : Text} {l : TripleLine} :
    readOffset? line = some l ↔
      ∃ gap u, line = l.before ++ (gap ++ u) ∧ Blanks gap ∧ gap ≠ [] ∧ l.values.Numerals ∧
        l.values.Opens l.after u ∧ Blanks l.after ∧ trimEnd l.before = l.before ∧
        Unbroken l.before ∧ containsKeyword triggerTag l.before = true := by
  constructor
  · intro h
    obtain ⟨t, rfl, ⟨v, gap, b, c, hv, hgap, hb, hbne, hc, hcne, rfl⟩, hg, ha, htrim, hu, hk⟩ :=
      readOffset?_eq_some h
    have hopen : v.Opens l.after (v.x ++ (b ++ (v.y ++ (c ++ (v.z ++ l.after))))) :=
      ⟨b, c, rfl, hb, hbne, hc, hcne⟩
    have hline : l.before ++ (gap ++ (v.x ++ (b ++ (v.y ++ (c ++ v.z)))) ++ l.after) =
        l.before ++ (gap ++ (v.x ++ (b ++ (v.y ++ (c ++ (v.z ++ l.after)))))) := by
      simp
    rw [hline] at h ⊢
    obtain rfl : v = l.values :=
      (reads_of_readOffset? h).values_eq (reads_of_opens hv hgap hopen htrim) ⟨rfl, rfl⟩
    exact ⟨gap, _, rfl, hgap, ne_nil_of_atGap_append hv.1 hg, hv, hopen, ha, htrim, hu, hk⟩
  · rintro ⟨gap, u, rfl, hgap, hne, hv, hopen, ha, htrim, hu, hk⟩
    have hreads := reads_of_opens hv hgap hopen htrim
    obtain ⟨b, c, rfl, hb, hbne, hc, hcne⟩ := hopen
    have hcoord : Coordinates (gap ++ (l.values.x ++ (b ++ (l.values.y ++ (c ++ l.values.z))))) :=
      ⟨l.values, gap, b, c, hv, hgap, hb, hbne, hc, hcne, rfl⟩
    have hg : AtGap (gap ++ (l.values.x ++ (b ++ (l.values.y ++ (c ++ l.values.z))))) := by
      obtain ⟨d, r, rfl⟩ := List.exists_cons_of_ne_nil hne
      exact hgap d List.mem_cons_self
    obtain ⟨m, hm, hmb, hma⟩ := readOffset?_append hcoord hg ha htrim hu hk
    simp only [List.append_assoc] at hm
    have hvalues : m.values = l.values :=
      hreads.values_eq (reads_of_readOffset? hm) ⟨by rw [hmb], hma⟩
    obtain rfl : m = l := by
      cases m
      cases l
      simp_all
    exact hm

/-- The text in front of a tag of an offset, the tag, and text behind it. -/
theorem recognizes_throughTag :
    (seq (most onLine) (keyword triggerTag)).Recognizes fun s =>
      ∃ pre tag, s = pre ++ tag ∧ Unbroken pre ∧ tag.map foldCase = triggerTag :=
  (recognizes_most.seq (recognizes_keyword triggerTag)).congr fun s => by
    simp only [forall_onLine]

/-- The tag of an offset is a word, or the end of one. -/
theorem word_of_triggerTag {tag : Text} (h : tag.map foldCase = triggerTag) :
    Inked tag ∧ tag ≠ [] := by
  refine ⟨inked_of_map_foldCase h (by decide), ?_⟩
  rintro rfl
  cases h

/-- The text in front of the numbers of an offset is cut behind the last word in it: otherwise the
repetition behind the tag could have taken less. -/
theorem trimEnd_eq_of_least {tag s t : Text} (ht : Unbroken t)
    (htag : tag.map foldCase = triggerTag) (hfits : ∃ kept, offsetTail.Fits t kept)
    (hs : Unbroken s)
    (hleast : ∀ s' t', s ++ t = s' ++ t' → s'.length < s.length → offsetTail.read? t' = none)
    (pre : Text) : trimEnd (pre ++ tag ++ s) = pre ++ tag ++ s := by
  rcases List.eq_nil_or_concat s with rfl | ⟨s', d, rfl⟩
  · obtain ⟨hi, hne⟩ := word_of_triggerTag htag
    rw [List.append_nil]
    exact trimEnd_append_inked hi hne
  · rw [List.concat_eq_append] at hs hleast ⊢
    cases hd : isBlank d with
    | false =>
      rw [← List.append_assoc]
      exact trimEnd_append_inked (inked_cons.mpr ⟨hd, inked_nil⟩) (by simp)
    | true =>
      -- left to what follows, a blank would only have made the gap longer
      obtain ⟨kept, hfits⟩ := hfits
      obtain ⟨gap, u, v, after, rfl, hgap, -, hrest⟩ := (fits_offsetTail_iff ht).mp hfits
      have hdt : Unbroken (d :: (gap ++ u)) :=
        unbroken_append.mpr ⟨(unbroken_append.mp hs).2, ht⟩
      have hlonger : offsetTail.Fits (d :: (gap ++ u)) kept :=
        (fits_offsetTail_iff hdt).mpr ⟨d :: gap, u, v, after, rfl, blanks_cons.mpr ⟨hd, hgap⟩,
          List.cons_ne_nil _ _, hrest⟩
      obtain ⟨kept', hread⟩ := exists_read?_of_fits hlonger
      rw [hleast s' (d :: (gap ++ u)) (by simp) (by simp)] at hread
      cases hread

/-- **The pattern of an offset keeps what the reader returns.** -/
theorem read?_offsetPattern {line : Text} (hu : Unbroken line) :
    offsetPattern.read? line = (readOffset? line).map parts := by
  have hsound : ∀ kept, offsetPattern.read? line = some kept →
      ∃ l, readOffset? line = some l ∧ kept = l.parts := by
    intro kept h
    obtain ⟨-, s, t, r, rfl, ⟨pre, tag, rfl, hpre, htag⟩, hs, hr, rfl, hleast⟩ :=
      exists_of_read?_group_least recognizes_throughTag h
    have hs := forall_onLine.mp hs
    obtain ⟨htu, hst⟩ := unbroken_append.mp hu
    have ht := (unbroken_append.mp hst).2
    have hfits := fits_of_read? hr
    have htrim := trimEnd_eq_of_least ht htag ⟨r, hfits⟩ hs hleast pre
    obtain ⟨gap, u, v, after, rfl, hgap, hne, hn, hopen, hb, rfl⟩ :=
      (fits_offsetTail_iff ht).mp hfits
    refine ⟨⟨pre ++ tag ++ s, v, after⟩, ?_, rfl⟩
    exact readOffset?_eq_some_iff.mpr ⟨gap, u, by simp, hgap, hne, hn, hopen, hb, htrim,
      unbroken_append.mpr ⟨htu, hs⟩, containsKeyword_iff.mpr ⟨pre, tag, s, by simp, htag⟩⟩
  cases h : offsetPattern.read? line with
  | some kept =>
    obtain ⟨l, hl, rfl⟩ := hsound kept h
    rw [hl]
    rfl
  | none =>
    cases hl : readOffset? line with
    | none => rfl
    | some l =>
      obtain ⟨gap, u, e, hgap, hne, hn, hopen, hb, -, hbefore, hk⟩ := readOffset?_eq_some_iff.mp hl
      obtain ⟨pre, tag, s, hl, htag⟩ := containsKeyword_iff.mp hk
      rw [e] at hu
      have htail : offsetTail.Fits (gap ++ u) (l.values.toList ++ [l.after]) :=
        (fits_offsetTail_iff (unbroken_append.mp hu).2).mpr
          ⟨gap, u, l.values, l.after, rfl, hgap, hne, hn, hopen, hb, rfl⟩
      have hfits : offsetPattern.Fits line l.parts := by
        rw [hl, ← List.append_assoc] at hbefore
        obtain ⟨hpt, hs⟩ := unbroken_append.mp hbefore
        refine (fits_group_seq_iff (recognizes_throughTag.seq recognizes_least)).mpr
          ⟨l.before, gap ++ u, _, e, ?_, htail, rfl⟩
        exact ⟨pre ++ tag, s, by rw [hl, List.append_assoc],
          ⟨pre, tag, rfl, (unbroken_append.mp hpt).1, htag⟩, forall_onLine.mpr hs⟩
      obtain ⟨kept, hread⟩ := exists_read?_of_fits hfits
      rw [h] at hread
      cases hread

/-! ## 3. Tokens -/

/-- A line with an offset, by its words: there are four at least, the last three are numbers, and
the text in front of these, up to a blank, holds the tag. -/
structure OffsetTokens (line head : Text) (v : Triple) : Prop where
  words_eq : ∃ w ws, words line = w :: (ws ++ v.toList)
  numbers : ∀ t ∈ v.toList, Numeral.Pattern t
  cut : ∃ c tail, line = head ++ c :: tail ∧ isBlank c = true ∧ words tail = v.toList
  tag : ∃ pre tag post, head = pre ++ (tag ++ post) ∧ tag.map foldCase = triggerTag

/-- A tag of a rest position on a line, with three numbers as the first words behind it. -/
structure RestTokens (line pre tag post : Text) (v : Triple) : Prop where
  line_eq : line = pre ++ (tag ++ post)
  tag_eq : tag.map foldCase = restTag
  words_eq : ∃ more, words post = v.toList ++ more
  numbers : ∀ t ∈ v.toList, Numeral.Pattern t

theorem numerals_iff {v : Triple} : v.Numerals ↔ ∀ t ∈ v.toList, Numeral.Pattern t := by
  simp [Triple.Numerals, Triple.toList, Numeral.isNumeral_iff_pattern]

section Tokens

variable {line head pre tag post t : Text} {v : Triple} {l : TripleLine}

/-- A text with a tag in it has a word. -/
theorem exists_words_of_tag (pre post : Text) (htag : tag.map foldCase = triggerTag) :
    ∃ w ws, words (pre ++ (tag ++ post)) = w :: ws := by
  obtain ⟨hi, hne⟩ := word_of_triggerTag htag
  obtain ⟨c, r, rfl⟩ := List.exists_cons_of_ne_nil hne
  cases h : words (pre ++ (c :: r ++ post)) with
  | cons w ws => exact ⟨w, ws, rfl⟩
  | nil =>
    have hc : isBlank c = true := words_eq_nil_iff.mp h c (by simp)
    rw [(inked_cons.mp hi).1] at hc
    cases hc

/-- What is read as an offset consists of its tokens. -/
theorem offsetTokens_of_readOffset? (h : readOffset? line = some l) :
    OffsetTokens line l.before l.values := by
  obtain ⟨gap, u, rfl, hgap, hne, hn, hopen, hb, -, -, hk⟩ := readOffset?_eq_some_iff.mp h
  obtain ⟨pre, tag, post, hbefore, htag⟩ := containsKeyword_iff.mp hk
  obtain ⟨w, ws, hw⟩ := exists_words_of_tag pre post htag
  have hwords := hopen.words_eq hn hgap hb.atGap
  rw [words_of_blanks hb, List.append_nil] at hwords
  obtain ⟨c, gap, rfl⟩ := List.exists_cons_of_ne_nil hne
  have hc := (blanks_cons.mp hgap).1
  refine ⟨⟨w, ws, ?_⟩, numerals_iff.mp hn, ⟨c, gap ++ u, rfl, hc, ?_⟩,
    ⟨pre, tag, post, hbefore, htag⟩⟩
  · rw [List.cons_append, words_append_blank hc, hbefore, hw, ← words_cons_blank hc,
      ← List.cons_append, hwords, List.cons_append]
  · rw [← hwords, List.cons_append, words_cons_blank hc]

/-- **The tokens of an offset are read as they are**, with the text around them trimmed. -/
theorem OffsetTokens.readOffset?_eq (hu : Unbroken line) (h : OffsetTokens line head v) :
    readOffset? line = some ⟨trimEnd head, v, trailingBlanks line⟩ := by
  obtain ⟨-, hnum, ⟨c, tail, rfl, hc, hwords⟩, pre, tag, post, rfl, htag⟩ := h
  have hn := numerals_iff.mpr hnum
  rw [← List.append_nil v.toList] at hwords
  obtain ⟨gap, u, after, rfl, hgap, hopen, -, hafter⟩ := Triple.exists_opens hn hwords
  have ha := words_eq_nil_iff.mp hafter
  obtain ⟨hi, hne⟩ := word_of_triggerTag htag
  have hlast := hopen.trailingBlanks_eq hn ha (pre ++ (tag ++ post) ++ c :: gap)
  rw [List.append_assoc, List.cons_append] at hlast
  rw [hlast]
  refine readOffset?_eq_some_iff.mpr ⟨trailingBlanks (pre ++ (tag ++ post)) ++ c :: gap, u, ?_,
    blanks_append.mpr ⟨blanks_trailingBlanks _, blanks_cons.mpr ⟨hc, hgap⟩⟩, by simp, hn, hopen, ha,
    trimEnd_trimEnd _, ?_, ?_⟩
  · conv_lhs => rw [← trimEnd_append_trailingBlanks (pre ++ (tag ++ post))]
    simp
  · have hhead := (unbroken_append.mp hu).1
    rw [← trimEnd_append_trailingBlanks (pre ++ (tag ++ post))] at hhead
    exact (unbroken_append.mp hhead).1
  · exact containsKeyword_iff.mpr
      ⟨pre, tag, trimEnd post, trimEnd_append_word pre hi hne post, htag⟩

/-- What is read as a rest position at a tag consists of its tokens. -/
theorem restTokens_of_restHere? (ht : Unbroken t) (h : restHere? t = some l) (pre : Text) :
    ∃ tag post, RestTokens (pre ++ t) pre tag post l.values := by
  obtain ⟨tag, gap, u, rfl, hm, hgap, -, hn, hopen, ha⟩ := (restHere?_eq_some_iff ht).mp h
  exact ⟨tag, gap ++ u, rfl, hm, ⟨_, hopen.words_eq hn hgap ha⟩, numerals_iff.mp hn⟩

/-- The tokens of a rest position are read as they are. -/
theorem RestTokens.restHere?_eq (hu : Unbroken line) (h : RestTokens line pre tag post v) :
    ∃ gap u after, post = gap ++ u ∧ Blanks gap ∧ v.Opens after u ∧ AtGap after ∧
      restHere? (tag ++ post) = some ⟨tag ++ gap, v, after⟩ := by
  obtain ⟨rfl, hm, ⟨more, hwords⟩, hnum⟩ := h
  have hn := numerals_iff.mpr hnum
  obtain ⟨gap, u, after, rfl, hgap, hopen, ha, -⟩ := Triple.exists_opens hn hwords
  refine ⟨gap, u, after, rfl, hgap, hopen, ha, ?_⟩
  exact (restHere?_eq_some_iff (unbroken_append.mp hu).2).mpr
    ⟨tag, gap, u, rfl, hm, hgap, rfl, hn, hopen, ha⟩

/-- Where a rest position is found: behind the shortest text that leaves one at the start of what
follows. -/
theorem exists_first_of_readRest? (h : readRest? line = some l) :
    ∃ s t l₀, line = s ++ t ∧ restHere? t = some l₀ ∧ l = behind s l₀ ∧
      ∀ s' t', line = s' ++ t' → s'.length < s.length → restHere? t' = none := by
  rw [readRest?_eq_findSome?] at h
  obtain ⟨s, t, e, -, hl, hleast⟩ := exists_of_findSome?_splits h
  obtain ⟨l₀, hl₀, rfl⟩ := Option.map_eq_some_iff.mp hl
  exact ⟨s, t, l₀, e, hl₀, rfl, fun s' t' e' hlt => Option.map_eq_none_iff.mp (hleast s' t' e' hlt)⟩

theorem isSome_readRest?_of_tokens (hu : Unbroken line) (h : RestTokens line pre tag post v) :
    (readRest? line).isSome = true := by
  obtain ⟨gap, u, after, -, -, -, -, hhere⟩ := h.restHere?_eq hu
  obtain ⟨rfl, -⟩ := h
  rw [readRest?_eq_findSome?, List.findSome?_isSome_iff]
  refine ⟨(pre, tag ++ post), mem_splits.mpr ⟨rfl, forall_onLine.mpr (unbroken_append.mp hu).1⟩, ?_⟩
  rw [hhere]
  rfl

/-- **The first tokens of a rest position are the ones that are read.** -/
theorem RestTokens.readRest?_eq (hu : Unbroken line) (h : RestTokens line pre tag post v)
    (hfirst : ∀ pre' tag' post' v', RestTokens line pre' tag' post' v' →
      pre.length ≤ pre'.length) :
    ∃ gap u after, post = gap ++ u ∧ Blanks gap ∧ v.Opens after u ∧ AtGap after ∧
      readRest? line = some ⟨pre ++ (tag ++ gap), v, after⟩ := by
  obtain ⟨gap, u, after, hpost, hgap, hopen, ha, hhere⟩ := h.restHere?_eq hu
  refine ⟨gap, u, after, hpost, hgap, hopen, ha, ?_⟩
  obtain ⟨l, hl⟩ := Option.isSome_iff_exists.mp (isSome_readRest?_of_tokens hu h)
  obtain ⟨s, t, l₀, e, hl₀, rfl, hleast⟩ := exists_first_of_readRest? hl
  have ht : Unbroken t := (unbroken_append.mp (e ▸ hu)).2
  obtain ⟨tag', post', htokens⟩ := restTokens_of_restHere? ht hl₀ s
  have hle := hfirst s tag' post' _ (e ▸ htokens)
  -- the reader has stopped at some tokens, and it would have stopped at these
  have hge : s.length ≤ pre.length := by
    by_contra hlt
    have hnone := hleast pre (tag ++ post) h.line_eq (Nat.lt_of_not_le hlt)
    rw [hhere] at hnone
    cases hnone
  obtain ⟨rfl, rfl⟩ := List.append_inj (e.symm.trans h.line_eq) (Nat.le_antisymm hge hle)
  rw [hhere] at hl₀
  obtain rfl := Option.some.inj hl₀
  exact hl

end Tokens

/-- **The patterns of coordinates accept exactly their tokens.**  The patterns keep what the readers
return.  A line has an offset just when it has four words at least, the last three of them numbers,
and a tag in the text before these; they are kept, with the text before them without its trailing
blanks and the trailing blanks of the line.  A line has a rest position just when the first three
words behind some tag are numbers; behind the first such tag they are kept, with everything up to
the first number and everything behind the third. -/
theorem patterns_accept_exactly_tokens {line : Text} (hu : Unbroken line) :
    offsetPattern.read? line = (readOffset? line).map parts ∧
    restPattern.read? line = (readRest? line).map parts ∧
    ((readOffset? line).isSome = true ↔ ∃ head v, OffsetTokens line head v) ∧
    (∀ head v, OffsetTokens line head v →
      readOffset? line = some ⟨trimEnd head, v, trailingBlanks line⟩) ∧
    ((readRest? line).isSome = true ↔ ∃ pre tag post v, RestTokens line pre tag post v) ∧
    ∀ pre tag post v, RestTokens line pre tag post v →
      (∀ pre' tag' post' v', RestTokens line pre' tag' post' v' → pre.length ≤ pre'.length) →
      ∃ gap u after, post = gap ++ u ∧ Blanks gap ∧ v.Opens after u ∧ AtGap after ∧
        readRest? line = some ⟨pre ++ (tag ++ gap), v, after⟩ := by
  refine ⟨read?_offsetPattern hu, read?_restPattern hu, ⟨?_, ?_⟩, ?_, ⟨?_, ?_⟩, ?_⟩
  · intro h
    obtain ⟨l, hl⟩ := Option.isSome_iff_exists.mp h
    exact ⟨l.before, l.values, offsetTokens_of_readOffset? hl⟩
  · rintro ⟨head, v, h⟩
    rw [h.readOffset?_eq hu]
    rfl
  · intro head v h
    exact h.readOffset?_eq hu
  · intro h
    obtain ⟨l, hl⟩ := Option.isSome_iff_exists.mp h
    obtain ⟨s, t, l₀, rfl, hl₀, -⟩ := exists_first_of_readRest? hl
    obtain ⟨tag, post, htokens⟩ := restTokens_of_restHere? (unbroken_append.mp hu).2 hl₀ s
    exact ⟨s, tag, post, l₀.values, htokens⟩
  · rintro ⟨pre, tag, post, v, h⟩
    exact isSome_readRest?_of_tokens hu h
  · intro pre tag post v h hfirst
    exact h.readRest?_eq hu hfirst

/-- The first of two tags is passed over, since the third word behind it is no number.  The numbers
behind the second one are kept, although others close the line, which are those of a trigger. -/
theorem patterns_accept_exactly_tokens_between_tags :
    let line : Text := "<basepos> 1 2 <BasePos>\t-1.5 .5 2e3 <trigger> x  7. +8 9E-1 ".toList
    let post : Text := "\t-1.5 .5 2e3 <trigger> x  7. +8 9E-1 ".toList
    let rest : Triple := ⟨"-1.5".toList, ".5".toList, "2e3".toList⟩
    let offset : Triple := ⟨"7.".toList, "+8".toList, "9E-1".toList⟩
    Unbroken line ∧
    OffsetTokens line "<basepos> 1 2 <BasePos>\t-1.5 .5 2e3 <trigger> x ".toList offset ∧
    offsetPattern.read? line = some
      ["<basepos> 1 2 <BasePos>\t-1.5 .5 2e3 <trigger> x".toList, "7.".toList, "+8".toList,
        "9E-1".toList, " ".toList] ∧
    restPattern.read? line = some
      ["<basepos> 1 2 <BasePos>\t".toList, "-1.5".toList, ".5".toList, "2e3".toList,
        " <trigger> x  7. +8 9E-1 ".toList] ∧
    RestTokens line "<basepos> 1 2 ".toList "<BasePos>".toList post rest ∧
    ∃ gap u after, post = gap ++ u ∧ Blanks gap ∧ rest.Opens after u ∧ AtGap after ∧
      readRest? line =
        some ⟨"<basepos> 1 2 ".toList ++ ("<BasePos>".toList ++ gap), rest, after⟩ := by
  intro line post rest offset
  have hu : Unbroken line := by decide +kernel
  have hoffset : OffsetTokens line "<basepos> 1 2 <BasePos>\t-1.5 .5 2e3 <trigger> x ".toList
      offset :=
    ⟨⟨"<basepos>".toList, (words line).tail.take 8, by decide +kernel⟩,
      numerals_iff.mp ⟨by decide, by decide, by decide⟩,
      ⟨' ', "7. +8 9E-1 ".toList, by decide +kernel, by decide, by decide +kernel⟩,
      ⟨"<basepos> 1 2 <BasePos>\t-1.5 .5 2e3 ".toList, triggerTag, " x ".toList,
        by decide +kernel, by decide +kernel⟩⟩
  have hrest : RestTokens line "<basepos> 1 2 ".toList "<BasePos>".toList post rest :=
    ⟨by decide +kernel, by decide +kernel,
      ⟨words "<trigger> x  7. +8 9E-1 ".toList, by decide +kernel⟩,
      numerals_iff.mp ⟨by decide, by decide, by decide⟩⟩
  have hfirst : ∀ pre' tag' post' v', RestTokens line pre' tag' post' v' →
      "<basepos> 1 2 ".toList.length ≤ pre'.length := by
    intro pre' tag' post' v' h
    by_contra hlt
    obtain ⟨gap, u, after, -, -, -, -, hhere⟩ := h.restHere?_eq hu
    have hnone : ∀ n < "<basepos> 1 2 ".toList.length, restHere? (line.drop n) = none := by
      decide +kernel
    have hdrop : line.drop pre'.length = tag' ++ post' := by rw [h.line_eq, List.drop_left]
    rw [← hdrop, hnone _ (Nat.lt_of_not_le hlt)] at hhere
    cases hhere
  obtain ⟨hop, hrp, -, ho, -, hr⟩ := patterns_accept_exactly_tokens hu
  refine ⟨hu, hoffset, ?_, ?_, hrest, hr _ _ _ _ hrest hfirst⟩
  · rw [hop, ho _ _ hoffset]
    decide +kernel
  · rw [hrp]
    decide +kernel

end TripleLine

end ModelScale
