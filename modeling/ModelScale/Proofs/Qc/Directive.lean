import ModelScale.Proofs.Comment.Live
import ModelScale.Proofs.Decimal.Rounding
import ModelScale.Proofs.Decimal.Written
import ModelScale.Proofs.Line.Token
import ModelScale.Proofs.Text.Keyword
import ModelScale.Qc.Rescale

/-
# Directives, read and written

A line is a scale directive by its first word alone, so a rewrite that keeps first words makes no
directive and unmakes none.  Main statements:

* `Retouched.of_append`, `Retouched.of_head`, `Retouched.trimEnd`: rewrites that keep the first
  word, the comments and the end of a line;
* `Directive.isSome_read?_iff`: a line is a directive by its first word;
* `Directive.read?_setArgument`: a directive with a new argument is read back with that argument.
-/

namespace ModelScale

open Text Comment Numeral

/-! ## 1. Lines that are touched up -/

/-- A line that stands for another one as far as comments, the first word and the end of the line
go. -/
structure Retouched (line line' : Text) : Prop where
  advance_eq : ∀ g, advance g line' = advance g line
  inert_eq : ∀ g, inert g line' = inert g line
  nextWord_eq : (nextWord line').1 = (nextWord line).1
  unbroken : Unbroken line → Unbroken line'
  faithful : Faithful line → Faithful line'

theorem Retouched.trans {line line' line'' : Text} (h : Retouched line line')
    (h' : Retouched line' line'') : Retouched line line'' where
  advance_eq := fun g => (h'.advance_eq g).trans (h.advance_eq g)
  inert_eq := fun g => (h'.inert_eq g).trans (h.inert_eq g)
  nextWord_eq := h'.nextWord_eq.trans h.nextWord_eq
  unbroken := fun hu => h'.unbroken (h.unbroken hu)
  faithful := fun hf => h'.faithful (h.faithful hf)

theorem nextWord_append_of_atGap {p r : Text} (hp : ¬ Blanks p) (hr : AtGap r) :
    (nextWord (p ++ r)).1 = (nextWord p).1 := by
  rcases blanks_or_word p with hb | ⟨b, w, s, rfl, hb, hw, hne, hs⟩
  · exact absurd hb hp
  · have hsr : AtGap (s ++ r) := hs.append hr
    have e : b ++ (w ++ s) ++ r = b ++ (w ++ (s ++ r)) := by simp
    rw [e, nextWord_append hb hw hne hsr, nextWord_append hb hw hne hs]

/-- A piece of a line that stands for another one as far as comments and the end of the line go,
whatever comes before. -/
structure Exchanged (r r' : Text) : Prop where
  region_eq : ∀ s, (scan s r').region = (scan s r).region
  unbroken : Unbroken r → Unbroken r'
  faithful : Faithful r → Faithful r'

theorem Exchanged.append_left {p r r' : Text} (hp : ∀ c ∈ p, Plain c) (h : Exchanged r r') :
    Exchanged (p ++ r) (p ++ r') where
  region_eq := by
    intro s
    rw [scan_append, scan_append, h.region_eq]
  unbroken := by
    intro hu
    rw [unbroken_append] at hu ⊢
    exact ⟨hu.1, h.unbroken hu.2⟩
  faithful := by
    intro hf
    rw [faithful_plain_append hp] at hf ⊢
    exact h.faithful hf

/-- A line may change behind its first word, up to a gap in either version, as long as the comments
come out the same. -/
theorem Retouched.of_append {p r r' : Text} (hp : ¬ Blanks p) (hr : AtGap r) (hr' : AtGap r')
    (h : Exchanged r r') : Retouched (p ++ r) (p ++ r') where
  advance_eq := by
    intro g
    rw [advance_eq_scan, advance_eq_scan, scan_append, scan_append, h.region_eq]
  inert_eq := by
    intro g
    rw [inert_append_of_atGap hp hr, inert_append_of_atGap hp hr']
  nextWord_eq := by rw [nextWord_append_of_atGap hp hr, nextWord_append_of_atGap hp hr']
  unbroken := by
    intro hu
    rw [unbroken_append] at hu ⊢
    exact ⟨hu.1, h.unbroken hu.2⟩
  faithful := by
    intro hf
    rw [faithful_append (plain_head_of_atGap hr)] at hf
    exact (faithful_append (plain_head_of_atGap hr')).mpr ⟨hf.1, h.faithful hf.2⟩

/-- So it may behind its head. -/
theorem Retouched.of_head {keyword head r r' : Text} (hh : IsHead keyword head)
    (hk : Inked keyword) (hne : keyword ≠ []) (h : Exchanged r r') :
    Retouched (head ++ r) (head ++ r') := by
  obtain ⟨lead, word, gap, rfl, -, hm, hgap, hgne⟩ := hh
  have hword : ¬ Blanks (lead ++ word) := by
    intro hb
    exact (inked_of_map_foldCase hm hk).not_blanks (ne_nil_of_map_foldCase hm hne)
      (blanks_append.mp hb).2
  have hplain : ∀ c ∈ gap, Plain c := fun c hc => plain_of_isBlank (hgap c hc)
  rw [List.append_assoc _ gap, List.append_assoc _ gap]
  exact .of_append hword (hgap.atGap_append_of_ne_nil hgne r)
    (hgap.atGap_append_of_ne_nil hgne r') (h.append_left hplain)

/-- Blanks at the end of a line do not matter. -/
theorem Retouched.of_append_blanks {b : Text} (hb : Blanks b) (t : Text) :
    Retouched (t ++ b) t where
  advance_eq := fun g => (advance_append_blanks hb g t).symm
  inert_eq := fun g => (inert_append_blanks hb g t).symm
  nextWord_eq := by
    by_cases ht : Blanks t
    · rw [nextWord_of_blanks ht, nextWord_of_blanks (blanks_append.mpr ⟨ht, hb⟩)]
    · exact (nextWord_append_of_atGap ht hb.atGap).symm
  unbroken := fun hu => (unbroken_append.mp hu).1
  faithful := fun hf => hf.piece (List.prefix_append t b).isInfix

theorem Retouched.trimEnd (t : Text) : Retouched t (trimEnd t) := by
  have h := Retouched.of_append_blanks (blanks_trailingBlanks t) (Text.trimEnd t)
  rwa [trimEnd_append_trailingBlanks] at h

/-- A number holds nothing of a comment. -/
theorem neutral_of_isNumeral {w : Text} (h : isNumeral w = true) : Neutral w := by
  intro c hc
  have hn := numeralChars_of_isNumeral h c hc
  exact ⟨hn.ne (by decide) (by decide), hn.ne (by decide) (by decide)⟩

/-! ## 2. Reading a directive -/

namespace Directive

/-- The spelling begins with a character that has one case and opens no comment. -/
theorem exists_of_spelling {keyword : Text} (h : keyword.map foldCase = spelling) :
    ∃ w, keyword = '$' :: w := by
  have he : spelling = '$' :: "scale".toList := rfl
  cases keyword with
  | nil => cases h
  | cons c w =>
    rw [he, List.map_cons] at h
    obtain rfl := eq_of_foldCase (List.cons.inj h).1 (by decide)
    exact ⟨w, rfl⟩

theorem inked_of_spelling {keyword : Text} (h : keyword.map foldCase = spelling) : Inked keyword :=
  inked_of_map_foldCase h (by decide)

/-- **A directive**: blanks, the keyword, and a gap in front of whatever follows. -/
theorem read?_eq_some_iff {line : Text} (hu : Unbroken line) {d : Directive} :
    read? line = some d ↔
      ∃ r, line = d.lead ++ (d.keyword ++ r) ∧ Blanks d.lead ∧
        d.keyword.map foldCase = spelling ∧ AtGap r ∧ nextWord r = (d.token, d.after) ∧
        (Decimal.read d.token).toOption = d.value := by
  constructor
  · intro h
    unfold read? at h
    rw [List.span_eq_takeWhile_dropWhile] at h
    dsimp only at h
    obtain ⟨⟨keyword, rest⟩, hk, h⟩ := Option.bind_eq_some_iff.mp h
    obtain ⟨he, hm⟩ := takeKeyword?_eq_some.mp hk
    have hline : line = line.takeWhile isBlank ++ (keyword ++ rest) := by
      rw [← he, List.takeWhile_append_dropWhile]
    dsimp only at h
    split at h
    · rename_i hg
      rw [hline] at hu
      simp only [unbroken_append] at hu
      rw [restOfLine?_of_unbroken hu.2.2, Option.bind_eq_bind, Option.bind_some] at h
      obtain rfl := Option.some.inj h
      exact ⟨rest, hline, blanks_takeWhile line, hm, startsBlank_iff.mp hg, rfl, rfl⟩
    · cases h
  · rintro ⟨r, rfl, hb, hm, hr, hn, hv⟩
    obtain ⟨w, hw⟩ := exists_of_spelling hm
    have hspan : (d.lead ++ (d.keyword ++ r)).span isBlank = (d.lead, d.keyword ++ r) := by
      refine span_append hb ?_
      rw [hw]
      simp [isBlank]
    simp only [unbroken_append] at hu
    unfold read?
    rw [hspan]
    dsimp only
    rw [takeKeyword?_eq_some.mpr ⟨rfl, hm⟩, Option.bind_eq_bind, Option.bind_some]
    dsimp only
    rw [if_pos (startsBlank_iff.mpr hr), restOfLine?_of_unbroken hu.2.2, Option.bind_eq_bind,
      Option.bind_some, hn, hv]
    rfl

/-- A directive is the text of its line, with some blanks in front of the argument. -/
theorem exists_gap {line : Text} (hu : Unbroken line) {d : Directive} (h : read? line = some d) :
    ∃ gap, Blanks gap ∧ line = d.lead ++ (d.keyword ++ (gap ++ (d.token ++ d.after))) := by
  obtain ⟨r, rfl, -, -, -, hword, -⟩ := (read?_eq_some_iff hu).mp h
  obtain ⟨gap, hgap, hr, -, -⟩ := exists_gap_nextWord r
  rw [hword] at hr
  exact ⟨gap, hgap, by rw [hr]⟩

/-- **A line is a directive by its first word.** -/
theorem isSome_read?_iff {line : Text} (hu : Unbroken line) :
    (read? line).isSome = true ↔ (nextWord line).1.map foldCase = spelling := by
  constructor
  · intro h
    obtain ⟨d, hd⟩ := Option.isSome_iff_exists.mp h
    obtain ⟨r, rfl, hb, hm, hr, -⟩ := (read?_eq_some_iff hu).mp hd
    obtain ⟨w, hw⟩ := exists_of_spelling hm
    rw [nextWord_append hb (inked_of_spelling hm) (by simp [hw]) hr]
    exact hm
  · intro h
    rcases blanks_or_word line with hb | ⟨b, w, r, rfl, hb, hw, hne, hr⟩
    · rw [nextWord_of_blanks hb] at h
      cases h
    · rw [nextWord_append hb hw hne hr] at h
      have hread : read? (b ++ (w ++ r)) = some
          ⟨b, w, (nextWord r).1, (nextWord r).2, (Decimal.read (nextWord r).1).toOption⟩ :=
        (read?_eq_some_iff hu).mpr ⟨r, rfl, hb, h, hr, rfl, rfl⟩
      rw [hread]
      rfl

theorem read?_eq_none_of_retouched {line line' : Text} (h : Retouched line line')
    (hu : Unbroken line) (hn : read? line = none) : read? line' = none := by
  rw [← Option.not_isSome_iff_eq_none] at hn ⊢
  rw [isSome_read?_iff (h.unbroken hu), h.nextWord_eq, ← isSome_read?_iff hu]
  exact hn

/-! ## 3. Writing a directive -/

/-- A directive as it is written is read with its argument, and is as live as the place where it
stands. -/
theorem read?_written {lead keyword w after : Text} (hb : Blanks lead)
    (hk : keyword.map foldCase = spelling) (hw : Inked w) (hne : w ≠ []) (ha : AtGap after)
    (hu : Unbroken (lead ++ (keyword ++ ' ' :: (w ++ after)))) :
    read? (lead ++ (keyword ++ ' ' :: (w ++ after))) =
      some ⟨lead, keyword, w, after, (Decimal.read w).toOption⟩ :=
  (read?_eq_some_iff hu).mpr ⟨_, rfl, hb, hk, isBlank_space,
    nextWord_append (b := [' ']) (blanks_cons.mpr ⟨isBlank_space, blanks_nil⟩) hw hne ha, rfl⟩

theorem inert_written {lead keyword : Text} (hb : Blanks lead)
    (hk : keyword.map foldCase = spelling) (g : Region) (r : Text) :
    inert g (lead ++ (keyword ++ r)) = decide (g = .block) := by
  obtain ⟨w, rfl⟩ := exists_of_spelling hk
  exact inert_of_ne_slash hb (by decide) (by decide) g _

theorem setArgument_eq (d : Directive) {w : Text} (hw : Inked w) (hne : w ≠ []) :
    d.setArgument w = d.lead ++ (d.keyword ++ ' ' :: (w ++ trimEnd d.after)) := by
  have h := trimEnd_append_word (d.lead ++ d.keyword ++ [' ']) hw hne d.after
  rw [setArgument]
  simpa using h

/-- **A directive with another argument is read back with that argument**, as live as before. -/
theorem read?_setArgument {line w : Text} {d : Directive} (hu : Unbroken line)
    (h : read? line = some d) (hw : Inked w) (hne : w ≠ []) (hwu : Unbroken w)
    (hwp : ∀ c ∈ w, Plain c) :
    (∃ e, read? (d.setArgument w) = some e ∧ e.token = w) ∧ Unbroken (d.setArgument w) ∧
      (∀ g, inert g (d.setArgument w) = inert g line) ∧
      (Faithful line → Faithful (d.setArgument w)) := by
  obtain ⟨r, rfl, hb, hk, hr, hn, -⟩ := (read?_eq_some_iff hu).mp h
  obtain ⟨gap, -, hrest, -, hafter⟩ := exists_gap_nextWord r
  rw [hn] at hrest hafter
  subst hrest
  have hua : Unbroken d.after := by
    simp only [unbroken_append] at hu
    exact hu.2.2.2.2
  have htrim : Unbroken (trimEnd d.after) := (Retouched.trimEnd d.after).unbroken hua
  have hu' : Unbroken (d.lead ++ (d.keyword ++ ' ' :: (w ++ trimEnd d.after))) := by
    simp only [unbroken_append, unbroken_cons] at hu ⊢
    exact ⟨hu.1, hu.2.1, by decide, hwu, htrim⟩
  rw [setArgument_eq d hw hne]
  refine ⟨⟨_, read?_written hb hk hw hne hafter.trimEnd hu', rfl⟩, hu', ?_, ?_⟩
  · intro g
    rw [inert_written hb hk, inert_written hb hk]
  · intro hf
    have hfa : Faithful d.after :=
      hf.piece ⟨d.lead ++ d.keyword ++ gap ++ d.token, [], by simp⟩
    rw [← List.append_assoc] at hf ⊢
    refine (faithful_append_cons (by decide)).mpr ⟨hf.piece (List.prefix_append _ _).isInfix, ?_⟩
    exact (faithful_plain_append hwp).mpr ((Retouched.trimEnd d.after).faithful hfa)

end Directive

end ModelScale
