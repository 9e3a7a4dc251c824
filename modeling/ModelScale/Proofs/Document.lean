import Mathlib.Data.List.Forall2
import ModelScale.Document
import ModelScale.Proofs.Line.Token
import ModelScale.Proofs.Text.Bytes

/-
# Files, written and read again

A script that is written and opened again is almost the script that was written.  A line that ended
in a carriage return loses it when the newline behind it makes it part of a longer one, and an empty
line at the end of a script without a final newline is no line any more.  So the lines that come
back are `Loosened`: blanks are gone at the end of some lines, and empty lines at the end of the
script.  Main statements:

* `Document.sound_of_ofBytes?`: what a document read from a file looks like;
* `Document.ofBytes?_toBytes`: other lines in such a document, written and read again.
-/

namespace ModelScale

open Text

/-! ## 1. Blanks at the end -/

/-- The second line is the first with blanks at its end. -/
def Padded (line line' : Text) : Prop :=
  ∃ b, line' = line ++ b ∧ Blanks b ∧ Unbroken b

theorem Padded.refl (line : Text) : Padded line line :=
  ⟨[], (List.append_nil _).symm, blanks_nil, unbroken_nil⟩

theorem Padded.trans {a b c : Text} (h : Padded a b) (h' : Padded b c) : Padded a c := by
  obtain ⟨p, rfl, hp, hpu⟩ := h
  obtain ⟨q, rfl, hq, hqu⟩ := h'
  exact ⟨p ++ q, List.append_assoc _ _ _, blanks_append.mpr ⟨hp, hq⟩,
    unbroken_append.mpr ⟨hpu, hqu⟩⟩

/-- The first script is the second without some blanks at the ends of lines and some empty lines at
its own end. -/
def Loosened (lines lines' : List Text) : Prop :=
  ∃ n, List.Forall₂ Padded (lines ++ List.replicate n []) lines'

theorem forall₂_padded_refl (lines : List Text) : List.Forall₂ Padded lines lines :=
  List.forall₂_same.mpr fun line _ => Padded.refl line

theorem forall₂_padded_trans {k l m : List Text} (h : List.Forall₂ Padded k l)
    (h' : List.Forall₂ Padded l m) : List.Forall₂ Padded k m := by
  induction h' generalizing k with
  | nil => exact h
  | cons hb _ ih =>
    cases h with
    | cons ha h => exact .cons (ha.trans hb) (ih h)

theorem Loosened.refl (lines : List Text) : Loosened lines lines := by
  refine ⟨0, ?_⟩
  rw [List.replicate_zero, List.append_nil]
  exact forall₂_padded_refl lines

theorem Loosened.trans {k l m : List Text} (h : Loosened k l) (h' : Loosened l m) :
    Loosened k m := by
  obtain ⟨i, hi⟩ := h
  obtain ⟨j, hj⟩ := h'
  refine ⟨i + j, ?_⟩
  rw [List.replicate_add, ← List.append_assoc]
  exact forall₂_padded_trans (List.rel_append hi (forall₂_padded_refl _)) hj

namespace Text

/-! ## 2. Cutting at newlines -/

theorem splitAt_of_unbroken {t : Text} (h : Unbroken t) : splitAt '\n' t = [t] := by
  induction t with
  | nil => rfl
  | cons c t ih =>
    obtain ⟨hc, ht⟩ := unbroken_cons.mp h
    rw [splitAt, if_neg hc, ih ht]

theorem splitAt_append_cons {t : Text} (h : Unbroken t) (u : Text) :
    splitAt '\n' (t ++ '\n' :: u) = t :: splitAt '\n' u := by
  induction t with
  | nil => rw [List.nil_append, splitAt, if_pos rfl]
  | cons c t ih =>
    obtain ⟨hc, ht⟩ := unbroken_cons.mp h
    rw [List.cons_append, splitAt, if_neg hc, ih ht]

/-- There is at least one piece. -/
theorem exists_splitAt_eq_cons (t : Text) : ∃ piece rest, splitAt '\n' t = piece :: rest := by
  cases t with
  | nil => exact ⟨[], [], rfl⟩
  | cons c t =>
    rw [splitAt]
    split
    · exact ⟨[], _, rfl⟩
    · split
      · exact ⟨_, _, rfl⟩
      · exact ⟨_, _, rfl⟩

/-- A newline at the end of a text makes an empty piece. -/
theorem splitAt_concat (t : Text) : splitAt '\n' (t ++ ['\n']) = splitAt '\n' t ++ [[]] := by
  induction t with
  | nil => rfl
  | cons c t ih =>
    obtain ⟨piece, rest, he⟩ := exists_splitAt_eq_cons t
    rw [he] at ih
    rw [List.cons_append, splitAt, splitAt, ih, he]
    split <;> rfl

/-- No piece goes on behind a newline. -/
theorem unbroken_of_mem_splitAt {t : Text} : ∀ piece ∈ splitAt '\n' t, Unbroken piece := by
  induction t with
  | nil => exact List.forall_mem_singleton.mpr unbroken_nil
  | cons c t ih =>
    obtain ⟨piece, rest, he⟩ := exists_splitAt_eq_cons t
    rw [he, List.forall_mem_cons] at ih
    rw [splitAt, he]
    split
    · exact List.forall_mem_cons.mpr ⟨unbroken_nil, List.forall_mem_cons.mpr ih⟩
    · rename_i hc
      exact List.forall_mem_cons.mpr ⟨unbroken_cons.mpr ⟨hc, ih.1⟩, ih.2⟩

end Text

namespace Document

/-! ## 3. Newlines of either kind -/

/-- A newline as a document has it. -/
def IsNewline (newline : Text) : Prop := newline = longNewline ∨ newline = ['\n']

theorem isNewline_newlineOf (t : Text) : IsNewline (newlineOf t) := by
  unfold newlineOf
  split
  · exact Or.inl rfl
  · exact Or.inr rfl

theorem unifyNewlines_cons {c : Char} {t : Text} (h : c = '\r' → ∀ u, t ≠ '\n' :: u) :
    unifyNewlines (c :: t) = c :: unifyNewlines t := by
  rw [unifyNewlines]
  intro u hc ht
  exact h hc u ht

theorem unifyNewlines_of_unbroken {t : Text} (h : Unbroken t) : unifyNewlines t = t := by
  induction t with
  | nil => rfl
  | cons c t ih =>
    obtain ⟨-, ht⟩ := unbroken_cons.mp h
    rw [unifyNewlines_cons, ih ht]
    rintro - u rfl
    exact ht List.mem_cons_self

/-- **A line and its newline**: what is read is the line, unless it ended in a carriage return that
now belongs to the newline. -/
theorem unifyNewlines_line {line newline : Text} (hu : Unbroken line) (hn : IsNewline newline) :
    ∃ kept, Padded kept line ∧
      ∀ rest, unifyNewlines (line ++ (newline ++ rest)) = kept ++ '\n' :: unifyNewlines rest := by
  induction line with
  | nil =>
    refine ⟨[], Padded.refl [], ?_⟩
    intro rest
    rcases hn with rfl | rfl
    · rfl
    · exact unifyNewlines_cons fun h => absurd h (by decide)
  | cons c line ih =>
    obtain ⟨hc, hl⟩ := unbroken_cons.mp hu
    by_cases hlast : c = '\r' ∧ line = [] ∧ newline = ['\n']
    · obtain ⟨rfl, rfl, rfl⟩ := hlast
      exact ⟨[], ⟨['\r'], rfl, by decide, by decide⟩, fun rest => rfl⟩
    · obtain ⟨kept, ⟨b, rfl, hb, hbu⟩, hk⟩ := ih hl
      refine ⟨c :: kept, ⟨b, rfl, hb, hbu⟩, ?_⟩
      intro rest
      rw [List.cons_append, unifyNewlines_cons, hk rest, List.cons_append]
      -- the character behind is no line feed
      rintro rfl u he
      cases hkb : kept ++ b with
      | nil =>
        rw [hkb, List.nil_append] at he
        rcases hn with rfl | rfl
        · cases he
        · exact hlast ⟨rfl, hkb, rfl⟩
      | cons d l =>
        rw [hkb] at he hl
        obtain ⟨rfl, -⟩ := List.cons.inj he
        exact hl List.mem_cons_self

/-- The pieces of a text were there before its newlines were unified. -/
theorem infix_of_mem_pieces (t : Text) :
    ∃ piece rest, splitAt '\n' (unifyNewlines t) = piece :: rest ∧ piece <+: t ∧
      ∀ other ∈ rest, other <:+: t := by
  have hall : ∀ {u piece : Text} {rest : List Text} (s : Text), piece <+: u →
      (∀ other ∈ rest, other <:+: u) → ∀ other ∈ piece :: rest, other <:+: s ++ u := by
    intro u piece rest s hp hr other ho
    have hs : u <:+: s ++ u := (List.suffix_append s u).isInfix
    rcases List.mem_cons.mp ho with rfl | ho
    · exact hp.isInfix.trans hs
    · exact (hr other ho).trans hs
  fun_induction unifyNewlines t with
  | case1 => exact ⟨[], [], rfl, List.nil_prefix, by simp⟩
  | case2 t ih =>
    obtain ⟨piece, rest, he, hp, hr⟩ := ih
    refine ⟨[], piece :: rest, by rw [splitAt, if_pos rfl, he], List.nil_prefix, ?_⟩
    exact hall ['\r', '\n'] hp hr
  | case3 c t _ ih =>
    obtain ⟨piece, rest, he, hp, hr⟩ := ih
    by_cases hc : c = '\n'
    · refine ⟨[], piece :: rest, by rw [splitAt, if_pos hc, he], List.nil_prefix, ?_⟩
      exact hall [c] hp hr
    · refine ⟨c :: piece, rest, by rw [splitAt, if_neg hc, he],
        (List.prefix_cons_inj c).mpr hp, ?_⟩
      intro other ho
      exact hall [c] hp hr other (List.mem_cons_of_mem _ ho)

/-! ## 4. What is read -/

/-- The lines of a text: a newline at its end ends the last of them. -/
theorem lines_ofText (t : Text) :
    (∃ u, unifyNewlines t = u ++ ['\n'] ∧ (ofText t).lines = splitAt '\n' u) ∨
      (unifyNewlines t).getLast? ≠ some '\n' ∧
        (ofText t).lines = splitAt '\n' (unifyNewlines t) := by
  unfold ofText
  dsimp only
  split
  · rename_i h
    obtain ⟨u, hu⟩ := List.getLast?_eq_some_iff.mp h
    refine Or.inl ⟨u, hu, ?_⟩
    rw [hu, splitAt_concat, List.dropLast_concat]
  · rename_i h
    exact Or.inr ⟨h, rfl⟩

/-- What every document has that was read from a file. -/
structure Sound (d : Document) : Prop where
  newline : IsNewline d.newline
  nonempty : d.lines ≠ []
  unbroken : ∀ line ∈ d.lines, Unbroken line
  faithful : ∀ line ∈ d.lines, Faithful line

theorem newline_ofText (t : Text) : (ofText t).newline = newlineOf t := by
  unfold ofText
  dsimp only
  split <;> rfl

theorem ofBytes?_eq_some {bytes : Bytes} {d : Document} (h : ofBytes? bytes = some d) :
    isEmptyLine (decode bytes) = false ∧ d = ofText (decode bytes) := by
  unfold ofBytes? at h
  dsimp only at h
  split at h
  · cases h
  · rename_i hb
    exact ⟨by simpa using hb, (Option.some.inj h).symm⟩

/-- **A document that is read is sound.** -/
theorem sound_of_ofBytes? {bytes : Bytes} {d : Document} (h : ofBytes? bytes = some d) :
    d.Sound := by
  obtain ⟨-, rfl⟩ := ofBytes?_eq_some h
  have hsub : (∃ u, (ofText (decode bytes)).lines = splitAt '\n' u) ∧
      ∀ line ∈ (ofText (decode bytes)).lines,
        line ∈ splitAt '\n' (unifyNewlines (decode bytes)) := by
    rcases lines_ofText (decode bytes) with ⟨u, hu, he⟩ | ⟨-, he⟩
    · refine ⟨⟨u, he⟩, ?_⟩
      intro line hl
      rw [hu, splitAt_concat]
      exact List.mem_append_left _ (he ▸ hl)
    · exact ⟨⟨_, he⟩, fun line hl => he ▸ hl⟩
  obtain ⟨⟨u, hu⟩, hmem⟩ := hsub
  obtain ⟨piece, rest, he, hp, hr⟩ := infix_of_mem_pieces (decode bytes)
  refine ⟨by rw [newline_ofText]; exact isNewline_newlineOf _, ?_, ?_, ?_⟩
  · obtain ⟨first, others, hf⟩ := exists_splitAt_eq_cons u
    rw [hu, hf]
    exact List.cons_ne_nil _ _
  · rw [hu]
    exact unbroken_of_mem_splitAt
  · intro line hl
    have hl := hmem line hl
    rw [he] at hl
    rcases List.mem_cons.mp hl with rfl | hl
    · exact (faithful_decode bytes).piece hp.isInfix
    · exact (faithful_decode bytes).piece (hr line hl)

/-! ## 5. What is written -/

/-- Lines that are written and read again: some lose blanks at their ends. -/
theorem unifyNewlines_join {newline : Text} (hn : IsNewline newline) (ends : Bool)
    {lines : List Text} (hne : lines ≠ []) (hu : ∀ line ∈ lines, Unbroken line) :
    ∃ t, unifyNewlines (join newline lines ++ if ends then newline else []) =
        t ++ (if ends then ['\n'] else []) ∧
      List.Forall₂ Padded (splitAt '\n' t) lines := by
  induction lines with
  | nil => exact absurd rfl hne
  | cons line lines ih =>
    obtain ⟨hl, hu⟩ := List.forall_mem_cons.mp hu
    obtain ⟨kept, hp, hk⟩ := unifyNewlines_line hl hn
    have hku : Unbroken kept := by
      obtain ⟨b, rfl, -⟩ := hp
      exact (unbroken_append.mp hl).1
    cases lines with
    | nil =>
      cases ends with
      | true =>
        refine ⟨kept, ?_, by rw [splitAt_of_unbroken hku]; exact .cons hp .nil⟩
        have h := hk []
        rwa [List.append_nil] at h
      | false =>
        refine ⟨line, ?_, by rw [splitAt_of_unbroken hl]; exact .cons (Padded.refl _) .nil⟩
        have h := unifyNewlines_of_unbroken hl
        rw [← List.append_nil line] at h
        exact h
    | cons next lines =>
      obtain ⟨t, ht, hf⟩ := ih (List.cons_ne_nil _ _) hu
      refine ⟨kept ++ '\n' :: t, ?_, by rw [splitAt_append_cons hku]; exact .cons hp hf⟩
      rw [join, List.append_assoc, List.append_assoc, hk, ht, List.append_assoc, List.cons_append]

/-- **Lines that are written are read again**, up to blanks at the end of lines and empty lines at
the end of the script. -/
theorem loosened_ofText {d : Document} (hn : IsNewline d.newline) (hne : d.lines ≠ [])
    (hu : ∀ line ∈ d.lines, Unbroken line) : Loosened (ofText d.toText).lines d.lines := by
  obtain ⟨t, ht, hf⟩ := unifyNewlines_join hn d.endsInNewline hne hu
  have htext : d.toText = join d.newline d.lines ++ if d.endsInNewline then d.newline else [] := by
    have hempty : d.lines.isEmpty = false := by simpa using hne
    rw [toText, hempty, Bool.not_false, Bool.and_true]
  rw [← htext] at ht
  cases hends : d.endsInNewline with
  | true =>
    rw [hends, if_pos rfl] at ht
    rcases lines_ofText d.toText with ⟨u, hu, he⟩ | ⟨hno, -⟩
    · obtain rfl : t = u := List.append_cancel_right (ht.symm.trans hu)
      exact ⟨0, by rw [he, List.replicate_zero, List.append_nil]; exact hf⟩
    · exact absurd (by rw [ht, List.getLast?_concat]) hno
  | false =>
    rw [hends, if_neg Bool.false_ne_true, List.append_nil] at ht
    rcases lines_ofText d.toText with ⟨u, hu, he⟩ | ⟨-, he⟩
    · -- the last line was empty
      rw [← ht, hu, splitAt_concat] at hf
      exact ⟨1, he ▸ hf⟩
    · exact ⟨0, by rw [he, ht, List.replicate_zero, List.append_nil]; exact hf⟩

theorem plain_of_isNewline {newline : Text} (h : IsNewline newline) :
    (∀ c ∈ newline, Plain c) ∧ newline ≠ [] := by
  rcases h with rfl | rfl
  · exact ⟨by decide, by decide⟩
  · exact ⟨by decide, by decide⟩

theorem faithful_toText {d : Document} (hn : IsNewline d.newline)
    (hf : ∀ line ∈ d.lines, Faithful line) : Faithful d.toText := by
  obtain ⟨hp, hne⟩ := plain_of_isNewline hn
  unfold toText
  split
  · exact (faithful_append_plain hp).mpr (faithful_join hp hne hf)
  · rw [List.append_nil]
    exact faithful_join hp hne hf

theorem subset_join {newline line : Text} {lines : List Text} (h : line ∈ lines) :
    line ⊆ join newline lines := by
  induction lines with
  | nil => cases h
  | cons first lines ih =>
    cases lines with
    | nil =>
      rw [List.mem_singleton.mp h]
      exact List.Subset.refl _
    | cons next lines =>
      rw [join, List.append_assoc]
      rcases List.mem_cons.mp h with rfl | h
      · exact List.subset_append_left _ _
      · exact fun c hc => List.mem_append_right _ (List.mem_append_right _ (ih h hc))

/-- **Other lines in a document, written and read again.** -/
theorem ofBytes?_toBytes {d : Document} (hd : d.Sound) {lines : List Text}
    (hu : ∀ line ∈ lines, Unbroken line) (hf : ∀ line ∈ lines, Faithful line)
    (hb : ∃ line ∈ lines, isEmptyLine line = false) :
    ∃ e, ofBytes? (d.withLines lines).toBytes = some e ∧ Loosened e.lines lines := by
  obtain ⟨line, hl, hline⟩ := hb
  have htext : decode (d.withLines lines).toBytes = (d.withLines lines).toText :=
    decode_encode (faithful_toText (d := d.withLines lines) hd.newline hf)
  have hblank : isEmptyLine (d.withLines lines).toText = false := by
    rw [← Bool.not_eq_true, blanks_iff] at hline ⊢
    intro h
    refine hline fun c hc => h c ?_
    exact List.mem_append_left _ (subset_join hl hc)
  refine ⟨ofText (d.withLines lines).toText, ?_, ?_⟩
  · unfold ofBytes?
    rw [htext]
    simp [hblank]
  · exact loosened_ofText (d := d.withLines lines) hd.newline (List.ne_nil_of_mem hl) hu

end Document

end ModelScale
