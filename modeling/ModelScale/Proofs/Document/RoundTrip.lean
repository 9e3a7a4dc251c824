import ModelScale.Proofs.Document

/-
# A document is written as it was read

Reading cuts a text at its newlines and keeps the kind of newline and whether the last line has one;
writing puts the lines together again.  Between the two stands the text with every newline a line
feed (`unifyNewlines`): the document written is that text with the document's newline in the place
of each line feed (`toText_ofText_eq`).  So a text of line feeds comes back as it is, and in any
other the line feeds that stand alone get the carriage return that they lack (`complete`).  Main
statement:

* `written_as_read`: the text that is written, and the document that is read from it.
-/

namespace ModelScale.Document

open Text

/-! ## 1. Another newline -/

/-- The text with a newline in the place of each line feed. -/
def respell (newline t : Text) : Text :=
  t.flatMap fun c => if c = '\n' then newline else [c]

@[simp] theorem respell_nil (newline : Text) : respell newline [] = [] := rfl

@[simp] theorem respell_lineFeed (newline t : Text) :
    respell newline ('\n' :: t) = newline ++ respell newline t := rfl

theorem respell_cons {c : Char} (hc : c ≠ '\n') (newline t : Text) :
    respell newline (c :: t) = c :: respell newline t := by
  rw [respell, List.flatMap_cons, if_neg hc]
  rfl

theorem respell_append (newline s t : Text) :
    respell newline (s ++ t) = respell newline s ++ respell newline t :=
  List.flatMap_append

theorem respell_self (t : Text) : respell ['\n'] t = t := by
  induction t with
  | nil => rfl
  | cons c t ih =>
    by_cases hc : c = '\n'
    · rw [hc, respell_lineFeed, ih]
      rfl
    · rw [respell_cons hc, ih]

/-- The pieces of a text with a newline between each two. -/
theorem join_splitAt (newline t : Text) : join newline (splitAt '\n' t) = respell newline t := by
  induction t with
  | nil => rfl
  | cons c t ih =>
    obtain ⟨piece, rest, he⟩ := exists_splitAt_eq_cons t
    rw [he] at ih
    by_cases hc : c = '\n'
    · rw [hc, splitAt, if_pos rfl, he, join, ih, respell_lineFeed, List.nil_append]
    · rw [splitAt, if_neg hc, he, respell_cons hc, ← ih]
      cases rest <;> rfl

/-- **A document that was read is written** with its newline in the place of each line feed. -/
theorem toText_ofText_eq (t : Text) :
    (ofText t).toText = respell (newlineOf t) (unifyNewlines t) := by
  have hpieces : ∀ u : Text, (splitAt '\n' u).isEmpty = false := by
    intro u
    obtain ⟨piece, rest, he⟩ := exists_splitAt_eq_cons u
    rw [he]
    rfl
  unfold ofText
  dsimp only
  split
  · rename_i hlast
    obtain ⟨u, hu⟩ := List.getLast?_eq_some_iff.mp hlast
    rw [hu, splitAt_concat, List.dropLast_concat]
    unfold toText
    rw [hpieces, join_splitAt, respell_append, respell_lineFeed, respell_nil, List.append_nil]
    rfl
  · rw [toText_of_not_endsInNewline rfl, join_splitAt]

/-! ## 2. The newline of a text -/

theorem newlineOf_of_occurs {t : Text} (h : occurs longNewline t = true) :
    newlineOf t = longNewline := if_pos h

theorem newlineOf_of_not_occurs {t : Text} (h : occurs longNewline t = false) :
    newlineOf t = ['\n'] := if_neg (by simp [h])

/-- A text without a long newline has nothing to unify. -/
theorem unifyNewlines_of_not_occurs {t : Text} (h : occurs longNewline t = false) :
    unifyNewlines t = t := by
  have hno : ¬ longNewline <:+: t := by rw [← occurs_iff, h]; simp
  clear h
  fun_induction unifyNewlines t with
  | case1 => rfl
  | case2 t _ => exact absurd (List.prefix_append longNewline t).isInfix hno
  | case3 c t _ ih => rw [ih fun h => hno (List.infix_cons h)]

/-- Unified, a text with a long newline has a line feed still. -/
theorem mem_unifyNewlines {t : Text} (h : longNewline <:+: t) : '\n' ∈ unifyNewlines t := by
  fun_induction unifyNewlines t with
  | case1 => simp [longNewline] at h
  | case2 t _ => exact List.mem_cons_self
  | case3 c t hc ih =>
    rcases List.infix_cons_iff.mp h with ⟨u, hu⟩ | h
    · obtain ⟨rfl, rfl⟩ := List.cons.inj hu
      exact absurd rfl (hc u rfl)
    · exact List.mem_cons_of_mem _ (ih h)

theorem infix_respell {t : Text} (h : '\n' ∈ t) (newline : Text) :
    newline <:+: respell newline t := by
  obtain ⟨s, u, rfl⟩ := List.append_of_mem h
  exact ⟨respell newline s, respell newline u, by simp [respell_append]⟩

/-- No line feed comes first in a text with long newlines. -/
theorem respell_longNewline_ne (t u : Text) : respell longNewline t ≠ '\n' :: u := by
  cases t with
  | nil => simp
  | cons c t =>
    by_cases hc : c = '\n'
    · rw [hc, respell_lineFeed]
      intro h
      exact absurd (List.cons.inj h).1 (by decide)
    · rw [respell_cons hc]
      exact fun h => hc (List.cons.inj h).1

/-- **Long newlines are unified to the line feeds that they were put for.** -/
theorem unifyNewlines_respell (t : Text) : unifyNewlines (respell longNewline t) = t := by
  induction t with
  | nil => rfl
  | cons c t ih =>
    by_cases hc : c = '\n'
    · rw [hc, respell_lineFeed]
      exact congrArg ('\n' :: ·) ih
    · rw [respell_cons hc, unifyNewlines_cons fun _ => respell_longNewline_ne t, ih]

/-! ## 3. The carriage returns that are missing -/

/-- The text behind a character, with a carriage return in front of each line feed that has none. -/
def completeAfter (last : Option Char) : Text → Text
  | [] => []
  | c :: t =>
    if c = '\n' ∧ last ≠ some '\r' then '\r' :: c :: completeAfter (some c) t
    else c :: completeAfter (some c) t

/-- The text with a carriage return in front of each line feed that has none. -/
def complete (t : Text) : Text :=
  completeAfter none t

/-- The character in front is nothing to a text unless it is a carriage return and the text begins
with a line feed. -/
theorem completeAfter_eq {last : Option Char} {t : Text}
    (h : last = some '\r' → ∀ u, t ≠ '\n' :: u) : completeAfter last t = complete t := by
  cases t with
  | nil => rfl
  | cons c t =>
    have hif : (c = '\n' ∧ last ≠ some '\r') ↔ (c = '\n' ∧ (none : Option Char) ≠ some '\r') := by
      refine and_congr_right ?_
      rintro rfl
      exact iff_of_true (fun hl => h hl t rfl) (by simp)
    rw [complete, completeAfter, completeAfter, if_congr hif rfl rfl]

/-- **Long newlines in the place of all** are the carriage returns that were missing. -/
theorem respell_unifyNewlines (t : Text) : respell longNewline (unifyNewlines t) = complete t := by
  fun_induction unifyNewlines t with
  | case1 => rfl
  | case2 t ih =>
    have hbehind : completeAfter (some '\n') t = complete t := completeAfter_eq (by simp)
    rw [respell_lineFeed, ih, ← hbehind]
    rfl
  | case3 c t hc ih =>
    have hbehind : completeAfter (some c) t = complete t :=
      completeAfter_eq fun hr u hu => hc u (Option.some.inj hr) hu
    by_cases hn : c = '\n'
    · rw [hn] at hbehind ⊢
      rw [respell_lineFeed, ih, ← hbehind]
      rfl
    · rw [respell_cons hn, ih, ← hbehind, complete, completeAfter, if_neg fun h => hn h.1]

/-! ## 4. There and back -/

/-- A document is read from its newline and its unified text. -/
theorem ofText_congr {s t : Text} (hu : unifyNewlines s = unifyNewlines t)
    (hn : newlineOf s = newlineOf t) : ofText s = ofText t := by
  rw [ofText, ofText, hu, hn]

/-- A text without a long newline is written as it was read. -/
theorem toText_ofText_of_not_occurs {t : Text} (h : occurs longNewline t = false) :
    (ofText t).toText = t := by
  rw [toText_ofText_eq, newlineOf_of_not_occurs h, unifyNewlines_of_not_occurs h, respell_self]

/-- **A text that is read and written** is the text again if it has no long newline; otherwise each
line feed without a carriage return in front gets one, and nothing else changes.  What is written is
read as the same document. -/
theorem written_as_read (t : Text) :
    (ofText t).toText = (if occurs longNewline t then complete t else t) ∧
      ofText (ofText t).toText = ofText t := by
  cases h : occurs longNewline t with
  | false =>
    rw [toText_ofText_of_not_occurs h]
    exact ⟨rfl, rfl⟩
  | true =>
    rw [toText_ofText_eq, newlineOf_of_occurs h]
    refine ⟨respell_unifyNewlines t, ofText_congr (unifyNewlines_respell _) ?_⟩
    have hwritten := infix_respell (mem_unifyNewlines (occurs_iff.mp h)) longNewline
    rw [newlineOf_of_occurs h, newlineOf_of_occurs (occurs_iff.mpr hwritten)]

/-- Newlines of both kinds, a carriage return that stands alone and a second one in front of a
newline. -/
example : (ofText "a\nb\r\r\n\rc\n".toList).toText = "a\r\nb\r\r\n\rc\r\n".toList := by
  decide

end ModelScale.Document
