import ModelScale.Proofs.Document.RoundTrip
import ModelScale.Proofs.Qc.Session
import ModelScale.Proofs.Vrd.Written

/-
# The newline of a file that is rewritten

A file is written with the newline that it was read with, so the rewritten file should be read with
the same one.  In a file of long newlines nothing can go wrong.  In one of line feeds a carriage
return that stands alone is an ordinary character, and if a line ends in one and a newline is put
behind it, the two are a long newline, and every line has one from then on.  In the file that was
read no line ends in a carriage return but the last, and that only without a newline behind it
(`Settled`).  A model script stays so: a line that is written is trimmed, and the last line stays
the last.  A procedural-bones script does not: the first rescale puts its marker block behind the
last line, whatever that ends in.  Main statement:

* `newlines_kept`: a rewritten model script keeps the newlines of its file, and a rescaled
  procedural-bones script does just when no marker block is put behind a carriage return.
-/

namespace ModelScale

open Text Comment Baseline

namespace Document

/-! ## 1. Carriage returns at the end -/

/-- The text ends in a carriage return. -/
def Returning (t : Text) : Prop := t.getLast? = some '\r'

instance (t : Text) : Decidable (Returning t) := inferInstanceAs (Decidable (_ = _))

theorem not_returning_nil : ¬ Returning [] := by
  intro h
  cases h

theorem returning_append_cons {c : Char} (hc : c ≠ '\r') (s t : Text) :
    Returning (s ++ c :: t) ↔ Returning t := by
  unfold Returning
  rcases List.eq_nil_or_concat t with rfl | ⟨u, d, rfl⟩
  · simp [hc]
  · rw [List.concat_eq_append, ← List.cons_append, ← List.append_assoc, List.getLast?_concat,
      List.getLast?_concat]

theorem ne_return {c : Char} (h : isBlank c = false) : c ≠ '\r' := by
  rintro rfl
  exact absurd h (by decide)

theorem not_returning_of_inked {t : Text} (h : Inked t) : ¬ Returning t := by
  intro hr
  exact absurd (h _ (List.mem_of_getLast? hr)) (by decide)

theorem not_returning_trimEnd (t : Text) : ¬ Returning (trimEnd t) := by
  rcases trimEnd_eq_nil_or t with h | ⟨s, c, h, hc⟩
  · rw [h]
    exact not_returning_nil
  · rw [h, returning_append_cons (ne_return hc)]
    exact not_returning_nil

/-- Joined texts end as the last of them. -/
theorem returning_join_concat {c : Char} (hc : c ≠ '\r') (front : List Text) (last : Text) :
    Returning (join [c] (front ++ [last])) ↔ Returning last := by
  induction front with
  | nil => rfl
  | cons first front ih =>
    have hjoin :
        join [c] (first :: front ++ [last]) = first ++ c :: join [c] (front ++ [last]) := by
      cases front <;> simp [join]
    rw [hjoin, returning_append_cons hc, ih]

/-! ## 2. Files of long newlines -/

/-- Every line feed has a carriage return in front. -/
def Completed (t : Text) : Prop :=
  ∀ pre post, t = pre ++ '\n' :: post → Returning pre

theorem completed_of_unbroken {t : Text} (h : Unbroken t) : Completed t := by
  rintro pre post rfl
  exact absurd (by simp) h

theorem completed_longNewline : Completed longNewline := by
  intro pre post h
  rcases pre with _ | ⟨c, _ | ⟨d, pre⟩⟩
  · cases h
  · obtain ⟨rfl, -⟩ := List.cons.inj h
    rfl
  · have := congrArg List.length h
    simp [longNewline] at this

theorem Completed.append {s t : Text} (hs : Completed s) (ht : Completed t) :
    Completed (s ++ t) := by
  intro pre post h
  rcases List.append_eq_append_iff.mp h with ⟨u, rfl, hu⟩ | ⟨u, rfl, hu⟩
  · have hr := ht u post hu
    unfold Returning at hr ⊢
    rw [List.getLast?_append, hr]
    rfl
  · cases u with
    | nil => exact absurd (ht [] post hu.symm) not_returning_nil
    | cons c u =>
      obtain ⟨rfl, -⟩ := List.cons.inj hu
      exact hs pre u rfl

theorem completed_join {lines : List Text} (hu : ∀ line ∈ lines, Unbroken line) :
    Completed (join longNewline lines) := by
  induction lines with
  | nil => exact completed_of_unbroken unbroken_nil
  | cons line lines ih =>
    obtain ⟨hl, hu⟩ := List.forall_mem_cons.mp hu
    cases lines with
    | nil => exact completed_of_unbroken hl
    | cons next lines =>
      rw [join]
      exact ((completed_of_unbroken hl).append completed_longNewline).append (ih hu)

/-- **A document of long newlines** has a carriage return in front of every line feed. -/
theorem completed_toText {d : Document} (hn : d.newline = longNewline)
    (hu : ∀ line ∈ d.lines, Unbroken line) : Completed d.toText := by
  unfold toText
  rw [hn]
  split
  · exact (completed_join hu).append completed_longNewline
  · rw [List.append_nil]
    exact completed_join hu

theorem occurs_of_completed {t : Text} (h : Completed t) (hm : '\n' ∈ t) :
    occurs longNewline t = true := by
  obtain ⟨pre, post, rfl⟩ := List.append_of_mem hm
  obtain ⟨s, rfl⟩ := List.getLast?_eq_some_iff.mp (h pre post rfl)
  exact occurs_iff.mpr ⟨s, post, by simp [longNewline]⟩

/-! ## 3. Files of line feeds -/

/-- No line that a newline follows ends in a carriage return; `ends` says whether one follows the
last. -/
def Settled (ends : Bool) : List Text → Prop
  | [] => True
  | [line] => ends = true → ¬ Returning line
  | line :: next :: lines => ¬ Returning line ∧ Settled ends (next :: lines)

section Settled

variable {ends : Bool} {line : Text} {lines lines' : List Text}

theorem settled_cons (h : ¬ Returning line) (hs : Settled ends lines) :
    Settled ends (line :: lines) := by
  cases lines with
  | nil => exact fun _ => h
  | cons next lines => exact ⟨h, hs⟩

theorem Settled.tail (h : Settled ends (line :: lines)) : Settled ends lines := by
  cases lines with
  | nil => trivial
  | cons next lines => exact h.2

theorem settled_append (hne : lines ≠ []) {front : List Text} :
    Settled ends (front ++ lines) ↔ (∀ line ∈ front, ¬ Returning line) ∧ Settled ends lines := by
  induction front with
  | nil => simp
  | cons first front ih =>
    obtain ⟨next, others, he⟩ :=
      List.exists_cons_of_ne_nil (List.append_ne_nil_of_right_ne_nil front hne)
    rw [List.forall_mem_cons, and_assoc, ← ih, List.cons_append, he]
    rfl

theorem settled_of_forall (h : ∀ line ∈ lines, ¬ Returning line) : Settled ends lines := by
  induction lines with
  | nil => trivial
  | cons line lines ih =>
    obtain ⟨h1, h2⟩ := List.forall_mem_cons.mp h
    exact settled_cons h1 (ih h2)

/-- A pass that leaves no new carriage return at the end of a line. -/
theorem Settled.of_forall₂ (hs : Settled ends lines)
    (h : List.Forall₂ (fun line line' => Returning line' → Returning line) lines lines') :
    Settled ends lines' := by
  induction h with
  | nil => trivial
  | cons hab h ih =>
    cases h with
    | nil => exact fun he hr => hs he (hab hr)
    | cons _ _ => exact ⟨fun hr => hs.1 (hab hr), ih hs.2⟩

/-- A line in the place of at most one other. -/
theorem Settled.place {pre gone post : List Text} (hs : Settled ends (pre ++ (gone ++ post)))
    (hne : gone ++ post ≠ []) (hgone : gone.length ≤ 1) (h : ¬ Returning line) :
    Settled ends (pre ++ line :: post) := by
  obtain ⟨hpre, hs⟩ := (settled_append hne).mp hs
  refine (settled_append (List.cons_ne_nil _ _)).mpr ⟨hpre, settled_cons h ?_⟩
  match gone, hgone with
  | [], _ => exact hs
  | [_], _ => exact hs.tail

end Settled

/-- A line and its newline, and what follows. -/
theorem infix_line_iff {line : Text} (hu : Unbroken line) (rest : Text) :
    longNewline <:+: line ++ '\n' :: rest ↔ Returning line ∨ longNewline <:+: rest := by
  induction line with
  | nil =>
    rw [List.nil_append, List.infix_cons_iff]
    refine or_congr (iff_of_false ?_ not_returning_nil) Iff.rfl
    rintro ⟨u, hu⟩
    exact absurd (List.cons.inj hu).1 (by decide)
  | cons c line ih =>
    obtain ⟨hc, hl⟩ := unbroken_cons.mp hu
    rw [List.cons_append, List.infix_cons_iff, ih hl, ← or_assoc]
    refine or_congr ?_ Iff.rfl
    cases line with
    | nil => simp [longNewline, Returning, eq_comm]
    | cons d line =>
      have hd : d ≠ '\n' := (unbroken_cons.mp hl).1
      have hlast : Returning (c :: d :: line) ↔ Returning (d :: line) := by
        rw [Returning, Returning, List.getLast?_cons_cons]
      rw [hlast, or_iff_right]
      rintro ⟨u, hu⟩
      obtain ⟨-, hu⟩ := List.cons.inj hu
      exact hd (List.cons.inj hu).1.symm

/-- **Lines with line feeds between them spell a long newline** when one that a newline follows ends
in a carriage return. -/
theorem infix_join_iff {ends : Bool} {lines : List Text} (hu : ∀ line ∈ lines, Unbroken line) :
    longNewline <:+: join ['\n'] lines ++ (if ends && !lines.isEmpty then ['\n'] else []) ↔
      ¬ Settled ends lines := by
  induction lines with
  | nil => simp [join, longNewline, Settled]
  | cons line lines ih =>
    obtain ⟨hl, hu⟩ := List.forall_mem_cons.mp hu
    cases lines with
    | nil =>
      cases ends with
      | true =>
        have h := infix_line_iff hl []
        simpa [join, Settled, longNewline] using h
      | false =>
        refine iff_of_false ?_ (by simp [Settled])
        intro h
        simp only [join, Bool.false_and, Bool.false_eq_true, if_false, List.append_nil] at h
        exact hl (h.subset (by simp [longNewline]))
    | cons next lines =>
      have ih := ih hu
      simp only [List.isEmpty_cons, Bool.not_false, Bool.and_true] at ih ⊢
      rw [join, List.append_assoc, List.append_assoc, List.singleton_append, infix_line_iff hl, ih,
        Settled, not_and_or, not_not]

/-- **A document of line feeds** keeps clear of long newlines when it is settled. -/
theorem occurs_toText_iff {d : Document} (hn : d.newline = ['\n'])
    (hu : ∀ line ∈ d.lines, Unbroken line) :
    occurs longNewline d.toText = false ↔ Settled d.endsInNewline d.lines := by
  rw [← Bool.not_eq_true, occurs_iff, toText, hn, infix_join_iff hu, not_not]

/-- A settled document ends in a carriage return when one of its lines does. -/
theorem returning_toText_iff {d : Document} (hn : d.newline = ['\n']) (hne : d.lines ≠ [])
    (hs : Settled d.endsInNewline d.lines) :
    Returning d.toText ↔ ∃ line ∈ d.lines, Returning line := by
  obtain ⟨front, last, he⟩ : ∃ front last, d.lines = front ++ [last] := by
    obtain ⟨front, last, he⟩ := (List.eq_nil_or_concat d.lines).resolve_left hne
    exact ⟨front, last, by rw [he, List.concat_eq_append]⟩
  rw [he] at hs
  obtain ⟨hfront, hlast⟩ := (settled_append (List.cons_ne_nil last [])).mp hs
  cases hends : d.endsInNewline with
  | true =>
    refine iff_of_false ?_ ?_
    · rw [toText, hends, hn, he]
      simp [Returning]
    · rintro ⟨line, hl, hr⟩
      rw [he] at hl
      rcases List.mem_append.mp hl with hl | hl
      · exact hfront line hl hr
      · exact hlast hends (List.mem_singleton.mp hl ▸ hr)
  | false =>
    rw [toText_of_not_endsInNewline hends, hn, he, returning_join_concat (by decide)]
    constructor
    · exact fun h => ⟨last, by simp, h⟩
    · rintro ⟨line, hl, hr⟩
      rcases List.mem_append.mp hl with hl | hl
      · exact absurd hr (hfront line hl)
      · exact List.mem_singleton.mp hl ▸ hr

/-! ## 4. The convention -/

theorem unbroken_ofText (t : Text) : ∀ line ∈ (ofText t).lines, Unbroken line := by
  rcases lines_ofText t with ⟨u, -, he⟩ | ⟨-, he⟩
  · rw [he]
    exact unbroken_of_mem_splitAt
  · rw [he]
    exact unbroken_of_mem_splitAt

theorem lines_ofText_ne_nil (t : Text) : (ofText t).lines ≠ [] := by
  rcases lines_ofText t with ⟨u, -, he⟩ | ⟨-, he⟩
  · obtain ⟨piece, rest, hp⟩ := exists_splitAt_eq_cons u
    simp [he, hp]
  · obtain ⟨piece, rest, hp⟩ := exists_splitAt_eq_cons (unifyNewlines t)
    simp [he, hp]

/-- **A text without long newlines is settled.** -/
theorem settled_ofText {t : Text} (h : occurs longNewline t = false) :
    Settled (ofText t).endsInNewline (ofText t).lines := by
  have hn : (ofText t).newline = ['\n'] := by rw [newline_ofText, newlineOf_of_not_occurs h]
  rw [← occurs_toText_iff hn (unbroken_ofText t), toText_ofText_of_not_occurs h]
  exact h

/-- The second text has the newlines of the first: a carriage return in front of every line feed if
the first has a long newline, and no long newline if the first has none.  So if it has a newline at
all, it is read with that of the first. -/
structure KeepsNewlines (t u : Text) : Prop where
  long : occurs longNewline t = true → Completed u
  short : occurs longNewline t = false → occurs longNewline u = false
  newline : '\n' ∈ u → newlineOf u = newlineOf t

/-- **Other lines in the document of a text.** -/
theorem keepsNewlines_iff {t : Text} {lines : List Text} (hu : ∀ line ∈ lines, Unbroken line) :
    KeepsNewlines t ((ofText t).withLines lines).toText ↔
      (occurs longNewline t = false → Settled (ofText t).endsInNewline lines) := by
  have hnewline : ((ofText t).withLines lines).newline = newlineOf t := newline_ofText t
  cases h : occurs longNewline t with
  | true =>
    have hc := completed_toText (hnewline.trans (newlineOf_of_occurs h)) hu
    refine iff_of_true ⟨fun _ => hc, fun hf => ?_, fun hm => ?_⟩ (fun hf => nomatch hf)
    · rw [h] at hf
      cases hf
    · rw [newlineOf_of_occurs (occurs_of_completed hc hm), newlineOf_of_occurs h]
  | false =>
    have hiff := occurs_toText_iff (hnewline.trans (newlineOf_of_not_occurs h)) hu
    constructor
    · exact fun hk _ => hiff.mp (hk.short h)
    · intro hs
      have hno := hiff.mpr (hs rfl)
      refine ⟨fun hf => ?_, fun _ => hno, fun _ => ?_⟩
      · rw [h] at hf
        cases hf
      · rw [newlineOf_of_not_occurs hno, newlineOf_of_not_occurs h]

end Document

/-! ## 5. Model scripts -/

open Document

/-- A pass that trims the lines that it writes. -/
abbrev Trimmed (line line' : Text) : Prop := line' = line ∨ ∃ t, line' = trimEnd t

theorem forall₂_trimmed_refl (lines : List Text) : List.Forall₂ Trimmed lines lines :=
  List.forall₂_same.mpr fun _ _ => Or.inl rfl

theorem forall₂_zip_map {α β γ : Type} {R : α → γ → Prop} {f : α × β → γ}
    (hR : ∀ a b, R a (f (a, b))) {l : List α} {m : List β} (h : l.length = m.length) :
    List.Forall₂ R l ((l.zip m).map f) := by
  induction l generalizing m with
  | nil => exact .nil
  | cons a l ih =>
    cases m with
    | nil => cases h
    | cons b m => exact .cons (hR a b) (ih (Nat.succ.inj h))

theorem scaleEyeballs_trimmed {lines lines' : List Text} {factor : Quantity}
    {changes : List EyeballEdit} (h : scaleEyeballs {} lines factor = .ok (lines', changes)) :
    List.Forall₂ Trimmed lines lines' := by
  obtain ⟨eyeballs, he, h⟩ := bind_eq_ok.mp h
  obtain ⟨rfl, -⟩ := Prod.mk.inj (pure_eq_ok.mp h)
  refine forall₂_zip_map ?_ ?_
  · intro line eyeball?
    cases eyeball? with
    | none => exact Or.inl rfl
    | some eyeballs => exact Or.inr ⟨_, rfl⟩
  · rw [← (mapM_eq_ok.mp he).length_eq, liveLines_length]

theorem setModelName_trimmed {lines lines' : List Text} {scale : Quantity}
    {rename : Option PathEdit} (h : setModelName {} lines scale = .ok (lines', rename)) :
    List.Forall₂ Trimmed lines lines' := by
  unfold setModelName at h
  split at h
  · obtain ⟨rfl, -⟩ := Prod.mk.inj (Except.ok.inj h)
    exact forall₂_trimmed_refl lines
  · rename_i i model hm
    obtain ⟨d, -, h⟩ := bind_eq_ok.mp h
    obtain ⟨rfl, -⟩ := Prod.mk.inj (pure_eq_ok.mp h)
    split
    · obtain ⟨pre, line, post, rfl, rfl, -⟩ := firstLive?_eq_some_iff.mp hm
      rw [List.set_append_right _ _ le_rfl, Nat.sub_self, List.set_cons_zero]
      exact List.rel_append (forall₂_trimmed_refl pre)
        (.cons (Or.inr ⟨_, rfl⟩) (forall₂_trimmed_refl post))
    · exact forall₂_trimmed_refl lines

theorem Document.Settled.of_trimmed {ends : Bool} {lines lines' : List Text}
    (hs : Settled ends lines) (h : List.Forall₂ Trimmed lines lines') : Settled ends lines' := by
  refine hs.of_forall₂ (h.imp ?_)
  rintro line line' (rfl | ⟨t, rfl⟩) hr
  · exact hr
  · exact absurd hr (not_returning_trimEnd t)

theorem not_returning_newDirective (scale : Decimal) : ¬ Returning (newDirective scale) := by
  unfold newDirective
  rw [returning_append_cons (by decide)]
  exact not_returning_of_inked (Inked.compact scale)

/-- **The placement of a directive** leaves the lines settled. -/
theorem settled_placeDirective {ends : Bool} {lines : List Text}
    (hu : ∀ line ∈ lines, Unbroken line) (hs : Settled ends lines) (scale : Decimal) :
    Settled ends (placeDirective {} lines scale).lines := by
  obtain ⟨placed, he⟩ : ∃ placed, placeDirective {} lines scale = placed := ⟨_, rfl⟩
  have hplaced := placedIn_placeDirective hu scale
  have hnew := not_returning_newDirective scale
  rw [he] at hplaced ⊢
  cases hplaced with
  | @replaced pre post line gap d split front live directive text blanks =>
    rw [split, ← List.singleton_append] at hs
    rw [← Directive.setArgument_eq d (Inked.compact scale)
      (Numeral.ne_nil_of_isNumeral (Decimal.isNumeral_compact scale))]
    exact hs.place (by simp) (by simp) (not_returning_trimEnd _)
  | @replacedBlank pre post above line silent split blank first =>
    rw [split, ← List.singleton_append] at hs
    exact hs.place (by simp) (by simp) hnew
  | @inserted pre post line silent split first above =>
    rw [split, ← List.nil_append (line :: post)] at hs
    exact hs.place (by simp) (by simp) hnew
  | onTop silent blank => exact settled_cons hnew hs

/-- **A rescale of a model script** leaves its lines settled. -/
theorem settled_rescaleScript {ends : Bool} {lines : List Text}
    (hu : ∀ line ∈ lines, Unbroken line) (hs : Settled ends lines) {request : Request}
    {rename : Bool} {r : RescaledScript} (h : rescaleScript {} lines request rename = .ok r) :
    Settled ends r.lines := by
  unfold rescaleScript at h
  dsimp only at h
  obtain ⟨relative, -, h⟩ := bind_eq_ok.mp h
  obtain ⟨⟨scaled, changes⟩, hscaled, h⟩ := bind_eq_ok.mp h
  have hplaced := settled_placeDirective hu hs request.new
  have hpass := hplaced.of_trimmed (scaleEyeballs_trimmed hscaled)
  split at h
  · obtain ⟨⟨final, renamed⟩, hfinal, h⟩ := bind_eq_ok.mp h
    obtain rfl := pure_eq_ok.mp h
    exact hpass.of_trimmed (setModelName_trimmed hfinal)
  · obtain ⟨⟨final, renamed⟩, hfinal, h⟩ := bind_eq_ok.mp h
    obtain rfl := pure_eq_ok.mp h
    obtain ⟨rfl, -⟩ := Prod.mk.inj (pure_eq_ok.mp hfinal)
    exact hpass

theorem unbroken_rescaleScript {lines : List Text} (hu : ∀ line ∈ lines, Unbroken line)
    {request : Request} {rename : Bool} {r : RescaledScript}
    (h : rescaleScript {} lines request rename = .ok r) : ∀ line ∈ r.lines, Unbroken line := by
  obtain ⟨-, hpu, -⟩ := directs_placeDirective hu request.new
  exact (rescaleScript_eq_ok h hpu).2.1

/-! ## 6. Procedural-bones scripts -/

/-- Other coordinates change nothing at the end of a line. -/
theorem Recast.returning_iff {g : Region} {line line' : Text} (h : Recast g line line')
    (hu : Unbroken line) : Returning line' ↔ Returning line := by
  rcases h.exists_between hu with rfl | ⟨p, t, u, r, rfl, rfl, ht, hv, -⟩
  · rfl
  · obtain ⟨s, c, rfl, hc⟩ := ht.exists_last
    obtain ⟨v, d, rfl, hd⟩ := hv.exists_last
    have hassoc : ∀ (w : Text) (e : Char), p ++ (w ++ [e] ++ r) = (p ++ w) ++ e :: r := by simp
    rw [hassoc, hassoc, returning_append_cons (ne_return hd), returning_append_cons (ne_return hc)]

theorem Recasts.forall₂_returning {g : Region} {lines lines' : List Text}
    (h : Recasts g lines lines') (hu : ∀ line ∈ lines, Unbroken line) :
    List.Forall₂ (fun line line' => Returning line' ↔ Returning line) lines lines' := by
  induction h with
  | nil => exact .nil
  | cons h _ ih =>
    obtain ⟨hl, hu⟩ := List.forall_mem_cons.mp hu
    exact .cons (h.returning_iff hl) (ih hu)

theorem exists_returning_iff {lines lines' : List Text}
    (h : List.Forall₂ (fun line line' => Returning line' ↔ Returning line) lines lines') :
    (∃ line ∈ lines', Returning line) ↔ ∃ line ∈ lines, Returning line := by
  induction h with
  | nil => simp
  | cons hab _ ih => rw [List.exists_mem_cons_iff, List.exists_mem_cons_iff, hab, ih]

/-- No line of a marker block ends in a carriage return. -/
theorem unbroken_markerBlock {b : Baseline} (hb : b.Holds Unbroken) :
    ∀ line ∈ [] :: b.markerBlock {}, Unbroken line ∧ ¬ Returning line := by
  refine forall_markerBlock hb ⟨unbroken_nil, not_returning_nil⟩ ⟨by decide, by decide⟩
    ⟨by decide, by decide⟩ ?_
  intro fields v hf hv
  have hz : isNumeral v.z = true := hv.2.2
  constructor
  · refine unbroken_join (by decide) (List.forall_mem_cons.mpr ⟨by decide, ?_⟩)
    refine List.forall_mem_append.mpr ⟨fun t ht => ?_, fun t ht => ?_⟩
    · rcases hf t ht with h | ⟨h, -⟩
      · exact h
      · exact h
    · exact unbroken_of_isNumeral (Triple.isNumeral_of_mem hv t ht)
  · have hsplit : ['/', '/'] :: (fields ++ v.toList) =
        (['/', '/'] :: (fields ++ [v.x, v.y])) ++ [v.z] := by simp [Triple.toList]
    rw [commentOf, hsplit, returning_join_concat (by decide)]
    exact not_returning_of_inked (Numeral.inked_of_isNumeral hz)

/-- What comes of a script: its lines end as before, and behind them there may be a marker block, of
which no line ends in a carriage return. -/
theorem exists_tail_of_rescaleBones {lines : List Text} (hu : ∀ line ∈ lines, Unbroken line)
    {new previous : Quantity} {r : RescaledBones}
    (h : rescaleBones {} lines new previous = .ok r) :
    ∃ front tail, r.lines = front ++ tail ∧ (∀ line ∈ front, Unbroken line) ∧
      List.Forall₂ (fun line line' => Returning line' ↔ Returning line) lines front ∧
      (∀ line ∈ tail, Unbroken line ∧ ¬ Returning line) ∧ (tail ≠ [] ↔ r.markerWritten = true) := by
  obtain ⟨front, tail, hrec, he, htail⟩ := exists_recasts_of_rescaleBones h
  refine ⟨front, tail, he, hrec.forall_mem Recast.unbroken hu, hrec.forall₂_returning hu, ?_⟩
  rcases htail with ⟨hm, rfl⟩ | ⟨hm, b, gap, hcap, hmem, hgap⟩
  · exact ⟨by simp, by simp [hm]⟩
  · have hb : b.Holds Unbroken := holds_of_capture
      (fun line hl name hn hc => hu line hl ((isWord_of_readHelper? hn).2.subset hc)) hcap
    refine ⟨fun line hl => unbroken_markerBlock hb line (hmem line hl), iff_of_true ?_ hm⟩
    rw [hgap]
    simp [markerBlock]

theorem unbroken_rescaleBones {lines : List Text} (hu : ∀ line ∈ lines, Unbroken line)
    {new previous : Quantity} {r : RescaledBones}
    (h : rescaleBones {} lines new previous = .ok r) : ∀ line ∈ r.lines, Unbroken line := by
  obtain ⟨front, tail, he, hfront, -, htail, -⟩ := exists_tail_of_rescaleBones hu h
  rw [he]
  exact List.forall_mem_append.mpr ⟨hfront, fun line hl => (htail line hl).1⟩

/-- **A rescale of a procedural-bones script** leaves its lines settled, unless a marker block comes
behind a carriage return. -/
theorem settled_rescaleBones_iff {ends : Bool} {lines : List Text}
    (hu : ∀ line ∈ lines, Unbroken line) (hs : Settled ends lines) {new previous : Quantity}
    {r : RescaledBones} (h : rescaleBones {} lines new previous = .ok r) :
    Settled ends r.lines ↔ ¬ ((∃ line ∈ lines, Returning line) ∧ r.markerWritten = true) := by
  obtain ⟨front, tail, he, -, hfront, htail, hm⟩ := exists_tail_of_rescaleBones hu h
  rw [he, ← hm]
  by_cases hnil : tail = []
  · rw [hnil, List.append_nil]
    exact iff_of_true (hs.of_forall₂ (hfront.imp fun _ _ h => h.mp)) (by simp)
  · have hquiet : Settled ends tail := settled_of_forall fun line hl => (htail line hl).2
    rw [settled_append hnil, and_iff_left hquiet, and_iff_left hnil, ← exists_returning_iff hfront]
    simp only [not_exists, not_and]

/-! ## 7. What is written keeps the newlines -/

/-- **The newlines of a file are kept.**  A rewritten model script always has those of its file.  A
rescaled procedural-bones script has them too, unless a marker block was put behind a carriage
return that ended the file: with the newline in front of the block it makes a long one. -/
theorem newlines_kept (t : Text) :
    (∀ (request : Request) (rename : Bool) (r : RescaledScript),
        rescaleScript {} (ofText t).lines request rename = .ok r →
        KeepsNewlines t ((ofText t).withLines r.lines).toText) ∧
      ∀ (new previous : Quantity) (r : RescaledBones),
        rescaleBones {} (ofText t).lines new previous = .ok r →
        (KeepsNewlines t ((ofText t).withLines r.lines).toText ↔
          ¬ (occurs longNewline t = false ∧ t.getLast? = some '\r' ∧ r.markerWritten = true)) := by
  have hu := unbroken_ofText t
  constructor
  · intro request rename r h
    refine (keepsNewlines_iff (unbroken_rescaleScript hu h)).mpr fun hno => ?_
    exact settled_rescaleScript hu (settled_ofText hno) h
  · intro new previous r h
    rw [keepsNewlines_iff (unbroken_rescaleBones hu h)]
    cases hno : occurs longNewline t with
    | true => exact iff_of_true (fun hf => nomatch hf) fun hf => nomatch hf.1
    | false =>
      have hs := settled_ofText hno
      have hn : (ofText t).newline = ['\n'] := by rw [newline_ofText, newlineOf_of_not_occurs hno]
      have hlast := returning_toText_iff hn (lines_ofText_ne_nil t) hs
      rw [toText_ofText_of_not_occurs hno] at hlast
      rw [settled_rescaleBones_iff hu hs h, ← hlast, eq_self_iff_true, true_imp_iff, true_and,
        Returning]

/-- Two files that end in a carriage return: a model script of line feeds, and a script of newlines
of both kinds that gets its marker block. -/
theorem newlines_kept_behind_return :
    let t := "$scale 1\n$body x\r".toList
    let u := "<helper> h\r\n<basepos> 1 0 0\n// end\r".toList
    (∃ r, rescaleScript {} (ofText t).lines ⟨.one, ⟨false, 2, 0⟩⟩ true = .ok r ∧
        KeepsNewlines t ((ofText t).withLines r.lines).toText) ∧
      ∃ r, rescaleBones {} (ofText u).lines (.written ['2']) (.written ['1']) = .ok r ∧
        r.markerWritten = true ∧ KeepsNewlines u ((ofText u).withLines r.lines).toText := by
  intro t u
  constructor
  · have hrun : (rescaleScript {} (ofText t).lines ⟨.one, ⟨false, 2, 0⟩⟩ true).toOption.isSome := by
      decide +kernel
    obtain ⟨r, hr⟩ := Option.isSome_iff_exists.mp hrun
    have hr := toOption_eq_some.mp hr
    exact ⟨r, hr, (newlines_kept t).1 _ _ r hr⟩
  · have hrun : (rescaleBones {} (ofText u).lines (.written ['2'])
        (.written ['1'])).toOption.map (·.markerWritten) = some true := by
      decide +kernel
    obtain ⟨r, hr, hm⟩ := Option.map_eq_some_iff.mp hrun
    have hr := toOption_eq_some.mp hr
    refine ⟨r, hr, hm, ((newlines_kept u).2 _ _ r hr).mpr ?_⟩
    rintro ⟨hno, -⟩
    exact absurd hno (by decide +kernel)

/-- **A carriage return that ends a file of line feeds** becomes a long newline when the marker
block is put behind it, and the file is read with long newlines from then on. -/
theorem newlines_lost_behind_return :
    let t := "<helper> h\n<basepos> 1 0 0\n// end\r".toList
    ∃ r, rescaleBones {} (ofText t).lines (.written ['2']) (.written ['1']) = .ok r ∧
      occurs longNewline t = false ∧
      occurs longNewline ((ofText t).withLines r.lines).toText = true ∧
      newlineOf ((ofText t).withLines r.lines).toText ≠ newlineOf t := by
  intro t
  have hrun : (rescaleBones {} (ofText t).lines (.written ['2']) (.written ['1'])).toOption.map
      (fun r => occurs longNewline ((ofText t).withLines r.lines).toText) = some true := by
    decide +kernel
  obtain ⟨r, hr, ho⟩ := Option.map_eq_some_iff.mp hrun
  have hno : occurs longNewline t = false := by decide +kernel
  refine ⟨r, toOption_eq_some.mp hr, hno, ho, ?_⟩
  rw [newlineOf_of_occurs ho, newlineOf_of_not_occurs hno]
  decide

end ModelScale
