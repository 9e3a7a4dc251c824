import ModelScale.Proofs.Vrd.Unswayed

/-
# What comments have to do with a capture

A capture looks at live lines, and on those it looks at the whole line, comments included.  Of what
it finds there it takes the name of a helper and the coordinates (`capture_congr`).  So a comment
has a part in a capture only by what it adds to the line that it stands on.  Main statement:

* `capture_eq_of_outlines_eq`: scripts that differ inside comments alone are captured alike, as long
  as the live lines where they differ are tame.

On a tame line the comments do not hold what the line is read by (`Tame`); they may well hold tags,
numbers, or a whole rest position behind the one that counts.  Nothing is asked of other lines:
inside blocks, and on lines that begin with a comment, anything may stand but the close of the
block.  That the live lines cannot be left alone is shown by `capture_eq_of_outlines_eq_swayed`.
-/

namespace ModelScale

open Text Comment

/-! ## 1. What a capture takes from a line -/

namespace Baseline

theorem captureSite_bare (settings : Settings) (previous : Quantity) (b : Baseline)
    (owner : Option Text) (earlier : List Text) (shape : Option VrdShape) :
    captureSite settings previous b (siteOf owner earlier (shape.map VrdShape.bare)) =
      captureSite settings previous b (siteOf owner earlier shape) := by
  rcases shape with _ | (_ | _ | _ | _ | _ | _) <;> cases owner <;> rfl

theorem nextOwner_bare (owner : Option Text) (shape : Option VrdShape) :
    nextOwner owner (shape.map VrdShape.bare) = nextOwner owner shape := by
  rcases shape with _ | (_ | _ | _ | _ | _ | _) <;> rfl

theorem nextEarlier_bare (owner : Option Text) (earlier : List Text) (shape : Option VrdShape) :
    nextEarlier owner earlier (shape.map VrdShape.bare) = nextEarlier owner earlier shape := by
  rcases shape with _ | (_ | _ | _ | _ | _ | _) <;> rfl

theorem captureSites_bare (settings : Settings) (previous : Quantity) (b : Baseline)
    (owner : Option Text) (earlier : List Text) (shapes : List (Option VrdShape)) :
    (sitesFrom owner earlier (shapes.map (Option.map VrdShape.bare))).foldlM
        (captureSite settings previous) b =
      (sitesFrom owner earlier shapes).foldlM (captureSite settings previous) b := by
  induction shapes generalizing b owner earlier with
  | nil => rfl
  | cons shape shapes ih =>
    rw [List.map_cons, sitesFrom_cons, sitesFrom_cons, List.foldlM_cons, List.foldlM_cons,
      captureSite_bare, nextOwner_bare, nextEarlier_bare]
    exact bind_congr fun c => ih c _ _

/-- **A capture depends on helper names and coordinates** alone, line by line. -/
theorem capture_congr {settings : Settings} {lines lines' : List Text}
    (h : (classifyAll .code lines).map (Option.map VrdShape.bare) =
      (classifyAll .code lines').map (Option.map VrdShape.bare)) (previous : Quantity) :
    capture settings lines previous = capture settings lines' previous := by
  unfold capture survey
  rw [← captureSites_bare, h, captureSites_bare]

end Baseline

/-! ## 2. Lines that differ in comments -/

/-- One line: without a record, it is classified by its outline, unless its comments sway it. -/
theorem classify_congr {g : Region} {line line' : Text} (ho : outline g line = outline g line')
    (hr : VrdShape.record? line = none) (hr' : VrdShape.record? line' = none)
    (hs : inert g line = false → inert g line' = false → line ≠ line' →
      Unswayed line ∧ Unswayed line') :
    (classify g line).1.map VrdShape.bare = (classify g line').1.map VrdShape.bare := by
  have hi : inert g line' = inert g line := by
    rw [← inert_outline, ← ho, inert_outline]
  rw [classify, hr, classify, hr']
  dsimp only
  rw [hi]
  cases hl : inert g line with
  | true => rfl
  | false =>
    have hg : g = .code := by
      cases g with
      | code => rfl
      | block => cases hl
    subst hg
    by_cases he : line = line'
    · rw [he]
    · obtain ⟨h1, h2⟩ := hs hl (hi.trans hl) he
      simp only [Bool.false_eq_true, if_false]
      exact h1.trans (ho ▸ h2.symm)

/-- All lines. -/
theorem classifyAll_congr {g : Region} {lines lines' : List Text}
    (ho : outlines g lines = outlines g lines')
    (hr : ∀ line ∈ lines, VrdShape.record? line = none)
    (hr' : ∀ line ∈ lines', VrdShape.record? line = none)
    (hs : ∀ (i : Nat) (line line' : Text), (liveLines g lines)[i]? = some (some line) →
      (liveLines g lines')[i]? = some (some line') → line ≠ line' →
      Unswayed line ∧ Unswayed line') :
    (classifyAll g lines).map (Option.map VrdShape.bare) =
      (classifyAll g lines').map (Option.map VrdShape.bare) := by
  induction lines generalizing g lines' with
  | nil =>
    cases lines' with
    | nil => rfl
    | cons line' rest' => cases ho
  | cons line rest ih =>
    cases lines' with
    | nil => cases ho
    | cons line' rest' =>
      rw [outlines_cons, outlines_cons] at ho
      obtain ⟨hline, hrest⟩ := List.cons.inj ho
      obtain ⟨hrl, hr⟩ := List.forall_mem_cons.mp hr
      obtain ⟨hrl', hr'⟩ := List.forall_mem_cons.mp hr'
      have ha : advance g line' = advance g line := by
        rw [← advance_outline, ← hline, advance_outline]
      have hnext : ∀ l : Text, VrdShape.record? l = none → (classify g l).2 = advance g l := by
        intro l hl
        rw [classify, hl]
      rw [classifyAll_cons, classifyAll_cons, List.map_cons, List.map_cons, hnext line hrl,
        hnext line' hrl', ha]
      rw [ha] at hrest
      congr 1
      · refine classify_congr hline hrl hrl' ?_
        intro hi hi' hne
        refine hs 0 line line' ?_ ?_ hne
        · rw [liveLines, hi]; rfl
        · rw [liveLines, hi']; rfl
      · refine ih hrest hr hr' ?_
        intro i l l' hl hl'
        refine hs (i + 1) l l' ?_ ?_
        · rw [liveLines, List.getElem?_cons_succ]; exact hl
        · rw [liveLines, List.getElem?_cons_succ, ha]; exact hl'

namespace Baseline

/-- **Scripts that differ inside comments alone are captured alike**, or fail alike, if the live
lines where they differ are tame. -/
theorem capture_eq_of_outlines_eq {lines lines' : List Text}
    (hu : ∀ line ∈ lines, Unbroken line) (hu' : ∀ line ∈ lines', Unbroken line)
    (ho : outlines .code lines = outlines .code lines')
    (hr : ∀ line ∈ lines, VrdShape.record? line = none)
    (hr' : ∀ line ∈ lines', VrdShape.record? line = none)
    (ht : ∀ (i : Nat) (line line' : Text), (liveLines .code lines)[i]? = some (some line) →
      (liveLines .code lines')[i]? = some (some line') → line ≠ line' → Tame line ∧ Tame line')
    (previous : Quantity) :
    capture {} lines previous = capture {} lines' previous := by
  refine capture_congr (classifyAll_congr ho hr hr' ?_) previous
  intro i line line' hl hl' hne
  obtain ⟨h, h'⟩ := ht i line line' hl hl' hne
  have hm : line ∈ lines := mem_of_mem_liveLines (List.mem_of_getElem? hl)
  have hm' : line' ∈ lines' := mem_of_mem_liveLines (List.mem_of_getElem? hl')
  exact ⟨h.unswayed (hu line hm), h'.unswayed (hu' line' hm')⟩

/-- Two scripts with different comments: notes behind a helper, behind and within a rest position
and a trigger, and behind a line that is neither, some with tags in them; a block over three lines
with a rest position in it; and a commented trigger. -/
theorem capture_eq_of_outlines_eq_small :
    let lines : List Text := ["<helper> h // note".toList, "<display> 1 1 1 // note".toList,
      "/* first".toList, "<basepos> 5 5 5".toList, "last */".toList,
      "<basepos> 2 0 4 // was <basepos> 3 0 4".toList,
      "<trigger> 90 0 0 0 /* at the joint */ 1 1 1".toList,
      "// <trigger> 90 0 0 0 1 1 1".toList]
    let lines' : List Text := ["<helper> h // <basepos> 1 1 1".toList,
      "<display> 1 1 1 // <helper> g".toList, "/*".toList, [], " <helper> g * / */".toList,
      "<basepos> 2 0 4 //".toList, "<trigger> 90 0 0 0 /* <trigger> 2 2 2 */ 1 1 1".toList,
      "//".toList]
    lines ≠ lines' ∧ outlines .code lines = outlines .code lines' ∧
      (capture {} lines (.written "2".toList)).toOption.isSome = true ∧
      capture {} lines (.written "2".toList) = capture {} lines' (.written "2".toList) := by
  intro lines lines'
  have ho : outlines .code lines = outlines .code lines' := by decide +kernel
  have hall : ∀ p ∈ (liveLines .code lines).zip (liveLines .code lines'), ∀ l ∈ p.1, ∀ l' ∈ p.2,
      l ≠ l' → Tame l ∧ Tame l' := by
    decide +kernel
  refine ⟨by decide +kernel, ho, by decide +kernel,
    capture_eq_of_outlines_eq (by decide +kernel) (by decide +kernel) ho (by decide +kernel)
      (by decide +kernel) ?_ _⟩
  intro i l l' hl hl'
  exact hall (some l, some l') (List.mem_iff_getElem?.mpr
    ⟨i, List.getElem?_zip_eq_some.mpr ⟨hl, hl'⟩⟩) l rfl l' rfl

/-- A rest position in a comment behind other text is read, as the line that it stands on is
live. -/
theorem capture_eq_of_outlines_eq_swayed :
    let lines : List Text := ["<helper> h".toList, "<display> 1 1 1 // <basepos> 1 2 3".toList]
    let lines' : List Text := ["<helper> h".toList, "<display> 1 1 1 // note".toList]
    outlines .code lines = outlines .code lines' ∧
      (∀ line ∈ lines ++ lines', Unbroken line ∧ VrdShape.record? line = none) ∧
      ∃ b c, capture {} lines (.written "1".toList) = .ok b ∧
        capture {} lines' (.written "1".toList) = .ok c ∧
        b.rest.get? "h".toList =
          some ⟨"1.000000".toList, "2.000000".toList, "3.000000".toList⟩ ∧
        c.rest.get? "h".toList = none := by
  intro lines lines'
  have hb : ∃ b ∈ (capture {} lines (.written "1".toList)).toOption, b.rest.get? "h".toList =
      some ⟨"1.000000".toList, "2.000000".toList, "3.000000".toList⟩ := by
    decide +kernel
  have hc : ∃ c ∈ (capture {} lines' (.written "1".toList)).toOption,
      c.rest.get? "h".toList = none := by
    decide +kernel
  obtain ⟨b, hb, hbv⟩ := hb
  obtain ⟨c, hc, hcv⟩ := hc
  exact ⟨by decide +kernel, by decide +kernel, b, c, toOption_eq_some.mp hb, toOption_eq_some.mp hc,
    hbv, hcv⟩

end Baseline

end ModelScale
