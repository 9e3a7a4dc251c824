import ModelScale.Proofs.Qc.Session

/-
# Commented lines stay as they are

A rescale goes over a script three times, and every pass tells inert lines from live ones on the
lines that the one before it left.  A live line can open a block comment behind what is rewritten on
it, so a line further down is commented out still only if every rewritten line ends in the region
that it ended in.  Main statements:

* `KeepsInert`: one list of lines stands for another as far as comments go; the passes over the
  eyeballs and the model name keep to it (`scaleEyeballs_keepsInert`, `setModelName_keepsInert`);
* `placeDirective_keepsInert`: so does the placement of the directive, if the argument that is
  replaced takes no part in a comment (`Directive.KeepsComments`);
* `inert_lines_stay`: the whole rescale.

The argument of a directive is a word, and a word can hold the opening of a comment.  With the
argument the opening is replaced, and the lines of the block come to life
(`inert_lines_stay_opening_lost`).  A script that was rescaled before has a number there
(`keepsComments_of_rescaleScript`).
-/

namespace ModelScale

open Text

namespace Comment

/-! ## 1. Lines in the place of others -/

/-- Lines that stand for others as far as comments go: an inert line is kept, and every line ends in
the region that the other one ends in. -/
inductive KeepsInert : Region → List Text → List Text → Prop where
  | nil {g : Region} : KeepsInert g [] []
  | cons {g : Region} {line line' : Text} {rest rest' : List Text}
      (hi : inert g line = true → line' = line) (ha : advance g line' = advance g line)
      (hr : KeepsInert (advance g line) rest rest') :
      KeepsInert g (line :: rest) (line' :: rest')

namespace KeepsInert

theorem refl (g : Region) (lines : List Text) : KeepsInert g lines lines := by
  induction lines generalizing g with
  | nil => exact .nil
  | cons line rest ih => exact .cons (fun _ => rfl) rfl (ih _)

theorem trans {g : Region} {lines lines' lines'' : List Text} (h : KeepsInert g lines lines')
    (h' : KeepsInert g lines' lines'') : KeepsInert g lines lines'' := by
  induction h generalizing lines'' with
  | nil => exact h'
  | cons hi ha _ ih =>
    cases h' with
    | cons hi' ha' hr' =>
      refine .cons ?_ (ha'.trans ha) (ih (ha ▸ hr'))
      intro h
      have hline := hi h
      rw [← hline]
      exact hi' (by rw [hline, h])

/-- A live line may become another one that ends in its region. -/
theorem of_live {g : Region} {pre post : List Text} {line line' : Text}
    (hi : inert (behind g pre) line = false)
    (ha : advance (behind g pre) line' = advance (behind g pre) line) :
    KeepsInert g (pre ++ line :: post) (pre ++ line' :: post) := by
  induction pre generalizing g with
  | nil =>
    refine .cons ?_ ha (refl _ post)
    intro h
    rw [behind_nil, h] at hi
    cases hi
  | cons first pre ih => exact .cons (fun _ => rfl) rfl (ih hi ha)

/-- **Inert lines are found again in their places**, and are inert there. -/
theorem getElem? {g : Region} {lines lines' : List Text} (h : KeepsInert g lines lines') {i : Nat}
    (hi : (liveLines g lines)[i]? = some none) :
    lines'[i]? = lines[i]? ∧ (liveLines g lines')[i]? = some none := by
  induction h generalizing i with
  | nil => cases hi
  | @cons g line line' rest rest' hk ha _ ih =>
    rw [liveLines] at hi ⊢
    cases i with
    | zero =>
      have hline : inert g line = true := by
        rw [← Bool.not_eq_false]
        intro h
        rw [List.getElem?_cons_zero, h] at hi
        cases hi
      obtain rfl := hk hline
      simp [hline]
    | succ i =>
      rw [List.getElem?_cons_succ] at hi
      rw [List.getElem?_cons_succ, List.getElem?_cons_succ, List.getElem?_cons_succ, ha]
      exact ih hi

end KeepsInert

/-! ## 2. A line more -/

/-- One element put in moves those behind it by one. -/
theorem getElem?_append_cons {α : Type} (xs ys : List α) (a : α) (i : Nat) :
    (xs ++ a :: ys)[if xs.length ≤ i then i + 1 else i]? = (xs ++ ys)[i]? := by
  split
  · rename_i h
    rw [List.getElem?_append_right (by omega), List.getElem?_append_right h,
      show i + 1 - xs.length = (i - xs.length) + 1 by omega, List.getElem?_cons_succ]
  · rename_i h
    rw [List.getElem?_append_left (by omega), List.getElem?_append_left (by omega)]

/-- A line that begins and ends in code, put in, changes nothing for the others. -/
theorem liveLines_append_cons {pre : List Text} {line : Text} (post : List Text)
    (hb : behind .code pre = .code) (ha : advance .code line = .code) (i : Nat) :
    (liveLines .code (pre ++ line :: post))[if pre.length ≤ i then i + 1 else i]? =
      (liveLines .code (pre ++ post))[i]? := by
  have h := getElem?_append_cons (liveLines .code pre) (liveLines .code post)
    (if inert .code line then none else some line) i
  rw [liveLines_length] at h
  rw [liveLines_append, liveLines_append, liveLines, hb, ha]
  exact h

end Comment

open Comment

/-! ## 3. The passes behind the directive -/

theorem keepsInert_of_scaledEyeball {factor : Quantity} {g : Region} {lines : List Text}
    {eyeballs : List (Option (Eyeball × Eyeball))} (hu : ∀ line ∈ lines, Unbroken line)
    (h : List.Forall₂ (fun line? r => scaledEyeball {} factor line? = .ok r) (liveLines g lines)
      eyeballs) :
    KeepsInert g lines
      ((lines.zip eyeballs).map fun row => (row.2.map (·.2.toLine)).getD row.1) := by
  induction lines generalizing g eyeballs with
  | nil => exact .nil
  | cons line lines ih =>
    obtain ⟨hl, hu⟩ := List.forall_mem_cons.mp hu
    rw [liveLines] at h
    cases h with
    | @cons _ r _ rs hr hrs =>
      rw [List.zip_cons_cons, List.map_cons]
      obtain ⟨hs, hk⟩ := spared_of_scaledEyeball hl hr
      refine .cons hk ?_ (ih hu hrs)
      dsimp only
      rcases hs with hs | ⟨hs, -⟩
      · rw [hs]
      · exact hs.advance_eq g

/-- **The pass over the eyeballs keeps inert lines.** -/
theorem scaleEyeballs_keepsInert {lines lines' : List Text} {factor : Quantity}
    {changes : List EyeballEdit} (hu : ∀ line ∈ lines, Unbroken line)
    (h : scaleEyeballs {} lines factor = .ok (lines', changes)) :
    KeepsInert .code lines lines' := by
  obtain ⟨eyeballs, he, h⟩ := bind_eq_ok.mp h
  obtain ⟨rfl, -⟩ := Prod.mk.inj (pure_eq_ok.mp h)
  exact keepsInert_of_scaledEyeball hu (mapM_eq_ok.mp he)

/-- **The pass over the model name keeps inert lines.** -/
theorem setModelName_keepsInert {lines lines' : List Text} {scale : Decimal}
    {rename : Option PathEdit} (hu : ∀ line ∈ lines, Unbroken line)
    (h : setModelName {} lines scale = .ok (lines', rename)) : KeepsInert .code lines lines' := by
  unfold setModelName at h
  split at h
  · obtain ⟨rfl, -⟩ := Prod.mk.inj (Except.ok.inj h)
    exact .refl _ lines
  · rename_i i model hm
    obtain ⟨d, hd, h⟩ := bind_eq_ok.mp h
    obtain rfl := Except.ok.inj hd
    obtain ⟨hl, -⟩ := Prod.mk.inj (pure_eq_ok.mp h)
    split at hl
    · obtain ⟨pre, line, post, rfl, rfl, -, hi, hr⟩ := firstLive?_eq_some_iff.mp hm
      rw [← hl, List.set_append_right _ _ le_rfl, Nat.sub_self, List.set_cons_zero]
      refine .of_live hi ?_
      rcases ModelName.spared (hu line (by simp)) hr scale with hs | ⟨hs, -⟩
      · rw [hs]
      · exact hs.advance_eq _
    · rw [← hl]
      exact .refl _ lines

/-! ## 4. The directive -/

namespace Directive

/-- The argument takes no part in a comment: the line ends in the region that it would end in
without the argument. -/
def KeepsComments (d : Directive) : Prop :=
  regionAfter .code (d.token ++ d.after) = regionAfter .code d.after

instance (d : Directive) : Decidable d.KeepsComments :=
  inferInstanceAs (Decidable (_ = _))

/-- An argument without slash and star keeps comments, a number above all. -/
theorem keepsComments_of_neutral {d : Directive} (h : Neutral d.token) : d.KeepsComments := by
  rw [KeepsComments, regionAfter_eq_scan, regionAfter_eq_scan, scan_append]
  exact congrArg (fun s => (scan s d.after).region) (scan_idle_neutral h .code)

theorem neutral_of_spelling {keyword : Text} (h : keyword.map foldCase = spelling) :
    Neutral keyword := by
  intro c hc
  constructor
  · rintro rfl
    exact not_mem_of_map_foldCase h (by decide) hc
  · rintro rfl
    exact not_mem_of_map_foldCase h (by decide) hc

/-- Up to its argument a directive leaves the line in code. -/
theorem scan_code_written {lead keyword b : Text} (hl : Blanks lead)
    (hk : keyword.map foldCase = spelling) (hb : Blanks b) (r : Text) :
    scan .code (lead ++ (keyword ++ (b ++ r))) = scan .code r := by
  have hn : Neutral (lead ++ (keyword ++ b)) := by
    rw [neutral_append, neutral_append]
    exact ⟨neutral_of_blanks hl, neutral_of_spelling hk, neutral_of_blanks hb⟩
  have e : lead ++ (keyword ++ (b ++ r)) = (lead ++ (keyword ++ b)) ++ r := by simp
  rw [e, scan_append]
  exact congrArg (fun s => scan s r) (scan_idle_neutral hn .code)

/-- **A directive with another argument ends in the region that it ended in** exactly if its old
argument took no part in a comment. -/
theorem advance_setArgument {line w : Text} {d : Directive} (hu : Unbroken line)
    (h : read? line = some d) (hw : Inked w) (hne : w ≠ []) (hn : Neutral w) :
    advance .code (d.setArgument w) = advance .code line ↔ d.KeepsComments := by
  obtain ⟨r, rfl, hb, hk, -, hn', -⟩ := (read?_eq_some_iff hu).mp h
  obtain ⟨b, hb', hr, -, -⟩ := exists_gap_nextWord r
  rw [hn'] at hr
  subst hr
  have hold : advance .code (d.lead ++ (d.keyword ++ (b ++ (d.token ++ d.after)))) =
      regionAfter .code (d.token ++ d.after) := by
    rw [advance_eq_scan, regionAfter_eq_scan]
    exact congrArg Scan.region (scan_code_written hb hk hb' _)
  have hnew : advance .code (d.setArgument w) = regionAfter .code d.after := by
    have hspace : Blanks [' '] := blanks_cons.mpr ⟨isBlank_space, blanks_nil⟩
    have hw' : scan .code (w ++ trimEnd d.after) = scan .code (trimEnd d.after) := by
      rw [scan_append]
      exact congrArg (fun s => scan s _) (scan_idle_neutral hn .code)
    have hend := region_scan_append_blanks (blanks_trailingBlanks d.after) .code (trimEnd d.after)
    rw [trimEnd_append_trailingBlanks] at hend
    rw [setArgument_eq d hw hne, advance_eq_scan, regionAfter_eq_scan]
    calc (scan .code (d.lead ++ (d.keyword ++ ([' '] ++ (w ++ trimEnd d.after))))).region
        = (scan .code (w ++ trimEnd d.after)).region :=
          congrArg Scan.region (scan_code_written hb hk hspace _)
      _ = (scan .code (trimEnd d.after)).region := by rw [hw']
      _ = (scan .code d.after).region := hend.symm
  rw [hold, hnew, KeepsComments]
  exact eq_comm

end Directive

/-- Where a line is found once a directive has been placed at an index: one further down if the
directive was inserted above it. -/
def Placement.position (placement : Placement) (index i : Nat) : Nat :=
  if placement = .inserted ∧ index ≤ i then i + 1 else i

theorem neutral_newDirective (scale : Decimal) : Neutral (newDirective scale) := by
  have hk : Neutral ({} : Settings).scaleKeyword := Directive.neutral_of_spelling (by decide)
  have hn := neutral_of_isNumeral (Decimal.isNumeral_compact scale)
  exact neutral_append.mpr ⟨hk, neutral_cons.mpr ⟨by decide, hn⟩⟩

/-- A directive that gets another argument keeps inert lines, if it keeps comments. -/
theorem keepsInert_of_firstDirective? {lines : List Text} (hu : ∀ line ∈ lines, Unbroken line)
    {j : Nat} {d : Directive} (h : firstDirective? lines = some (j, d)) (hd : d.KeepsComments)
    (scale : Decimal) : KeepsInert .code lines (placeDirective {} lines scale).lines := by
  have hn := Decimal.isNumeral_compact scale
  obtain ⟨pre, line, post, rfl, rfl, -, hlive, hr⟩ := firstLive?_eq_some_iff.mp h
  unfold placeDirective
  rw [h]
  dsimp only
  rw [List.set_append_right _ _ le_rfl, Nat.sub_self, List.set_cons_zero]
  refine .of_live hlive ?_
  have hcode : behind .code pre = .code := by
    cases hg : behind .code pre with
    | code => rfl
    | block => rw [hg] at hlive; cases hlive
  rw [hcode, Directive.advance_setArgument (hu line (by simp)) hr (Inked.compact scale)
    (Numeral.ne_nil_of_isNumeral hn) (neutral_of_isNumeral hn)]
  exact hd

/-- **A placement keeps inert lines**, if a directive that it replaces keeps comments. -/
theorem placeDirective_keepsInert {lines : List Text} (hu : ∀ line ∈ lines, Unbroken line)
    (hd : ∀ i d, firstDirective? lines = some (i, d) → d.KeepsComments) {i : Nat}
    (hi : (liveLines .code lines)[i]? = some none) (scale : Decimal) :
    let placed := placeDirective {} lines scale
    placed.lines[placed.placement.position placed.index i]? = lines[i]? ∧
      (liveLines .code placed.lines)[placed.placement.position placed.index i]? = some none := by
  -- where no line is put in, the lines are kept in their places
  have hkeep : ∀ {placed : Placed}, placed.placement ≠ .inserted →
      KeepsInert .code lines placed.lines →
        placed.lines[placed.placement.position placed.index i]? = lines[i]? ∧
        (liveLines .code placed.lines)[placed.placement.position placed.index i]? = some none := by
    intro placed hp hk
    rw [Placement.position, if_neg fun h => hp h.1]
    exact hk.getElem? hi
  cases h : firstDirective? lines with
  | some p =>
    refine hkeep ?_ (keepsInert_of_firstDirective? hu h (hd p.1 p.2 h) scale)
    rw [(placeDirective_of_some hu h scale).2.2.2.1]
    decide
  | none =>
    obtain ⟨pre, gone, post, rfl, hb, hl, hindex, hplace⟩ := exists_placeDirective_of_none h scale
    have hnew : advance .code (newDirective scale) = .code := by
      rw [advance_eq_scan]
      exact congrArg Scan.region (scan_idle_neutral (neutral_newDirective scale) .code)
    rcases hplace with ⟨rfl, hp⟩ | ⟨above, rfl, hblank, hp⟩
    · dsimp only
      have hpos : Placement.inserted.position pre.length i =
          if pre.length ≤ i then i + 1 else i := by
        simp [Placement.position]
      rw [hp, hindex, hpos, hl, List.nil_append, getElem?_append_cons,
        liveLines_append_cons post hb hnew]
      exact ⟨rfl, hi⟩
    · refine hkeep (by rw [hp]; decide) ?_
      rw [hl]
      refine .of_live ?_ ?_
      · rw [hb, inert, trimStart_of_blanks hblank]
        rfl
      · rw [hb, hnew, advance_of_blanks hblank]

/-! ## 5. The whole script -/

theorem rescaleScript_keepsInert {lines : List Text} {request : Request} {rename : Bool}
    {r : RescaledScript} (h : rescaleScript {} lines request rename = .ok r)
    (hu : ∀ line ∈ (placeDirective {} lines request.new).lines, Unbroken line) :
    KeepsInert .code (placeDirective {} lines request.new).lines r.lines := by
  unfold rescaleScript at h
  dsimp only at h
  obtain ⟨relative, -, h⟩ := bind_eq_ok.mp h
  obtain ⟨⟨scaled, changes⟩, hs, h⟩ := bind_eq_ok.mp h
  have h1 := scaleEyeballs_keepsInert hu hs
  split at h
  · obtain ⟨⟨final, renamed⟩, hf, h⟩ := bind_eq_ok.mp h
    obtain rfl := pure_eq_ok.mp h
    exact h1.trans (setModelName_keepsInert (unbroken_of_spared (scaleEyeballs_spared hu hs) hu) hf)
  · obtain ⟨⟨final, renamed⟩, hf, h⟩ := bind_eq_ok.mp h
    obtain rfl := pure_eq_ok.mp h
    obtain ⟨rfl, -⟩ := Prod.mk.inj (pure_eq_ok.mp hf)
    exact h1

/-- A script that was rescaled before keeps comments: the argument of its directive is a number. -/
theorem keepsComments_of_rescaleScript {lines : List Text} (hu : ∀ line ∈ lines, Unbroken line)
    {request : Request} {rename : Bool} {r : RescaledScript}
    (h : rescaleScript {} lines request rename = .ok r) {i : Nat} {d : Directive}
    (hd : firstDirective? r.lines = some (i, d)) : d.KeepsComments := by
  obtain ⟨hdir, hpu, -⟩ := directs_placeDirective hu request.new
  obtain ⟨e, he, ht⟩ := (rescaleScript_eq_ok h hpu).1 _ _ hdir
  obtain ⟨-, rfl⟩ := Prod.mk.inj (Option.some.inj (hd.symm.trans he))
  exact Directive.keepsComments_of_neutral
    (ht ▸ neutral_of_isNumeral (Decimal.isNumeral_compact request.new))

/-- **Inert lines stay as they are, and stay inert**, through a whole rescale: each is found in its
place, or one line further down if a directive was inserted above it.  All this on condition that
the argument of a directive that is replaced takes no part in a comment. -/
theorem inert_lines_stay {lines : List Text} (hu : ∀ line ∈ lines, Unbroken line)
    (hd : ∀ i d, firstDirective? lines = some (i, d) → d.KeepsComments) {request : Request}
    {rename : Bool} {r : RescaledScript} (h : rescaleScript {} lines request rename = .ok r)
    {i : Nat} (hi : (liveLines .code lines)[i]? = some none) :
    r.lines[r.placement.position (r.directiveLine - 1) i]? = lines[i]? ∧
      (liveLines .code r.lines)[r.placement.position (r.directiveLine - 1) i]? = some none := by
  have hpu := (directs_placeDirective hu request.new).2.1
  obtain ⟨-, -, -, -, hplace, hline⟩ := rescaleScript_eq_ok h hpu
  obtain ⟨hget, hlive⟩ := placeDirective_keepsInert hu hd hi request.new
  obtain ⟨hget', hlive'⟩ := (rescaleScript_keepsInert h hpu).getElem? hlive
  rw [hplace, hline, Nat.add_sub_cancel]
  exact ⟨hget'.trans hget, hlive'⟩

/-- A block comment that is opened behind the argument of the directive, with an eyeball in it. -/
theorem inert_lines_stay_behind_argument :
    let lines : List Text := ["$scale 2 /* old".toList,
      "eyeball lefteye eyes 1.0 2.0 3.0 eyemat 1.000 7.5 0.500 irismat 1.000".toList, "*/".toList]
    (liveLines .code lines)[1]? = some none ∧
      ∃ r, rescaleScript {} lines ⟨⟨false, 2, 0⟩, ⟨false, 4, 0⟩⟩ true = .ok r ∧
        r.lines[r.placement.position (r.directiveLine - 1) 1]? = lines[1]? ∧
        (liveLines .code r.lines)[r.placement.position (r.directiveLine - 1) 1]? = some none := by
  intro lines
  have hd : ∀ p ∈ firstDirective? lines, p.2.KeepsComments := by decide +kernel
  have hi : (liveLines .code lines)[1]? = some none := by decide +kernel
  have hsome : (rescaleScript {} lines ⟨⟨false, 2, 0⟩, ⟨false, 4, 0⟩⟩ true).toOption.isSome =
      true := by
    decide +kernel
  obtain ⟨r, hr⟩ := Option.isSome_iff_exists.mp hsome
  have hr := toOption_eq_some.mp hr
  exact ⟨hi, r, hr, inert_lines_stay (by decide) (fun i d h => hd (i, d) h) hr hi⟩

/-- A block comment that is opened by the argument of the directive itself: the argument is replaced
as a whole, and the eyeball in the block is live and scaled. -/
theorem inert_lines_stay_opening_lost :
    let lines : List Text := ["$scale 2/* old".toList,
      "eyeball lefteye eyes 1.0 2.0 3.0 eyemat 1.000 7.5 0.500 irismat 1.000".toList, "*/".toList]
    (liveLines .code lines)[1]? = some none ∧
      ∃ r, rescaleScript {} lines ⟨⟨false, 1, 0⟩, ⟨false, 4, 0⟩⟩ false = .ok r ∧
        r.placement = .replaced ∧ r.lines[0]? = some "$scale 4 old".toList ∧
        r.lines[1]? = some
          "eyeball lefteye eyes 4.000 8.000 12.000 eyemat 4.000 7.5 2.000 irismat 4.000".toList ∧
        (liveLines .code r.lines)[1]? ≠ some none := by
  intro lines
  have hsome : (rescaleScript {} lines ⟨⟨false, 1, 0⟩, ⟨false, 4, 0⟩⟩ false).toOption.isSome =
      true := by
    decide +kernel
  have hall : ∀ r ∈ (rescaleScript {} lines ⟨⟨false, 1, 0⟩, ⟨false, 4, 0⟩⟩ false).toOption,
      r.placement = .replaced ∧ r.lines[0]? = some "$scale 4 old".toList ∧
        r.lines[1]? = some
          "eyeball lefteye eyes 4.000 8.000 12.000 eyemat 4.000 7.5 2.000 irismat 4.000".toList ∧
        (liveLines .code r.lines)[1]? ≠ some none := by
    decide +kernel
  obtain ⟨r, hr⟩ := Option.isSome_iff_exists.mp hsome
  exact ⟨by decide +kernel, r, toOption_eq_some.mp hr, hall r hr⟩

end ModelScale
