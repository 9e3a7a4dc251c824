import ModelScale.Proofs.Qc.Fields
import ModelScale.Proofs.Qc.Session

/-
# Eyeballs that are read again

An eyeball line can be read in several ways: its keyword may be its name, a quotation may be a name
or begin a word, and the pupil may be missing.  When the eyeball is scaled and written back, it has
to be read in the same way, or the next rescale would scale other fields.  Main statements:

* `Eyeball.readFields?_map`: behind its lead an eyeball is a row of fields;
* `Eyeball.read?_toLine`: an eyeball is read again from the line that is written of it;
* `exists_eyeballPass`: what the pass over all lines makes of each (`EyeballPass`);
* `scaleEyeballs_lossless`: the pass over all lines changes eyeballs only, and these only in their
  lengths.
-/

namespace ModelScale

open Text Comment Numeral

/-! ## 1. Eyeballs as rows -/

theorem findSome?_bind_some {α β γ : Type} (f : α → Option β) (g : β → γ) (l : List α) :
    ((l.findSome? f).bind fun b => some (g b)) =
      l.findSome? fun a => (f a).bind fun b => some (g b) := by
  have h := List.map_findSome? (f := f) (g := g) (l := l)
  simpa only [Option.map_eq_bind, Function.comp_def] using h

/-- The fields of an eyeball in front of the iris scale. -/
def Eyeball.shape : List FieldKind :=
  [.name, .name, .number, .number, .number, .name, .number, .number, .optional, .name]

namespace Eyeball

/-- **An eyeball is a row of fields.** -/
theorem readFields?_map (lead t : Text) :
    (readFields? lead t).map (fun e => (e.tokens, e.trail)) = fields? shape t := by
  simp only [readFields?, readIris?, shape, fields?, takeTriple?_eq, Option.bind_eq_bind,
    Option.pure_def, Option.map_eq_bind, Function.comp_def, findSome?_bind_some, Option.bind_assoc,
    Option.bind_some]
  refine congrArg (List.findSome? · (names t)) (funext fun name => ?_)
  refine congrArg (List.findSome? · (names name.2)) (funext fun bone => ?_)
  refine congrArg (Option.bind (takeNumber? bone.2)) (funext fun x => ?_)
  refine congrArg (Option.bind (takeNumber? x.2)) (funext fun y => ?_)
  refine congrArg (Option.bind (takeNumber? y.2)) (funext fun z => ?_)
  refine congrArg (List.findSome? · (names z.2)) (funext fun material => ?_)
  refine congrArg (Option.bind (takeNumber? material.2)) (funext fun diameter => ?_)
  refine congrArg (Option.bind (takeNumber? diameter.2)) (funext fun angle => ?_)
  cases hp : takeNumber? angle.2 with
  | none =>
    simp only [findSome?_bind_some, Option.bind_assoc, Option.bind_some]
    rfl
  | some pupil =>
    simp only [findSome?_bind_some, Option.bind_assoc, Option.bind_some]
    rfl

/-- The lead, the fields and the trail are all there is to an eyeball. -/
theorem eq_of_tokens_eq {e e' : Eyeball} (hl : e.lead = e'.lead) (ht : e.tokens = e'.tokens)
    (htrail : e.trail = e'.trail) : e = e' := by
  obtain ⟨lead, name, bone, ⟨x, y, z⟩, material, diameter, angle, pupil, iris, scale, trail⟩ := e
  obtain ⟨lead', name', bone', ⟨x', y', z'⟩, material', diameter', angle', pupil', iris', scale',
    trail'⟩ := e'
  obtain rfl : lead = lead' := hl
  obtain rfl : trail = trail' := htrail
  -- a pupil makes the list longer
  cases pupil <;> cases pupil' <;>
    simp only [tokens, Triple.toList, Option.toList_none, Option.toList_some, List.cons_append,
      List.nil_append, List.append_nil, List.cons.injEq, reduceCtorEq, and_false, and_true] at ht
  · obtain ⟨rfl, rfl, rfl, rfl, rfl, rfl, rfl, rfl, rfl, rfl⟩ := ht
    rfl
  · obtain ⟨rfl, rfl, rfl, rfl, rfl, rfl, rfl, rfl, rfl, rfl, rfl⟩ := ht
    rfl

theorem readFields?_eq_some_iff {lead t : Text} (hu : Unbroken t) {e : Eyeball} :
    readFields? lead t = some e ↔ e.lead = lead ∧ fields? shape t = some (e.tokens, e.trail) := by
  rw [← readFields?_map lead]
  constructor
  · intro h
    obtain ⟨-, -, -, -, hl, -⟩ := readFields?_eq_some hu h
    exact ⟨hl, by rw [h]; rfl⟩
  · rintro ⟨hl, h⟩
    obtain ⟨e', he', h⟩ := Option.map_eq_some_iff.mp h
    obtain ⟨htokens, htrail⟩ := Prod.mk.inj h
    obtain ⟨-, -, -, -, hl', -⟩ := readFields?_eq_some hu he'
    rw [he', eq_of_tokens_eq (hl'.trans hl.symm) htokens htrail]

theorem readFields?_eq_none_iff {lead t : Text} :
    readFields? lead t = none ↔ fields? shape t = none := by
  rw [← readFields?_map lead, Option.map_eq_none_iff]

/-- The eyeball as it stands on its line: nothing blank is kept at the end. -/
def trimmed (e : Eyeball) : Eyeball := { e with trail := Text.trimEnd e.trail }

/-- What is written behind the name of an eyeball. -/
def tail (e : Eyeball) : Text := (e.others.flatMap fun w => ' ' :: w) ++ Text.trimEnd e.trail

theorem spaced_tail {e : Eyeball} (hg : AtGap e.trail) :
    Spaced e.others (Text.trimEnd e.trail) e.tail :=
  .flatMap _ hg.trimEnd

/-- **The line of an eyeball**: its iris scale is the last thing that is sure to stay. -/
theorem toLine_eq {e : Eyeball} (hs : isNumeral e.irisScale = true) :
    e.toLine = e.lead ++ (e.name ++ e.tail) := by
  obtain ⟨front, hfront⟩ : ∃ front, (e.others.flatMap fun w => ' ' :: w) =
      front ++ e.irisScale := by
    unfold others
    exact ⟨_, by
      simp only [List.flatMap_append, List.flatMap_cons, List.flatMap_nil, List.append_nil]
      rw [← List.append_assoc, List.append_cons]⟩
  have h := trimEnd_append_word (e.lead ++ e.name ++ front) (inked_of_isNumeral hs)
    (ne_nil_of_isNumeral hs) e.trail
  rw [toLine, tokens_eq, join_cons, tail, hfront]
  simpa using h

/-! ## 2. Lines of eyeballs -/

/-- A name begins with a character that is no blank. -/
theorem exists_cons_of_mem_names {t w r : Text} (h : (w, r) ∈ names t) :
    ∃ c s, w = c :: s ∧ isBlank c = false := by
  obtain ⟨-, -, ⟨s, rfl⟩ | ⟨hi, hne⟩⟩ := mem_names h
  · exact ⟨'"', s, rfl, by decide⟩
  · obtain ⟨c, s, rfl⟩ := List.exists_cons_of_ne_nil hne
    exact ⟨c, s, rfl, (inked_cons.mp hi).1⟩

theorem unbroken_of_takeHead? {line lead rest : Text} (hu : Unbroken line)
    (h : takeHead? spelling line = some (lead, rest)) : Unbroken rest := by
  obtain ⟨-, rfl, -⟩ := (takeHead?_eq_some_iff (by decide) (by decide)).mp h
  exact (unbroken_append.mp hu).2

/-- The keyword of a line can be read in front of other fields. -/
theorem takeHead?_append {line lead rest : Text} (h : takeHead? spelling line = some (lead, rest))
    {c : Char} (hc : isBlank c = false) (s : Text) :
    takeHead? spelling (lead ++ c :: s) = some (lead, c :: s) := by
  obtain ⟨hlead, -, -⟩ := (takeHead?_eq_some_iff (by decide) (by decide)).mp h
  exact (takeHead?_eq_some_iff (by decide) (by decide)).mpr ⟨hlead, rfl, trimStart_of_inked hc⟩

/-- **The fields of an eyeball are read again** from the line that is written. -/
theorem readFields?_written {lead t : Text} {e e' : Eyeball} (hu : Unbroken t)
    (h : readFields? lead t = some e) (hl : e'.lead = e.lead) (hn : e'.name = e.name)
    (ht : e'.trail = e.trail) (hw : List.Forall₂ Spaced.Swapped e.others e'.others)
    (hu' : Unbroken (e'.name ++ e'.tail)) :
    readFields? lead (e'.name ++ e'.tail) = some e'.trimmed := by
  obtain ⟨r, hname, -, hs, hlead, -⟩ := readFields?_eq_some hu h
  have hrow := ((readFields?_eq_some_iff hu).mp h).2
  have hspace : Blanks [' '] := blanks_cons.mpr ⟨isBlank_space, blanks_nil⟩
  -- a row begins at a gap, and a blank in front of the fields does not matter
  have hg : AtGap ([' '] ++ t) := isBlank_space
  have hspaced : Spaced e'.tokens (Text.trimEnd e'.trail) ([' '] ++ (e'.name ++ e'.tail)) :=
    .cons hspace (by simp) (spaced_tail (ht ▸ hs.atGap_trail))
  have hws : List.Forall₂ Spaced.Swapped e.tokens e'.tokens := .cons (Or.inl hn) hw
  rw [← fields?_blanks_append hspace] at hrow
  have hread := fields?_of_spaced hg (unbroken_append.mpr ⟨by decide, hu⟩)
    (unbroken_append.mpr ⟨by decide, hu'⟩) hrow hspaced hws (ht ▸ Alike.trimEnd e.trail)
  rw [fields?_blanks_append hspace] at hread
  exact (readFields?_eq_some_iff hu').mpr ⟨hl.trans hlead, hread⟩

/-- A name that stands where the keyword stands is the keyword. -/
theorem name_eq_of_spelling {t w r r' word r₁ : Text} (hm : (w, r) ∈ names t) (hr' : AtGap r')
    (hword : word.map foldCase = spelling) (hr₁ : AtGap r₁) (h : w ++ r' = word ++ r₁) :
    w = word ∧ r' = r₁ := by
  have hink := inked_of_map_foldCase hword (by decide)
  obtain ⟨-, -, ⟨s, rfl⟩ | ⟨hw, hne⟩⟩ := mem_names hm
  · -- the keyword does not begin with a quotation mark
    cases word with
    | nil => cases hword
    | cons d word =>
      obtain rfl : '"' = d := (List.cons.inj h).1
      exact absurd (List.cons.inj hword).1 (by decide)
  · have hspan := hw.span hr'
    rw [h, hink.span hr₁] at hspan
    obtain ⟨h1, h2⟩ := Prod.mk.inj hspan
    exact ⟨h1.symm, h2.symm⟩

/-- Where the keyword of a line was passed over, because no eyeball comes behind it, it is passed
over again: it is the name. -/
theorem readFields?_behind_name {line : Text} {e e' : Eyeball} {r : Text} (hu : Unbroken line)
    (hnone : ((takeHead? spelling line).bind fun p => readFields? p.1 p.2) = none)
    (hm : (e.name, r) ∈ names line) (hs : Spaced e.others e.trail r) (hn : e'.name = e.name)
    (ht : e'.trail = e.trail) (hw : List.Forall₂ Spaced.Swapped e.others e'.others) {lead : Text}
    (hlead : Blanks lead) :
    ((takeHead? spelling (lead ++ (e'.name ++ e'.tail))).bind fun p => readFields? p.1 p.2) =
      none := by
  have hs' := spaced_tail (e := e') (ht ▸ hs.atGap_trail)
  rw [Option.bind_eq_none_iff]
  rintro ⟨lead₁, rest₁⟩ hhead
  obtain ⟨⟨b, word, gap, rfl, hb, hword, hgap, hgne⟩, hline, -⟩ :=
    (takeHead?_eq_some_iff (by decide) (by decide)).mp hhead
  have hgap₁ := hgap.atGap_append_of_ne_nil hgne rest₁
  have hink := inked_of_map_foldCase hword (by decide)
  -- the keyword that is found is the name
  obtain ⟨c, s, hc, hcb⟩ := exists_cons_of_mem_names hm
  have hstart := congrArg trimStart hline
  rw [trimStart_append hlead, hn, hc, List.cons_append, trimStart_of_inked hcb, ← List.cons_append,
    ← hc, List.append_assoc, List.append_assoc, trimStart_append hb,
    trimStart_inked_append hink (ne_nil_of_map_foldCase hword (by decide))] at hstart
  obtain ⟨rfl, htail⟩ := name_eq_of_spelling hm hs'.atGap hword hgap₁ hstart
  -- it was there before, and no row of fields behind it
  obtain ⟨hname, hblank, -⟩ := mem_names hm
  have hbefore : takeHead? spelling line =
      some (line.takeWhile isBlank ++ e.name ++ r.takeWhile isBlank, trimStart r) := by
    refine (takeHead?_eq_some_iff (by decide) (by decide)).mpr
      ⟨⟨_, _, _, rfl, blanks_takeWhile line, hword, blanks_takeWhile r, ?_⟩, ?_,
        trimStart_trimStart r⟩
    · cases r with
      | nil => cases hblank
      | cons d r =>
        have hd : isBlank d = true := hblank
        simp [hd]
    · rw [List.append_assoc, takeWhile_append_trimStart, List.append_assoc, ← hname,
        takeWhile_append_trimStart]
  rw [hbefore, Option.bind_some, readFields?_eq_none_iff,
    ← fields?_blanks_append (blanks_takeWhile r), takeWhile_append_trimStart] at hnone
  rw [readFields?_eq_none_iff, ← fields?_blanks_append hgap, ← htail]
  exact fields?_eq_none_of_alike (hs.alike hs' hw (ht ▸ Alike.trimEnd e.trail))
    (unbroken_of_mem_names hu hm) hnone

/-- **An eyeball is read again from the line that is written of it**, field by field, if lengths
have given way to lengths. -/
theorem read?_toLine {line : Text} {e e' : Eyeball} (hu : Unbroken line) (h : read? line = some e)
    (hl : e'.lead = e.lead) (hn : e'.name = e.name) (ht : e'.trail = e.trail)
    (hw : List.Forall₂ Spaced.Swapped e.others e'.others) (hs : isNumeral e'.irisScale = true)
    (hu' : Unbroken e'.toLine) : read? e'.toLine = some e'.trimmed := by
  rw [toLine_eq hs] at hu' ⊢
  have hut := (unbroken_append.mp hu').2
  unfold read? at h ⊢
  rw [Option.orElse_eq_orElse, Option.orElse_eq_or] at h ⊢
  rcases Option.or_eq_some_iff.mp h with h | ⟨hnone, h⟩
  · obtain ⟨⟨lead, rest⟩, hhead, h⟩ := Option.bind_eq_some_iff.mp h
    have hrest := unbroken_of_takeHead? hu hhead
    obtain ⟨r, hm, -, -, hlead, -⟩ := readFields?_eq_some hrest h
    obtain ⟨c, s, hc, hcb⟩ := exists_cons_of_mem_names hm
    have hwritten := readFields?_written hrest h hl hn ht hw hut
    have hagain := takeHead?_append hhead hcb (s ++ e'.tail)
    rw [← List.cons_append, ← hc, ← hn] at hagain
    rw [hl, hlead, hagain, Option.bind_some]
    dsimp only
    rw [hwritten]
    rfl
  · have hrest : Unbroken (trimStart line) := by
      rw [← takeWhile_append_trimStart line, unbroken_append] at hu
      exact hu.2
    obtain ⟨r, hm, -, hs, hlead, -⟩ := readFields?_eq_some hrest h
    obtain ⟨c, s, hc, hcb⟩ := exists_cons_of_mem_names hm
    have hblanks := blanks_takeWhile line
    have hm' : (e.name, r) ∈ names line := by
      rwa [names, trimStart_trimStart, ← names] at hm
    have hwritten := readFields?_written hrest h hl hn ht hw hut
    rw [hl, hlead]
    rw [readFields?_behind_name hu hnone hm' hs hn ht hw hblanks, Option.none_or, hn, hc,
      List.cons_append, takeWhile_blanks_append hblanks hcb, trimStart_append hblanks,
      trimStart_of_inked hcb, ← List.cons_append, ← hc, ← hn, hwritten]

/-- **A scaled eyeball is read again from its line.** -/
theorem read?_toLine_of_rescale {line : Text} {e e' : Eyeball} {factor : Quantity} {places : Int}
    (hu : Unbroken line) (h : read? line = some e) (hr : e.rescale factor places = .ok e') :
    read? e'.toLine = some e'.trimmed := by
  obtain ⟨-, -, hlen, -⟩ := read?_eq_some hu h
  have hby := scaledBy_of_rescale hr
  exact read?_toLine hu h hby.lead hby.name hby.trail (hby.swapped hlen) hby.irisScale.isNumeral
    ((spared hu h hr).unbroken hu)

end Eyeball

/-! ## 3. All lines -/

namespace Comment

/-- Lines of which each ends in the region in which the other one ends, and counts if the other one
counts. -/
theorem outline_of_forall₂ {lines lines' : List Text}
    (h : List.Forall₂ (fun line line' => (∀ g, advance g line' = advance g line) ∧
      ∀ g, inert g line' = inert g line) lines lines') (g : Region) :
    (∀ n, behind g (lines'.take n) = behind g (lines.take n)) ∧
      (liveLines g lines').map Option.isSome = (liveLines g lines).map Option.isSome := by
  induction h generalizing g with
  | nil => exact ⟨fun _ => rfl, rfl⟩
  | @cons line line' rest rest' hl _ ih =>
    obtain ⟨ha, hi⟩ := hl
    obtain ⟨ihb, ihl⟩ := ih (advance g line)
    constructor
    · intro n
      cases n with
      | zero => rfl
      | succ n => rw [List.take_succ_cons, List.take_succ_cons, behind_cons, behind_cons, ha, ihb]
    · rw [liveLines, liveLines, List.map_cons, List.map_cons, ha, ihl, hi]
      cases inert g line <;> rfl

end Comment

theorem getElem?_liveLines {g : Region} {lines : List Text} {i : Nat} {line : Text}
    (h : lines[i]? = some line) :
    (liveLines g lines)[i]? = some none ∨ (liveLines g lines)[i]? = some (some line) := by
  induction lines generalizing g i with
  | nil => cases h
  | cons first rest ih =>
    rw [liveLines]
    cases i with
    | zero =>
      obtain rfl := Option.some.inj h
      cases inert g first with
      | true => exact Or.inl rfl
      | false => exact Or.inr rfl
    | succ i => exact ih h

theorem getElem?_of_liveLines {g : Region} {lines : List Text} {i : Nat} {line : Text}
    (h : (liveLines g lines)[i]? = some (some line)) : lines[i]? = some line := by
  have hi : i < lines.length := by
    rw [← liveLines_length g lines]
    exact (List.getElem?_eq_some_iff.mp h).1
  obtain ⟨first, hfirst⟩ : ∃ first, lines[i]? = some first := ⟨_, List.getElem?_eq_getElem hi⟩
  rcases getElem?_liveLines (g := g) hfirst with hlive | hlive
  · rw [hlive] at h
    cases h
  · rw [hlive] at h
    obtain rfl := Option.some.inj (Option.some.inj h)
    exact hfirst

/-- The pass over the eyeballs, line by line: what each line holds, what has become of it, and which
of the lines are changes. -/
structure EyeballPass (lines lines' : List Text) (factor : Quantity) (changes : List EyeballEdit)
    (eyeballs : List (Option (Eyeball × Eyeball))) : Prop where
  length : eyeballs.length = lines.length
  row : ∀ {i : Nat} {line? r}, (liveLines .code lines)[i]? = some line? → eyeballs[i]? = some r →
    scaledEyeball {} factor line? = .ok r
  line : ∀ {i : Nat} {line r}, lines[i]? = some line → eyeballs[i]? = some r →
    lines'[i]? = some ((r.map (·.2.toLine)).getD line)
  mem_changes : ∀ c, c ∈ changes ↔ ∃ (i : Nat) (line : Text) (p : Eyeball × Eyeball),
    lines[i]? = some line ∧ eyeballs[i]? = some (some p) ∧ p.2.toLine ≠ line ∧
      c = ⟨i + 1, p.1, p.2⟩
  sorted : changes.Pairwise fun c d => c.line < d.line

theorem exists_eyeballPass {lines lines' : List Text} {factor : Quantity}
    {changes : List EyeballEdit} (h : scaleEyeballs {} lines factor = .ok (lines', changes)) :
    ∃ eyeballs, EyeballPass lines lines' factor changes eyeballs := by
  obtain ⟨eyeballs, he, h⟩ := bind_eq_ok.mp h
  obtain ⟨rfl, rfl⟩ := Prod.mk.inj (pure_eq_ok.mp h)
  obtain ⟨hlen, hget⟩ := List.forall₂_iff_get.mp (mapM_eq_ok.mp he)
  refine ⟨eyeballs, by rw [← hlen, liveLines_length], ?_, ?_, fun c => ?_, ?_⟩
  · intro i line? r hl hr
    obtain ⟨h1, rfl⟩ := List.getElem?_eq_some_iff.mp hl
    obtain ⟨h2, rfl⟩ := List.getElem?_eq_some_iff.mp hr
    exact hget i h1 h2
  · intro i line r hl hr
    have hrow : (lines.zip eyeballs)[i]? = some (line, r) :=
      List.getElem?_zip_eq_some.mpr ⟨hl, hr⟩
    rw [List.getElem?_map, hrow]
    rfl
  · rw [List.mem_filterMap]
    constructor
    · rintro ⟨⟨⟨line, r⟩, i⟩, hm, hc⟩
      obtain ⟨hl, hr⟩ := List.getElem?_zip_eq_some.mp (List.mem_zipIdx_iff_getElem?.mp hm)
      obtain ⟨p, hp, rfl⟩ := Option.map_eq_some_iff.mp hc
      obtain ⟨rfl, hne⟩ := Option.filter_eq_some_iff.mp hp
      exact ⟨i, line, p, hl, hr, by simpa using hne, rfl⟩
    · rintro ⟨i, line, p, hl, hr, hne, rfl⟩
      refine ⟨((line, some p), i), List.mem_zipIdx_iff_getElem?.mpr
        (List.getElem?_zip_eq_some.mpr ⟨hl, hr⟩), ?_⟩
      exact Option.map_eq_some_iff.mpr
        ⟨p, Option.filter_eq_some_iff.mpr ⟨rfl, by simpa using hne⟩, rfl⟩
  · have hindex : (lines.zip eyeballs).zipIdx.Pairwise fun a b => a.2 < b.2 := by
      rw [← List.pairwise_map (f := Prod.snd) (R := (· < ·)), List.zipIdx_map_snd]
      exact List.pairwise_lt_range' 1
    refine hindex.filterMap _ ?_
    rintro ⟨⟨line, r⟩, i⟩ ⟨⟨line', r'⟩, j⟩ hij c hc d hd
    obtain ⟨p, -, rfl⟩ := Option.map_eq_some_iff.mp hc
    obtain ⟨q, -, rfl⟩ := Option.map_eq_some_iff.mp hd
    exact Nat.succ_lt_succ hij

/-- A change, as it stands in the lines before and after: the line is live, it is an eyeball, and
the scaled eyeball is read again from the new line. -/
def EyeballEdit.Made (lines lines' : List Text) (factor : Quantity) (c : EyeballEdit) : Prop :=
  ∃ i line line', c.line = i + 1 ∧ lines[i]? = some line ∧ lines'[i]? = some line' ∧
    (liveLines .code lines)[i]? = some (some line) ∧ Eyeball.read? line = some c.before ∧
    Eyeball.read? line' = some c.after.trimmed ∧ Eyeball.ScaledBy factor 3 c.before c.after

namespace EyeballPass

variable {lines lines' : List Text} {factor : Quantity} {changes : List EyeballEdit}
  {eyeballs : List (Option (Eyeball × Eyeball))}

theorem exists_eyeball (h : EyeballPass lines lines' factor changes eyeballs) {i : Nat}
    {line : Text} (hl : lines[i]? = some line) : ∃ r, eyeballs[i]? = some r := by
  have hi := (List.getElem?_eq_some_iff.mp hl).1
  exact ⟨_, List.getElem?_eq_getElem (h.length ▸ hi)⟩

/-- **The lines that differ are those of the changes.** -/
theorem ne_iff (h : EyeballPass lines lines' factor changes eyeballs)
    (hlen : lines'.length = lines.length) (i : Nat) :
    lines'[i]? ≠ lines[i]? ↔ ∃ c ∈ changes, c.line = i + 1 := by
  constructor
  · intro hne
    cases hl : lines[i]? with
    | none =>
      rw [hl, List.getElem?_eq_none (hlen ▸ List.getElem?_eq_none_iff.mp hl)] at hne
      exact absurd rfl hne
    | some line =>
      obtain ⟨r, hr⟩ := h.exists_eyeball hl
      rw [hl, h.line hl hr, ne_eq, Option.some_inj] at hne
      cases r with
      | none => exact absurd rfl hne
      | some p => exact ⟨_, (h.mem_changes _).mpr ⟨i, line, p, hl, hr, hne, rfl⟩, rfl⟩
  · rintro ⟨c, hc, hi⟩
    obtain ⟨j, line, p, hl, hr, hne, rfl⟩ := (h.mem_changes c).mp hc
    obtain rfl : j = i := Nat.succ.inj hi
    rw [hl, h.line hl hr]
    exact fun he => hne (Option.some.inj he)

/-- **Every change is made** as it is told. -/
theorem made (h : EyeballPass lines lines' factor changes eyeballs)
    (hu : ∀ line ∈ lines, Unbroken line) {c : EyeballEdit} (hc : c ∈ changes) :
    c.Made lines lines' factor := by
  obtain ⟨i, line, ⟨before, after⟩, hl, hr, -, rfl⟩ := (h.mem_changes c).mp hc
  obtain ⟨line?, hlive⟩ : ∃ line?, (liveLines .code lines)[i]? = some line? := by
    rcases getElem?_liveLines (g := .code) hl with hlive | hlive <;> exact ⟨_, hlive⟩
  rcases scaledEyeball_eq_ok (h.row hlive hr) with h0 | ⟨line, e, e', rfl, hread, hresc, hp⟩
  · cases h0
  · obtain ⟨rfl, rfl⟩ := Prod.mk.inj (Option.some.inj hp)
    have hl := getElem?_of_liveLines hlive
    have hu := hu line (List.mem_of_getElem? hl)
    exact ⟨i, line, after.toLine, rfl, hl, h.line hl hr, hlive, hread,
      Eyeball.read?_toLine_of_rescale hu hread hresc, Eyeball.scaledBy_of_rescale hresc⟩

/-- **No eyeball is passed over** on a live line. -/
theorem scaled (h : EyeballPass lines lines' factor changes eyeballs) {i : Nat} {line : Text}
    {e : Eyeball} (hlive : (liveLines .code lines)[i]? = some (some line))
    (hread : Eyeball.read? line = some e) :
    ∃ e', Eyeball.ScaledBy factor 3 e e' ∧ lines'[i]? = some e'.toLine := by
  have hl := getElem?_of_liveLines hlive
  obtain ⟨r, hr⟩ := h.exists_eyeball hl
  have hrow := h.row hlive hr
  unfold scaledEyeball at hrow
  rw [Option.bind_some, hread] at hrow
  obtain ⟨e', hresc, hp⟩ := bind_eq_ok.mp hrow
  obtain rfl := pure_eq_ok.mp hp
  exact ⟨e', Eyeball.scaledBy_of_rescale hresc, h.line hl hr⟩

end EyeballPass

/-- **Scaling the eyeballs loses nothing** but what is scaled.  The lines that differ are those of
the changes, in order; each was an eyeball on a live line, and what is read from the new line is
the scaled eyeball.  No eyeball on a live line is passed over, and comments are what they were, line
by line. -/
theorem scaleEyeballs_lossless {lines lines' : List Text} {factor : Quantity}
    {changes : List EyeballEdit} (hu : ∀ line ∈ lines, Unbroken line)
    (h : scaleEyeballs {} lines factor = .ok (lines', changes)) :
    lines'.length = lines.length ∧
      (∀ i : Nat, lines'[i]? ≠ lines[i]? ↔ ∃ c ∈ changes, c.line = i + 1) ∧
      (changes.Pairwise fun c d => c.line < d.line) ∧
      (∀ c ∈ changes, c.Made lines lines' factor) ∧
      (∀ (i : Nat) line e, (liveLines .code lines)[i]? = some (some line) →
        Eyeball.read? line = some e →
          ∃ e', Eyeball.ScaledBy factor 3 e e' ∧ lines'[i]? = some e'.toLine) ∧
      (∀ n, behind .code (lines'.take n) = behind .code (lines.take n)) ∧
      (liveLines .code lines').map Option.isSome = (liveLines .code lines).map Option.isSome := by
  have hspared := scaleEyeballs_spared hu h
  obtain ⟨eyeballs, hpass⟩ := exists_eyeballPass h
  have hlen : lines'.length = lines.length := hspared.length_eq.symm
  have hcomments := outline_of_forall₂
    (hspared.imp fun _ _ hs => ⟨hs.advance_eq, hs.inert_eq⟩) .code
  exact ⟨hlen, hpass.ne_iff hlen, hpass.sorted, fun c hc => hpass.made hu hc,
    fun i line e hl hr => hpass.scaled hl hr, hcomments⟩

/-- An eyeball with a quoted name is read again, and the one in the comment above it stays. -/
theorem scaleEyeballs_lossless_quoted :
    ∃ lines' e, (scaleEyeballs {} ["/* eyeball a b 1 2 3 m 1 2 i 1 */".toList,
        "eyeball \"left eye\"  bone 1.5 -2 3e0  m 1.0 4 0.63 iris 0.65  // kept ".toList]
        (.written "-2".toList)).toOption.map Prod.fst = some lines' ∧
      lines'[0]? = some "/* eyeball a b 1 2 3 m 1 2 i 1 */".toList ∧
      (lines'[1]?.bind Eyeball.read?) = some e ∧ e.name = "\"left eye\"".toList ∧
      e.pupil = some "-1.260".toList ∧ e.trail = "  // kept".toList := by
  let lines := ["/* eyeball a b 1 2 3 m 1 2 i 1 */".toList,
    "eyeball \"left eye\"  bone 1.5 -2 3e0  m 1.0 4 0.63 iris 0.65  // kept ".toList]
  let before : Eyeball := ⟨"eyeball ".toList, "\"left eye\"".toList, "bone".toList,
    ⟨"1.5".toList, "-2".toList, "3e0".toList⟩, "m".toList, "1.0".toList, "4".toList,
    some "0.63".toList, "iris".toList, "0.65".toList, "  // kept ".toList⟩
  let after : Eyeball := ⟨"eyeball ".toList, "\"left eye\"".toList, "bone".toList,
    ⟨"-3.000".toList, "4.000".toList, "-6.000".toList⟩, "m".toList, "-2.000".toList, "4".toList,
    some "-1.260".toList, "iris".toList, "-1.300".toList, "  // kept ".toList⟩
  have hrun : scaleEyeballs {} lines (.written "-2".toList) =
      .ok ([lines[0], after.toLine], [⟨2, before, after⟩]) := by
    decide +kernel
  obtain ⟨-, -, -, hmade, -⟩ := scaleEyeballs_lossless (by decide +kernel) hrun
  obtain ⟨i, -, line', hi, -, hline', -, -, hread, -⟩ := hmade _ List.mem_cons_self
  obtain rfl : i = 1 := Nat.succ.inj hi.symm
  refine ⟨[lines[0], after.toLine], after.trimmed, ?_, rfl, ?_, rfl, rfl, by decide +kernel⟩
  · rw [hrun]
    rfl
  · rw [hline']
    exact hread

end ModelScale
