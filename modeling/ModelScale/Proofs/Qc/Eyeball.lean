import ModelScale.Proofs.Qc.Placement

/-
# Rewritten eyeballs

An eyeball is written back with one space between its fields, its lengths multiplied.  To the search
for the directive the line is what it was: its first word stays, a gap is as good as another, and
neither the old lengths nor the new ones hold anything of a comment.  Main statements:

* `Eyeball.read?_eq_some`: an eyeball line is a first name and fields with gaps between them
  (`Spaced`);
* `Spaced.scan_eq`: fields in the same order leave the same comments, whatever the gaps;
* `Eyeball.scaledBy_of_rescale`: the lengths of a rescaled eyeball are scaled, all else is kept;
* `Eyeball.spared`: a rescaled eyeball is a line that spares directives.
-/

namespace ModelScale

open Text Comment Numeral

/-! ## 1. Fields and gaps -/

/-- Fields one behind the other, each after a gap, and the rest of the line. -/
inductive Spaced : List Text → Text → Text → Prop
  | nil {trail : Text} (hg : AtGap trail) : Spaced [] trail trail
  | cons {b w r trail : Text} {ws : List Text} (hb : Blanks b) (hne : b ≠ [])
      (h : Spaced ws trail r) : Spaced (w :: ws) trail (b ++ (w ++ r))

namespace Spaced

variable {ws : List Text} {trail t : Text}

theorem atGap (h : Spaced ws trail t) : AtGap t := by
  cases h with
  | nil hg => exact hg
  | cons hb hne _ => exact hb.atGap_append_of_ne_nil hne _

theorem atGap_trail (h : Spaced ws trail t) : AtGap trail := by
  induction h with
  | nil hg => exact hg
  | cons _ _ _ ih => exact ih

/-- A name that is found at a gap. -/
theorem of_mem_names {w r : Text} (hg : AtGap t) (hm : (w, r) ∈ names t)
    (h : Spaced ws trail r) : Spaced (w :: ws) trail t := by
  obtain ⟨ht, hr, -⟩ := mem_names hm
  rw [← takeWhile_append_trimStart t, ht]
  refine .cons (blanks_takeWhile t) ?_ h
  cases t with
  | nil =>
    obtain ⟨-, rfl⟩ := List.append_eq_nil_iff.mp ht.symm
    cases hr
  | cons c t => simp [atGap_cons.mp hg]

/-- A number that is found at a gap. -/
theorem of_takeNumber? {w r : Text} (hg : AtGap t) (ht : takeNumber? t = some (w, r))
    (h : Spaced ws trail r) : Spaced (w :: ws) trail t := by
  obtain ⟨b, rfl, hb, hw, -⟩ := takeNumber?_eq_some ht
  exact .cons hb (ne_nil_of_atGap_append hw hg) h

/-- Fields with a space in front of each. -/
theorem flatMap (ws : List Text) (hg : AtGap trail) :
    Spaced ws trail ((ws.flatMap fun w => ' ' :: w) ++ trail) := by
  induction ws with
  | nil => exact .nil hg
  | cons w ws ih =>
    have h : Spaced (w :: ws) trail ([' '] ++ (w ++ ((ws.flatMap fun w => ' ' :: w) ++ trail))) :=
      .cons (blanks_cons.mpr ⟨isBlank_space, blanks_nil⟩) (by simp) ih
    simpa using h

theorem unbroken (h : Spaced ws trail t) (hu : Unbroken t) :
    (∀ w ∈ ws, Unbroken w) ∧ Unbroken trail := by
  induction h with
  | nil _ => exact ⟨by simp, hu⟩
  | @cons b w r trail ws _ _ _ ih =>
    simp only [unbroken_append] at hu
    obtain ⟨ih1, ih2⟩ := ih hu.2.2
    exact ⟨List.forall_mem_cons.mpr ⟨hu.2.1, ih1⟩, ih2⟩

/-- Gaps keep fields apart, so the line is faithful if all of them are. -/
theorem faithful_iff (h : Spaced ws trail t) :
    Faithful t ↔ (∀ w ∈ ws, Faithful w) ∧ Faithful trail := by
  induction h with
  | nil _ => simp
  | @cons b w r trail ws hb _ h ih =>
    rw [faithful_plain_append fun c hc => plain_of_isBlank (hb c hc),
      faithful_append (plain_head_of_atGap h.atGap), ih, List.forall_mem_cons, and_assoc]

/-- A field is kept, or a number takes the place of a number. -/
def Swapped (w w' : Text) : Prop := w' = w ∨ isNumeral w = true ∧ isNumeral w' = true

/-- **Fields in order leave the same comments**, whatever the gaps and whatever the numbers. -/
theorem scan_eq {ws' : List Text} {t' : Text} (h : Spaced ws trail t) (h' : Spaced ws' trail t')
    (hw : List.Forall₂ Swapped ws ws') (s : Scan) : scan s t' = scan s t := by
  induction hw generalizing s t t' with
  | nil =>
    cases h
    cases h'
    rfl
  | @cons w w' ws ws' hww _ ih =>
    cases h with
    | @cons b _ r _ _ hb hne h =>
      cases h' with
      | @cons b' _ r' _ _ hb' hne' h' =>
        rw [scan_append, scan_append, scan_append, scan_append, ih h h',
          scan_neutral (neutral_of_blanks hb) hne, scan_neutral (neutral_of_blanks hb') hne']
        rcases hww with rfl | ⟨hn, hn'⟩
        · rfl
        · rw [scan_idle_neutral (neutral_of_isNumeral hn),
            scan_idle_neutral (neutral_of_isNumeral hn')]

/-- What all fields and all numbers have, the fields have after an exchange. -/
theorem forall_swapped {P : Text → Prop} (hP : ∀ w, isNumeral w = true → P w) {ws' : List Text}
    (hw : List.Forall₂ Swapped ws ws') (h : ∀ w ∈ ws, P w) : ∀ w ∈ ws', P w := by
  induction hw with
  | nil => exact h
  | cons hww _ ih =>
    obtain ⟨h1, h2⟩ := List.forall_mem_cons.mp h
    refine List.forall_mem_cons.mpr ⟨?_, ih h2⟩
    rcases hww with rfl | ⟨-, hn⟩
    · exact h1
    · exact hP _ hn

end Spaced

theorem unbroken_flatMap {ws : List Text} (hu : ∀ w ∈ ws, Unbroken w) :
    Unbroken (ws.flatMap fun w => ' ' :: w) := by
  intro h
  obtain ⟨w, hw, hc⟩ := List.mem_flatMap.mp h
  rcases List.mem_cons.mp hc with hc | hc
  · exact absurd hc (by decide)
  · exact hu w hw hc

/-! ## 2. Reading an eyeball -/

namespace Eyeball

/-- The fields after the name. -/
def others (e : Eyeball) : List Text :=
  [e.bone] ++ e.position.toList ++ [e.material, e.diameter, e.angle] ++ e.pupil.toList ++
    [e.irisMaterial, e.irisScale]

theorem tokens_eq (e : Eyeball) : e.tokens = e.name :: e.others := rfl

/-- The lengths are numbers. -/
structure Lengths (e : Eyeball) : Prop where
  position : e.position.Numerals
  diameter : isNumeral e.diameter = true
  pupil : ∀ t ∈ e.pupil, isNumeral t = true
  irisScale : isNumeral e.irisScale = true

theorem unbroken_of_mem_names {t w r : Text} (hu : Unbroken t) (h : (w, r) ∈ names t) :
    Unbroken r := by
  rw [← takeWhile_append_trimStart t, (mem_names h).1] at hu
  simp only [unbroken_append] at hu
  exact hu.2.2

theorem unbroken_of_takeNumber? {t w r : Text} (hu : Unbroken t)
    (h : takeNumber? t = some (w, r)) : Unbroken r := by
  obtain ⟨b, rfl, -⟩ := takeNumber?_eq_some h
  simp only [unbroken_append] at hu
  exact hu.2.2

theorem readIris?_eq_some {t material scale trail : Text} (hu : Unbroken t) (hg : AtGap t)
    (h : readIris? t = some (material, scale, trail)) :
    Spaced [material, scale] trail t ∧ isNumeral scale = true := by
  obtain ⟨⟨m, r⟩, hm, h1⟩ := List.exists_of_findSome?_eq_some h
  obtain ⟨⟨s, r'⟩, hs, h2⟩ := Option.bind_eq_some_iff.mp h1
  obtain ⟨trail', ht, h3⟩ := Option.bind_eq_some_iff.mp h2
  obtain ⟨rfl, h4⟩ := Prod.mk.inj (Option.some.inj h3)
  obtain ⟨rfl, rfl⟩ := Prod.mk.inj h4
  have hr := atGap_of_startsBlank (mem_names hm).2.1
  have hur := unbroken_of_mem_names hu hm
  obtain ⟨-, -, -, hn, hr'⟩ := takeNumber?_eq_some hs
  rw [tailOfLine?_of_unbroken (unbroken_of_takeNumber? hur hs) hr'] at ht
  obtain rfl := Option.some.inj ht
  exact ⟨.of_mem_names hg hm (.of_takeNumber? hr hs (.nil hr')), hn⟩

/-- **An eyeball**: a name, and the other fields behind it with gaps between them. -/
theorem readFields?_eq_some {lead t : Text} {e : Eyeball} (hu : Unbroken t)
    (h : readFields? lead t = some e) :
    ∃ r, (e.name, r) ∈ names t ∧ (∃ s, (e.bone, s) ∈ names r) ∧ Spaced e.others e.trail r ∧
      e.lead = lead ∧ e.Lengths := by
  obtain ⟨⟨name, r⟩, hname, h1⟩ := List.exists_of_findSome?_eq_some h
  obtain ⟨⟨bone, r1⟩, hbone, h2⟩ := List.exists_of_findSome?_eq_some h1
  obtain ⟨⟨position, r4⟩, hpos, h3⟩ := Option.bind_eq_some_iff.mp h2
  rw [takeTriple?_eq] at hpos
  obtain ⟨⟨x, r2⟩, hx, hpos1⟩ := Option.bind_eq_some_iff.mp hpos
  obtain ⟨⟨y, r3⟩, hy, hpos2⟩ := Option.bind_eq_some_iff.mp hpos1
  obtain ⟨⟨z, r4'⟩, hz, hpos3⟩ := Option.map_eq_some_iff.mp hpos2
  obtain ⟨rfl, rfl⟩ := Prod.mk.inj hpos3
  obtain ⟨⟨material, r5⟩, hmat, h4⟩ := List.exists_of_findSome?_eq_some h3
  obtain ⟨⟨diameter, r6⟩, hdia, h5⟩ := Option.bind_eq_some_iff.mp h4
  obtain ⟨⟨angle, r7⟩, hang, h6⟩ := Option.bind_eq_some_iff.mp h5
  -- what is left of the line, field by field: it begins with a gap and is on one line
  have hg := atGap_of_startsBlank (mem_names hname).2.1
  have hg1 := atGap_of_startsBlank (mem_names hbone).2.1
  obtain ⟨-, -, -, hnx, hg2⟩ := takeNumber?_eq_some hx
  obtain ⟨-, -, -, hny, hg3⟩ := takeNumber?_eq_some hy
  obtain ⟨-, -, -, hnz, hg4⟩ := takeNumber?_eq_some hz
  have hg5 := atGap_of_startsBlank (mem_names hmat).2.1
  obtain ⟨-, -, -, hnd, hg6⟩ := takeNumber?_eq_some hdia
  obtain ⟨-, -, -, -, hg7⟩ := takeNumber?_eq_some hang
  have hu7 : Unbroken r7 :=
    unbroken_of_takeNumber? (unbroken_of_takeNumber? (unbroken_of_mem_names
      (unbroken_of_takeNumber? (unbroken_of_takeNumber? (unbroken_of_takeNumber?
        (unbroken_of_mem_names (unbroken_of_mem_names hu hname) hbone) hx) hy) hz) hmat) hdia) hang
  have hfields : ∀ {ws : List Text} {trail : Text}, Spaced ws trail r7 →
      Spaced (bone :: x :: y :: z :: material :: diameter :: angle :: ws) trail r := by
    intro ws trail hs
    have htail := Spaced.of_takeNumber? hg5 hdia (.of_takeNumber? hg6 hang hs)
    have hplace := Spaced.of_takeNumber? hg3 hz (.of_mem_names hg4 hmat htail)
    exact .of_mem_names hg hbone (.of_takeNumber? hg1 hx (.of_takeNumber? hg2 hy hplace))
  dsimp only at h6
  cases hp : takeNumber? r7 with
  | none =>
    rw [hp] at h6
    obtain ⟨⟨iris, scale, trail⟩, hi, h7⟩ := Option.bind_eq_some_iff.mp h6
    obtain rfl := Option.some.inj h7
    obtain ⟨hs, hn⟩ := readIris?_eq_some hu7 hg7 hi
    exact ⟨r, hname, ⟨r1, hbone⟩, hfields hs, rfl, ⟨hnx, hny, hnz⟩, hnd, by simp, hn⟩
  | some p =>
    obtain ⟨pupil, r8⟩ := p
    rw [hp] at h6
    obtain ⟨⟨iris, scale, trail⟩, hi, h7⟩ := Option.bind_eq_some_iff.mp h6
    obtain rfl := Option.some.inj h7
    obtain ⟨-, -, -, hnp, hg8⟩ := takeNumber?_eq_some hp
    obtain ⟨hs, hn⟩ := readIris?_eq_some (unbroken_of_takeNumber? hu7 hp) hg8 hi
    exact ⟨r, hname, ⟨r1, hbone⟩, hfields (.of_takeNumber? hg7 hp hs), rfl,
      ⟨hnx, hny, hnz⟩, hnd, by simpa using hnp, hn⟩

/-- **An eyeball line** begins with its lead and its name.  If it is a directive as well, then the
name is the keyword, and the argument is a name too. -/
theorem read?_eq_some {line : Text} {e : Eyeball} (hu : Unbroken line)
    (h : read? line = some e) :
    (∃ r, line = e.lead ++ e.name ++ r ∧ Spaced e.others e.trail r) ∧ ¬ Blanks e.name ∧
      e.Lengths ∧ ∀ d, Directive.read? line = some d → isNumeral d.token = false := by
  unfold read? at h
  rw [Option.orElse_eq_orElse, Option.orElse_eq_or] at h
  rcases Option.or_eq_some_iff.mp h with h | ⟨-, h⟩
  · obtain ⟨⟨lead, rest⟩, hhead, hrow⟩ := Option.bind_eq_some_iff.mp h
    obtain ⟨hlead, rfl, hrest⟩ := (takeHead?_eq_some_iff (by decide) (by decide)).mp hhead
    obtain ⟨r, hname, -, hs, hl, hlen⟩ := readFields?_eq_some (unbroken_append.mp hu).2 hrow
    refine ⟨⟨r, ?_, hs⟩, not_blanks_of_mem_names hname, hlen, ?_⟩
    · rw [hl, List.append_assoc, ← (mem_names hname).1, hrest]
    · intro d hd
      -- the first word is the keyword of the eyeball
      have hd' := (Directive.isSome_read?_iff hu).mp (by rw [hd]; rfl)
      rw [hlead.nextWord_append (by decide) (by decide)] at hd'
      exact absurd hd' (by decide)
  · have hu' : Unbroken (trimStart line) := by
      rw [← takeWhile_append_trimStart line, unbroken_append] at hu
      exact hu.2
    obtain ⟨r, hname, ⟨s, hbone⟩, hs, hl, hlen⟩ := readFields?_eq_some hu' h
    obtain ⟨hr, hb, hq⟩ := mem_names hname
    rw [trimStart_trimStart] at hr
    have hline : line = line.takeWhile isBlank ++ (e.name ++ r) := by
      rw [← hr, takeWhile_append_trimStart]
    refine ⟨⟨r, ?_, hs⟩, not_blanks_of_mem_names hname, hlen, ?_⟩
    · rw [hl, List.append_assoc]
      exact hline
    · intro d hd
      obtain ⟨r', hd', hdb, hk, hrg, hn, -⟩ := (Directive.read?_eq_some_iff hu).mp hd
      obtain ⟨w, hw⟩ := Directive.exists_of_spelling hk
      have hnext := nextWord_append hdb (Directive.inked_of_spelling hk) (by simp [hw]) hrg
      rw [← hd'] at hnext
      rcases hq with ⟨q, hq⟩ | ⟨hi, -⟩
      · have hstart : trimStart line = d.keyword ++ r' := by
          rw [hd', trimStart_append hdb]
          exact trimStart_inked_append (Directive.inked_of_spelling hk) (by simp [hw]) r'
        rw [hstart, hw, hq] at hr
        cases hr
      · rw [nextWord, hr, hi.span (atGap_of_startsBlank hb)] at hnext
        obtain ⟨-, rfl⟩ := Prod.mk.inj hnext
        rw [← Bool.not_eq_true]
        intro hnum
        have hnil : names r = [] := names_eq_nil (by rw [hn]; exact hnum)
        rw [hnil] at hbone
        cases hbone

/-! ## 3. Writing an eyeball -/

/-- The length is the other one times the factor, to so many places, and without a column for a sign
that is gone. -/
def ScaledTo (factor : Quantity) (places : Int) (old new : Text) : Prop :=
  trim <$> scaleLiteral old factor (some places) = .ok new

/-- An eyeball before and after: the lengths are scaled, and all else is kept. -/
structure ScaledBy (factor : Quantity) (places : Int) (before after : Eyeball) : Prop where
  lead : after.lead = before.lead
  name : after.name = before.name
  bone : after.bone = before.bone
  x : ScaledTo factor places before.position.x after.position.x
  y : ScaledTo factor places before.position.y after.position.y
  z : ScaledTo factor places before.position.z after.position.z
  material : after.material = before.material
  diameter : ScaledTo factor places before.diameter after.diameter
  angle : after.angle = before.angle
  pupil : Option.Rel (ScaledTo factor places) before.pupil after.pupil
  irisMaterial : after.irisMaterial = before.irisMaterial
  irisScale : ScaledTo factor places before.irisScale after.irisScale
  trail : after.trail = before.trail

theorem ScaledTo.isNumeral {factor : Quantity} {places : Int} {old new : Text}
    (h : ScaledTo factor places old new) : isNumeral new = true := by
  obtain ⟨t, ht, rfl⟩ := map_eq_ok.mp h
  exact isNumeral_trim_scaleLiteral ht

theorem scaledBy_of_rescale {e e' : Eyeball} {factor : Quantity} {places : Int}
    (h : e.rescale factor places = .ok e') : ScaledBy factor places e e' := by
  unfold rescale at h
  obtain ⟨x, hx, h⟩ := bind_eq_ok.mp h
  obtain ⟨y, hy, h⟩ := bind_eq_ok.mp h
  obtain ⟨z, hz, h⟩ := bind_eq_ok.mp h
  obtain ⟨diameter, hd, h⟩ := bind_eq_ok.mp h
  obtain ⟨pupil, hp, h⟩ := bind_eq_ok.mp h
  obtain ⟨irisScale, hi, h⟩ := bind_eq_ok.mp h
  obtain rfl := pure_eq_ok.mp h
  have hpupil : Option.Rel (ScaledTo factor places) e.pupil pupil := by
    cases hep : e.pupil with
    | none =>
      rw [hep] at hp
      obtain rfl := pure_eq_ok.mp hp
      exact .none
    | some p =>
      rw [hep] at hp
      obtain ⟨q, hq, rfl⟩ := map_eq_ok.mp hp
      exact .some hq
  exact ⟨rfl, rfl, rfl, hx, hy, hz, rfl, hd, rfl, hpupil, rfl, hi, rfl⟩

/-- Behind the name, fields are kept and numbers take the places of numbers. -/
theorem ScaledBy.swapped {e e' : Eyeball} {factor : Quantity} {places : Int}
    (h : ScaledBy factor places e e') (hl : e.Lengths) :
    List.Forall₂ Spaced.Swapped e.others e'.others := by
  have hkept : ∀ {w w' : Text}, w' = w → Spaced.Swapped w w' := Or.inl
  have hscaled : ∀ {w w' : Text}, ModelScale.isNumeral w = true → ScaledTo factor places w w' →
      Spaced.Swapped w w' := fun hw hs => Or.inr ⟨hw, hs.isNumeral⟩
  have hoption : ∀ {p p' : Option Text}, Option.Rel (ScaledTo factor places) p p' →
      (∀ t ∈ p, ModelScale.isNumeral t = true) →
      List.Forall₂ Spaced.Swapped p.toList p'.toList := by
    intro p p' hrel hnum
    cases hrel with
    | none => exact .nil
    | some hq => exact .cons (hscaled (hnum _ rfl) hq) .nil
  have hpupil := hoption h.pupil hl.pupil
  obtain ⟨h1, h2, h3⟩ := hl.position
  refine List.rel_append (List.rel_append (List.rel_append (List.rel_append ?_ ?_) ?_) hpupil) ?_
  · exact .cons (hkept h.bone) .nil
  · exact .cons (hscaled h1 h.x) (.cons (hscaled h2 h.y) (.cons (hscaled h3 h.z) .nil))
  · exact .cons (hkept h.material)
      (.cons (hscaled hl.diameter h.diameter) (.cons (hkept h.angle) .nil))
  · exact .cons (hkept h.irisMaterial) (.cons (hscaled hl.irisScale h.irisScale) .nil)

/-- **A rescaled eyeball is a line that spares directives.** -/
theorem spared {line : Text} {e e' : Eyeball} {factor : Quantity} {places : Int}
    (hu : Unbroken line) (h : read? line = some e) (hr : e.rescale factor places = .ok e') :
    Spared line e'.toLine := by
  obtain ⟨⟨r, hline, hs⟩, hname, hlen, hd⟩ := read?_eq_some hu h
  have hby := scaledBy_of_rescale hr
  have hw := hby.swapped hlen
  have hl := hby.lead
  have hn := hby.name
  have ht := hby.trail
  refine Or.inr ⟨?_, hd⟩
  have hs' : Spaced e'.others e.trail ((e'.others.flatMap fun w => ' ' :: w) ++ e.trail) :=
    .flatMap _ hs.atGap_trail
  have hto : e'.toLine = Text.trimEnd (e.lead ++ e.name ++
      ((e'.others.flatMap fun w => ' ' :: w) ++ e.trail)) := by
    rw [toLine, tokens_eq, join_cons, hl, hn, ht]
    simp only [List.append_assoc]
  have hp : ¬ Blanks (e.lead ++ e.name) := by
    intro hb
    exact hname (blanks_append.mp hb).2
  rw [hto, hline]
  refine (Retouched.of_append hp hs.atGap hs'.atGap ⟨?_, ?_, ?_⟩).trans (Retouched.trimEnd _)
  · intro s
    rw [hs.scan_eq hs' hw]
  · intro hur
    obtain ⟨hus, hut⟩ := hs.unbroken hur
    rw [unbroken_append]
    exact ⟨unbroken_flatMap (Spaced.forall_swapped (fun _ => unbroken_of_isNumeral) hw hus), hut⟩
  · intro hf
    obtain ⟨hfs, hft⟩ := hs.faithful_iff.mp hf
    have hn : ∀ w, isNumeral w = true → Faithful w := by
      intro w hw
      exact faithful_of_plain (plain_of_isNumeral hw)
    exact hs'.faithful_iff.mpr ⟨Spaced.forall_swapped hn hw hfs, hft⟩

end Eyeball

end ModelScale
