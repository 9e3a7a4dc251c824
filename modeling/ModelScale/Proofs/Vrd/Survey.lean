import ModelScale.Proofs.Vrd.Shape

/-
# Writing leaves the survey of a script as it was

`writeSites` goes through a script line by line.  A line that it rebuilds is classified as before,
in the same region, with the same text around its coordinates; a line that it copies is the same
line.  So helpers, ordinals and comment regions of the lines behind are not touched either, and by
induction a written script has the survey of the original.  What is more, a line is rebuilt or
copied for reasons that the survey and the baseline give alone.  Main statements:

* `writeSite_eq_iff`: all that can come of a line (`WritesSite`), faults included;
* `writeSites_written`: writing a written script again, at any scale, gives what writing the
  original gives.

Lines behind a script that are nothing to a rescale do not matter (`survey_append_quiet`).
-/

namespace ModelScale

open Text

/-! ## 1. One site after another -/

/-- The site of a line in its place. -/
def siteOf (owner : Option Text) (earlier : List Text) : Option VrdShape → Site
  | some (.rest line) => .rest owner line
  | some (.offset line) => .offset owner ((owner.map earlier.count).getD 0) line
  | some (.unreadable fault) => .unreadable fault
  | _ => .other

/-- The helper named last, after a line. -/
def nextOwner (owner : Option Text) : Option VrdShape → Option Text
  | some (.helper name) => some name
  | _ => owner

/-- The helpers of the offsets so far, after a line. -/
def nextEarlier (owner : Option Text) (earlier : List Text) : Option VrdShape → List Text
  | some (.offset _) => owner.toList ++ earlier
  | _ => earlier

@[simp] theorem sitesFrom_nil (owner : Option Text) (earlier : List Text) :
    sitesFrom owner earlier [] = [] := rfl

theorem sitesFrom_cons (owner : Option Text) (earlier : List Text) (shape : Option VrdShape)
    (shapes : List (Option VrdShape)) :
    sitesFrom owner earlier (shape :: shapes) =
      siteOf owner earlier shape ::
        sitesFrom (nextOwner owner shape) (nextEarlier owner earlier shape) shapes := by
  rcases shape with _ | (_ | _ | _ | _ | _ | _) <;> rfl

theorem classifyAll_cons (g : Region) (line : Text) (rest : List Text) :
    classifyAll g (line :: rest) = (classify g line).1 :: classifyAll (classify g line).2 rest :=
  rfl

/-- The region behind some lines. -/
def regionOf (g : Region) (lines : List Text) : Region :=
  lines.foldl (fun g line => (classify g line).2) g

theorem classifyAll_append (g : Region) (lines rest : List Text) :
    classifyAll g (lines ++ rest) = classifyAll g lines ++ classifyAll (regionOf g lines) rest := by
  induction lines generalizing g with
  | nil => rfl
  | cons line lines ih => rw [List.cons_append, classifyAll_cons, classifyAll_cons, ih]; rfl

/-! ## 2. The same up to coordinates -/

/-- Shapes that differ in their coordinates at most. -/
def VrdShape.SameFrame : Option VrdShape → Option VrdShape → Prop
  | some (.rest l), some (.rest m) => l.SameFrame m
  | some (.offset l), some (.offset m) => l.SameFrame m
  | s, t => s = t

/-- Sites that differ in their coordinates at most. -/
def Site.SameFrame : Site → Site → Prop
  | .rest o l, .rest p m => o = p ∧ l.SameFrame m
  | .offset o i l, .offset p j m => o = p ∧ i = j ∧ l.SameFrame m
  | s, t => s = t

theorem TripleLine.SameFrame.refl (l : TripleLine) : l.SameFrame l := ⟨rfl, rfl⟩

theorem VrdShape.SameFrame.refl (s : Option VrdShape) : VrdShape.SameFrame s s := by
  rcases s with _ | (_ | l | l | _ | _ | _)
  all_goals first | exact TripleLine.SameFrame.refl _ | exact rfl

theorem Site.SameFrame.refl (s : Site) : s.SameFrame s := by
  cases s with
  | rest o l => exact ⟨rfl, TripleLine.SameFrame.refl l⟩
  | offset o i l => exact ⟨rfl, rfl, TripleLine.SameFrame.refl l⟩
  | other => rfl
  | unreadable fault => rfl

/-- Shapes up to coordinates make sites up to coordinates, and the same place for the next line. -/
theorem siteOf_sameFrame {s t : Option VrdShape} (h : VrdShape.SameFrame s t) (owner : Option Text)
    (earlier : List Text) :
    (siteOf owner earlier s).SameFrame (siteOf owner earlier t) ∧
      nextOwner owner s = nextOwner owner t ∧
      nextEarlier owner earlier s = nextEarlier owner earlier t := by
  rcases s with _ | (_ | l | l | _ | _ | _) <;> rcases t with _ | (_ | m | m | _ | _ | _)
  all_goals first
    | (cases h; done)
    | exact ⟨⟨rfl, h⟩, rfl, rfl⟩
    | exact ⟨⟨rfl, rfl, h⟩, rfl, rfl⟩
    | (cases h; exact ⟨Site.SameFrame.refl _, rfl, rfl⟩)

/-- What a rescale can make of a line: the line itself, or the line with other coordinates. -/
inductive Recast (g : Region) (line : Text) : Text → Prop where
  | same : Recast g line line
  | rest {l : TripleLine} {v : Triple} (h : (classify g line).1 = some (.rest l))
      (hv : v.Scaled) : Recast g line (l.withValues v)
  | offset {l : TripleLine} {v : Triple} (h : (classify g line).1 = some (.offset l))
      (hv : v.Scaled) : Recast g line (l.withValues v)

/-- **A recast line is classified as before**, up to coordinates. -/
theorem Recast.classify_sameFrame {g : Region} {line line' : Text} (h : Recast g line line')
    (hu : Unbroken line) :
    VrdShape.SameFrame (classify g line').1 (classify g line).1 ∧
      (classify g line').2 = (classify g line).2 := by
  cases h with
  | same => exact ⟨VrdShape.SameFrame.refl _, rfl⟩
  | rest h hv =>
    obtain ⟨m, hm, hf⟩ := classify_withValues_rest hu (Prod.ext h rfl) hv
    rw [hm, h]
    exact ⟨hf, rfl⟩
  | offset h hv =>
    obtain ⟨m, hm, hf⟩ := classify_withValues_offset hu (Prod.ext h rfl) hv
    rw [hm, h]
    exact ⟨hf, rfl⟩

/-- What a rescale can make of lines, the first of which begins in a region. -/
inductive Recasts : Region → List Text → List Text → Prop where
  | nil {g : Region} : Recasts g [] []
  | cons {g : Region} {line line' : Text} {rest rest' : List Text} (h : Recast g line line')
      (hr : Recasts (classify g line).2 rest rest') : Recasts g (line :: rest) (line' :: rest')

/-- **Recast lines have the survey of the original**, up to coordinates, and end in its region. -/
theorem Recasts.survey_sameFrame {g : Region} {lines lines' : List Text}
    (h : Recasts g lines lines') (hu : ∀ line ∈ lines, Unbroken line) (owner : Option Text)
    (earlier : List Text) :
    List.Forall₂ Site.SameFrame (sitesFrom owner earlier (classifyAll g lines'))
      (sitesFrom owner earlier (classifyAll g lines)) ∧ regionOf g lines' = regionOf g lines := by
  induction h generalizing owner earlier with
  | nil => exact ⟨List.Forall₂.nil, rfl⟩
  | @cons g line line' rest rest' h hr ih =>
    obtain ⟨hs, hg⟩ := h.classify_sameFrame (hu line List.mem_cons_self)
    obtain ⟨h1, h2, h3⟩ := siteOf_sameFrame hs owner earlier
    obtain ⟨ihs, ihg⟩ := ih (fun l hl => hu l (List.mem_cons_of_mem _ hl))
      (nextOwner owner (classify g line).1) (nextEarlier owner earlier (classify g line).1)
    constructor
    · rw [classifyAll_cons, classifyAll_cons, sitesFrom_cons, sitesFrom_cons, h2, h3, hg]
      exact List.Forall₂.cons h1 ihs
    · rw [regionOf, regionOf, List.foldl_cons, List.foldl_cons, hg]
      exact ihg

/-! ## 3. One line -/

/-- The line of a site with coordinates. -/
def Site.line? : Site → Option TripleLine
  | .rest _ line | .offset _ _ line => some line
  | _ => none

theorem recast_of_line? {g : Region} {line : Text} {owner : Option Text} {earlier : List Text}
    {l : TripleLine} {v : Triple}
    (hl : (siteOf owner earlier (classify g line).1).line? = some l) (hv : v.Scaled) :
    Recast g line (l.withValues v) := by
  generalize hs : (classify g line).1 = shape at hl
  rcases shape with _ | (_ | m | m | _ | _ | _) <;> cases hl
  · exact Recast.rest hs hv
  · exact Recast.offset hs hv

/-- What comes of a line, by what the baseline knows of its site. -/
inductive WritesSite (b : Baseline) (scale : Decimal) (n : Nat) (text : Text) :
    Site → Except BonesError WrittenLine → Prop where
  | other : WritesSite b scale n text .other (.ok ⟨text, false⟩)
  | unreadable {f : Fault} : WritesSite b scale n text (.unreadable f) (.error (.fault f))
  /-- A rest position of no helper, or of one without a stored rest position. -/
  | foreignRest {owner : Option Text} {l : TripleLine} (hb : owner.bind b.rest.get? = none) :
    WritesSite b scale n text (.rest owner l) (.ok ⟨text, false⟩)
  | rest {owner : Option Text} {l : TripleLine} {values v : Triple}
    (hb : owner.bind b.rest.get? = some values) (hv : scaleTriple values scale = .ok v) :
    WritesSite b scale n text (.rest owner l) (.ok ⟨l.withValues v, false⟩)
  | restFault {owner : Option Text} {l : TripleLine} {values : Triple} {f : Fault}
    (hb : owner.bind b.rest.get? = some values) (hf : scaleTriple values scale = .error f) :
    WritesSite b scale n text (.rest owner l) (.error (.fault f))
  /-- An offset of no helper, or of one that the baseline does not know. -/
  | foreignOffset {owner : Option Text} {k : Nat} {l : TripleLine} {zero : Bool}
    (hb : owner.filter b.contains = none) (hz : tripleIsZero l.values = .ok zero) :
    WritesSite b scale n text (.offset owner k l) (.ok ⟨text, !zero⟩)
  | foreignFault {owner : Option Text} {k : Nat} {l : TripleLine} {f : Fault}
    (hb : owner.filter b.contains = none) (hf : tripleIsZero l.values = .error f) :
    WritesSite b scale n text (.offset owner k l) (.error (.fault f))
  /-- An offset behind the last one that is stored. -/
  | surplus {owner : Option Text} {helper : Text} {k : Nat} {l : TripleLine}
    (hb : owner.filter b.contains = some helper) (hk : (b.sequence helper)[k]? = none) :
    WritesSite b scale n text (.offset owner k l)
      (.error (.mismatch { helper := some helper, index := some k, line := some n }))
  | zeroFault {owner : Option Text} {helper : Text} {k : Nat} {l : TripleLine} {values : Triple}
    {f : Fault} (hb : owner.filter b.contains = some helper)
    (hk : (b.sequence helper)[k]? = some values) (hf : tripleIsZero values = .error f) :
    WritesSite b scale n text (.offset owner k l) (.error (.fault f))
  | zero {owner : Option Text} {helper : Text} {k : Nat} {l : TripleLine} {values : Triple}
    (hb : owner.filter b.contains = some helper) (hk : (b.sequence helper)[k]? = some values)
    (hz : tripleIsZero values = .ok true) :
    WritesSite b scale n text (.offset owner k l) (.ok ⟨text, false⟩)
  | offset {owner : Option Text} {helper : Text} {k : Nat} {l : TripleLine} {values v : Triple}
    (hb : owner.filter b.contains = some helper) (hk : (b.sequence helper)[k]? = some values)
    (hz : tripleIsZero values = .ok false) (hv : scaleTriple values scale = .ok v) :
    WritesSite b scale n text (.offset owner k l) (.ok ⟨l.withValues v, true⟩)
  | offsetFault {owner : Option Text} {helper : Text} {k : Nat} {l : TripleLine} {values : Triple}
    {f : Fault} (hb : owner.filter b.contains = some helper)
    (hk : (b.sequence helper)[k]? = some values) (hz : tripleIsZero values = .ok false)
    (hf : scaleTriple values scale = .error f) :
    WritesSite b scale n text (.offset owner k l) (.error (.fault f))

theorem WritesSite.writeSite_eq {b : Baseline} {scale : Decimal} {n : Nat} {text : Text}
    {site : Site} {r : Except BonesError WrittenLine} (h : WritesSite b scale n text site r) :
    writeSite b scale n text site = r := by
  cases h with
  | other => rfl
  | unreadable => rfl
  | foreignRest hb => simp only [writeSite, hb]
  | rest hb hv => simp only [writeSite, hb, hv]; rfl
  | restFault hb hf => simp only [writeSite, hb, hf]; rfl
  | foreignOffset hb hz => simp only [writeSite, hb, hz]; rfl
  | foreignFault hb hf => simp only [writeSite, hb, hf]; rfl
  | surplus hb hk => simp only [writeSite, hb, hk]
  | zeroFault hb hk hf => simp only [writeSite, hb, hk, hf]; rfl
  | zero hb hk hz => simp only [writeSite, hb, hk, hz]; rfl
  | offset hb hk hz hv => simp only [writeSite, hb, hk, hz, hv]; rfl
  | offsetFault hb hk hz hf => simp only [writeSite, hb, hk, hz, hf]; rfl

/-- Something comes of every line. -/
theorem exists_writesSite (b : Baseline) (scale : Decimal) (n : Nat) (text : Text) (site : Site) :
    ∃ r, WritesSite b scale n text site r := by
  cases site with
  | other => exact ⟨_, .other⟩
  | unreadable f => exact ⟨_, .unreadable⟩
  | rest owner l =>
    cases hb : owner.bind b.rest.get? with
    | none => exact ⟨_, .foreignRest hb⟩
    | some values =>
      cases hv : scaleTriple values scale with
      | ok v => exact ⟨_, .rest hb hv⟩
      | error f => exact ⟨_, .restFault hb hv⟩
  | offset owner k l =>
    cases hb : owner.filter b.contains with
    | none =>
      cases hz : tripleIsZero l.values with
      | ok zero => exact ⟨_, .foreignOffset hb hz⟩
      | error f => exact ⟨_, .foreignFault hb hz⟩
    | some helper =>
      cases hk : (b.sequence helper)[k]? with
      | none => exact ⟨_, .surplus hb hk⟩
      | some values =>
        cases hz : tripleIsZero values with
        | error f => exact ⟨_, .zeroFault hb hk hz⟩
        | ok zero =>
          cases zero with
          | true => exact ⟨_, .zero hb hk hz⟩
          | false =>
            cases hv : scaleTriple values scale with
            | ok v => exact ⟨_, .offset hb hk hz hv⟩
            | error f => exact ⟨_, .offsetFault hb hk hz hv⟩

/-- **All that can come of a line.** -/
theorem writeSite_eq_iff {b : Baseline} {scale : Decimal} {n : Nat} {text : Text} {site : Site}
    {r : Except BonesError WrittenLine} :
    writeSite b scale n text site = r ↔ WritesSite b scale n text site r := by
  refine ⟨?_, WritesSite.writeSite_eq⟩
  rintro rfl
  obtain ⟨r, h⟩ := exists_writesSite b scale n text site
  rwa [h.writeSite_eq]

/-- A line is copied, or it is rebuilt with scaled coordinates. -/
theorem text_of_writeSite {b : Baseline} {scale : Decimal} {n : Nat} {text : Text} {site : Site}
    {w : WrittenLine} (h : writeSite b scale n text site = .ok w) :
    w.text = text ∨ ∃ l values v, site.line? = some l ∧ scaleTriple values scale = .ok v ∧
      w.text = l.withValues v := by
  cases writeSite_eq_iff.mp h with
  | other => exact Or.inl rfl
  | foreignRest => exact Or.inl rfl
  | rest _ hv => exact Or.inr ⟨_, _, _, rfl, hv, rfl⟩
  | foreignOffset => exact Or.inl rfl
  | zero => exact Or.inl rfl
  | offset _ _ _ hv => exact Or.inr ⟨_, _, _, rfl, hv, rfl⟩

/-- Of what the baseline does not know, lines are copied. -/
theorem writeSite_copied {b : Baseline} {scale : Decimal} {n : Nat} {text : Text} {site : Site}
    {w : WrittenLine} (hr : ∀ helper l, site = .rest (some helper) l → b.rest.get? helper = none)
    (ho : ∀ helper k l, site = .offset (some helper) k l → b.contains helper = false)
    (h : writeSite b scale n text site = .ok w) : w.text = text := by
  cases writeSite_eq_iff.mp h with
  | other => rfl
  | foreignRest => rfl
  | rest hb =>
    obtain ⟨helper, rfl, hv⟩ := Option.bind_eq_some_iff.mp hb
    rw [hr helper _ rfl] at hv
    cases hv
  | foreignOffset => rfl
  | zero => rfl
  | offset hb =>
    obtain ⟨rfl, hc⟩ := Option.filter_eq_some_iff.mp hb
    rw [ho _ _ _ rfl] at hc
    cases hc

/-- Of a line that is rebuilt only the frame counts, at any scale. -/
theorem writeSite_of_sameFrame {b : Baseline} {scale : Decimal} {n : Nat} {text : Text}
    {site : Site} {w : WrittenLine} (h : writeSite b scale n text site = .ok w)
    (hw : w.text ≠ text) (s : Decimal) (m : Nat) (text' : Text) {site' : Site}
    (hf : site'.SameFrame site) : writeSite b s m text' site' = writeSite b s m text site := by
  cases writeSite_eq_iff.mp h with
  | other => exact absurd rfl hw
  | foreignRest => exact absurd rfl hw
  | rest hb =>
    cases site' with
    | rest p l =>
      obtain ⟨rfl, hf⟩ := hf
      simp only [writeSite, hb, TripleLine.withValues_congr hf]
    | _ => cases hf
  | foreignOffset => exact absurd rfl hw
  | zero => exact absurd rfl hw
  | offset hb hk hz =>
    cases site' with
    | offset p j l =>
      obtain ⟨rfl, rfl, hf⟩ := hf
      simp only [writeSite, hb, hk, hz, TripleLine.withValues_congr hf]
      rfl
    | _ => cases hf

/-! ## 4. All lines -/

theorem writeSites_cons_eq_ok {b : Baseline} {scale : Decimal} {n : Nat} {text : Text} {site : Site}
    {rest : List (Text × Site)} {written : List WrittenLine} :
    writeSites b scale n ((text, site) :: rest) = .ok written ↔
      ∃ w ws, writeSite b scale n text site = .ok w ∧ writeSites b scale (n + 1) rest = .ok ws ∧
        written = w :: ws := by
  rw [writeSites, bind_eq_ok]
  constructor
  · rintro ⟨w, hw, h⟩
    obtain ⟨ws, hws, h⟩ := bind_eq_ok.mp h
    exact ⟨w, ws, hw, hws, (pure_eq_ok.mp h).symm⟩
  · rintro ⟨w, ws, hw, hws, rfl⟩
    exact ⟨w, hw, bind_eq_ok.mpr ⟨ws, hws, pure_eq_ok.mpr rfl⟩⟩

/-- Writing recasts lines and does nothing else to them. -/
theorem recasts_of_writeSites {b : Baseline} {scale : Decimal} {g : Region} {owner : Option Text}
    {earlier : List Text} {n : Nat} {lines : List Text} {written : List WrittenLine}
    (h : writeSites b scale n (lines.zip (sitesFrom owner earlier (classifyAll g lines))) =
      .ok written) : Recasts g lines (written.map (·.text)) := by
  induction lines generalizing g owner earlier n written with
  | nil => cases h; exact Recasts.nil
  | cons line rest ih =>
    rw [classifyAll_cons, sitesFrom_cons, List.zip_cons_cons] at h
    obtain ⟨w, ws, hw, hws, rfl⟩ := writeSites_cons_eq_ok.mp h
    refine Recasts.cons ?_ (ih hws)
    show Recast g line w.text
    rcases text_of_writeSite hw with h | ⟨l, values, v, hl, hv, h⟩
    · rw [h]; exact Recast.same
    · rw [h]; exact recast_of_line? hl (scaleTriple_eq_ok hv)

/-- **Writing a written script again gives what writing the original gives.** -/
theorem writeSites_written {b : Baseline} {scale : Decimal} {g : Region} {owner : Option Text}
    {earlier : List Text} {n : Nat} {lines : List Text} {written : List WrittenLine}
    (hu : ∀ line ∈ lines, Unbroken line)
    (h : writeSites b scale n (lines.zip (sitesFrom owner earlier (classifyAll g lines))) =
      .ok written) (scale' : Decimal) (m : Nat) :
    writeSites b scale' m ((written.map (·.text)).zip
        (sitesFrom owner earlier (classifyAll g (written.map (·.text))))) =
      writeSites b scale' m (lines.zip (sitesFrom owner earlier (classifyAll g lines))) := by
  induction lines generalizing g owner earlier n written m with
  | nil => cases h; rfl
  | cons line rest ih =>
    have hrec := recasts_of_writeSites h
    rw [classifyAll_cons, sitesFrom_cons, List.zip_cons_cons] at h
    obtain ⟨w, ws, hw, hws, rfl⟩ := writeSites_cons_eq_ok.mp h
    cases hrec with
    | cons hr _ =>
      obtain ⟨hs, hg⟩ := hr.classify_sameFrame (hu line List.mem_cons_self)
      obtain ⟨h1, h2, h3⟩ := siteOf_sameFrame hs owner earlier
      have hsite : writeSite b scale' m w.text (siteOf owner earlier (classify g w.text).1) =
          writeSite b scale' m line (siteOf owner earlier (classify g line).1) := by
        by_cases htext : w.text = line
        · rw [htext]
        · exact writeSite_of_sameFrame hw htext scale' m w.text h1
      rw [List.map_cons, classifyAll_cons, classifyAll_cons, sitesFrom_cons, sitesFrom_cons,
        List.zip_cons_cons, List.zip_cons_cons, h2, h3, hg, writeSites, writeSites, hsite,
        ih (fun l hl => hu l (List.mem_cons_of_mem _ hl)) hws (m + 1)]

/-! ## 5. Lines that are nothing to a rescale -/

/-- No shape, or a record that can be read. -/
def VrdShape.Quiet : Option VrdShape → Prop
  | none | some (.storedRest _) | some (.storedOffset _) => True
  | _ => False

theorem sitesFrom_quiet {shapes : List (Option VrdShape)} (h : ∀ s ∈ shapes, VrdShape.Quiet s)
    (owner : Option Text) (earlier : List Text) :
    sitesFrom owner earlier shapes = List.replicate shapes.length .other := by
  induction shapes with
  | nil => rfl
  | cons s shapes ih =>
    have hs := h s List.mem_cons_self
    have ih := ih fun s hs => h s (List.mem_cons_of_mem _ hs)
    rcases s with _ | (_ | _ | _ | _ | _ | _) <;> first | (cases hs; done) | skip
    all_goals rw [sitesFrom_cons, List.length_cons, List.replicate_succ]; exact congrArg _ ih

theorem sitesFrom_append_quiet {tail : List (Option VrdShape)} (h : ∀ s ∈ tail, VrdShape.Quiet s)
    (shapes : List (Option VrdShape)) (owner : Option Text) (earlier : List Text) :
    sitesFrom owner earlier (shapes ++ tail) =
      sitesFrom owner earlier shapes ++ List.replicate tail.length .other := by
  induction shapes generalizing owner earlier with
  | nil => exact sitesFrom_quiet h owner earlier
  | cons s shapes ih => rw [List.cons_append, sitesFrom_cons, sitesFrom_cons, ih, List.cons_append]

theorem quiet_classifyAll {tail : List Text}
    (h : ∀ line ∈ tail, ∀ g, VrdShape.Quiet (classify g line).1) (g : Region) :
    ∀ s ∈ classifyAll g tail, VrdShape.Quiet s := by
  induction tail generalizing g with
  | nil => intro s hs; cases hs
  | cons line tail ih =>
    intro s hs
    rcases List.mem_cons.mp hs with rfl | hs
    · exact h line List.mem_cons_self g
    · exact ih (fun l hl => h l (List.mem_cons_of_mem _ hl)) _ s hs

/-- Behind a script, lines that are nothing to a rescale are no sites. -/
theorem survey_append_quiet {lines tail : List Text}
    (h : ∀ line ∈ tail, ∀ g, VrdShape.Quiet (classify g line).1) :
    survey (lines ++ tail) = survey lines ++ List.replicate tail.length .other := by
  rw [survey, classifyAll_append, sitesFrom_append_quiet (quiet_classifyAll h _),
    classifyAll_length]
  rfl

theorem writeSites_append_eq_ok {b : Baseline} {scale : Decimal} {n : Nat}
    {xs ys : List (Text × Site)} {written : List WrittenLine} :
    writeSites b scale n (xs ++ ys) = .ok written ↔
      ∃ ws vs, writeSites b scale n xs = .ok ws ∧ writeSites b scale (n + xs.length) ys = .ok vs ∧
        written = ws ++ vs := by
  induction xs generalizing n written with
  | nil =>
    constructor
    · intro h; exact ⟨[], written, rfl, h, rfl⟩
    · rintro ⟨ws, vs, hw, hv, rfl⟩
      cases hw
      exact hv
  | cons x xs ih =>
    obtain ⟨text, site⟩ := x
    rw [List.cons_append, writeSites_cons_eq_ok]
    constructor
    · rintro ⟨w, rest, hw, hr, rfl⟩
      obtain ⟨ws, vs, hws, hvs, rfl⟩ := ih.mp hr
      refine ⟨w :: ws, vs, writeSites_cons_eq_ok.mpr ⟨w, ws, hw, hws, rfl⟩, ?_, rfl⟩
      rw [List.length_cons, Nat.add_comm xs.length 1, ← Nat.add_assoc]
      exact hvs
    · rintro ⟨all, vs, hall, hvs, rfl⟩
      obtain ⟨w, ws, hw, hws, rfl⟩ := writeSites_cons_eq_ok.mp hall
      refine ⟨w, ws ++ vs, hw, ih.mpr ⟨ws, vs, hws, ?_, rfl⟩, rfl⟩
      rw [List.length_cons, Nat.add_comm xs.length 1, ← Nat.add_assoc] at hvs
      exact hvs

/-- Lines that are no sites are copied. -/
theorem writeSites_other (b : Baseline) (scale : Decimal) (n : Nat) (texts : List Text) :
    writeSites b scale n (texts.zip (List.replicate texts.length .other)) =
      .ok (texts.map (⟨·, false⟩)) := by
  induction texts generalizing n with
  | nil => rfl
  | cons t texts ih =>
    rw [List.length_cons, List.replicate_succ, List.zip_cons_cons]
    exact writeSites_cons_eq_ok.mpr ⟨_, _, rfl, ih (n + 1), rfl⟩

end ModelScale
