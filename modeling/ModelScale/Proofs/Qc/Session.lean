import ModelScale.Proofs.Qc.Eyeball
import ModelScale.Proofs.Qc.ModelName

/-
# Sessions on a model script

A session rescales a script again and again, and takes every time the scale that the script itself
gives as the previous one.  If the directive that a rescale leaves behind said anything else than
what was asked for, the next relative factor would be wrong without a sign of it.  Main statements:

* `rescaleScript_eq_ok`: after a rescale the first live directive is the one that was placed;
* `ScaleTurn.carryOut_eq_ok`: one turn of a session;
* `directive_stays_truthful`: a whole session.
-/

namespace ModelScale

open Text Comment

/-! ## 1. The passes behind the directive -/

theorem scaledEyeball_eq_ok {line? : Option Text} {factor : Quantity}
    {r : Option (Eyeball × Eyeball)} (h : scaledEyeball {} factor line? = .ok r) :
    r = none ∨ ∃ line e e', line? = some line ∧ Eyeball.read? line = some e ∧
      e.rescale factor ({} : Settings).eyeballPlaces = .ok e' ∧ r = some (e, e') := by
  unfold scaledEyeball at h
  split at h
  · exact Or.inl (Except.ok.inj h).symm
  · rename_i e he
    obtain ⟨line, hl, he⟩ := Option.bind_eq_some_iff.mp he
    obtain ⟨e', hr, h⟩ := bind_eq_ok.mp h
    exact Or.inr ⟨line, e, e', hl, he, hr, (pure_eq_ok.mp h).symm⟩

/-- One line of the pass over the eyeballs: only a live line can become another one. -/
theorem spared_of_scaledEyeball {factor : Quantity} {g : Region} {line : Text}
    {r : Option (Eyeball × Eyeball)} (hu : Unbroken line)
    (h : scaledEyeball {} factor (if inert g line then none else some line) = .ok r) :
    Spared line ((r.map (·.2.toLine)).getD line) ∧
      (inert g line = true → (r.map (·.2.toLine)).getD line = line) := by
  rcases scaledEyeball_eq_ok h with rfl | ⟨l, e, e', hlive, hread, hresc, rfl⟩
  · exact ⟨Or.inl rfl, fun _ => rfl⟩
  · cases hi : inert g line with
    | true =>
      rw [hi] at hlive
      cases hlive
    | false =>
      rw [hi] at hlive
      obtain rfl := Option.some.inj hlive
      exact ⟨Eyeball.spared hu hread hresc, fun h => nomatch h⟩

theorem forall₂_spared_of_scaledEyeball {factor : Quantity} {g : Region} {lines : List Text}
    {eyeballs : List (Option (Eyeball × Eyeball))} (hu : ∀ line ∈ lines, Unbroken line)
    (h : List.Forall₂ (fun line? r => scaledEyeball {} factor line? = .ok r) (liveLines g lines)
      eyeballs) :
    List.Forall₂ Spared lines
      ((lines.zip eyeballs).map fun row => (row.2.map (·.2.toLine)).getD row.1) := by
  induction lines generalizing g eyeballs with
  | nil => exact .nil
  | cons line lines ih =>
    obtain ⟨hl, hu⟩ := List.forall_mem_cons.mp hu
    rw [liveLines] at h
    cases h with
    | @cons _ r _ rs hr hrs =>
      rw [List.zip_cons_cons, List.map_cons]
      exact .cons (spared_of_scaledEyeball hl hr).1 (ih hu hrs)

/-- **The pass over the eyeballs spares directives.** -/
theorem scaleEyeballs_spared {lines lines' : List Text} {factor : Quantity}
    {changes : List EyeballEdit} (hu : ∀ line ∈ lines, Unbroken line)
    (h : scaleEyeballs {} lines factor = .ok (lines', changes)) :
    List.Forall₂ Spared lines lines' := by
  obtain ⟨eyeballs, he, h⟩ := bind_eq_ok.mp h
  obtain ⟨rfl, -⟩ := Prod.mk.inj (pure_eq_ok.mp h)
  exact forall₂_spared_of_scaledEyeball hu (mapM_eq_ok.mp he)

/-- **The pass over the model name spares directives.** -/
theorem setModelName_spared {lines lines' : List Text} {scale : Decimal} {rename : Option PathEdit}
    (hu : ∀ line ∈ lines, Unbroken line)
    (h : setModelName {} lines scale = .ok (lines', rename)) :
    List.Forall₂ Spared lines lines' := by
  have hkept : ∀ l : List Text, List.Forall₂ Spared l l := by
    intro l
    exact List.forall₂_same.mpr fun _ _ => Or.inl rfl
  unfold setModelName at h
  split at h
  · obtain ⟨rfl, -⟩ := Prod.mk.inj (Except.ok.inj h)
    exact hkept lines
  · rename_i i model hm
    obtain ⟨d, hd, h⟩ := bind_eq_ok.mp h
    obtain rfl := Except.ok.inj hd
    obtain ⟨hl, -⟩ := Prod.mk.inj (pure_eq_ok.mp h)
    split at hl
    · obtain ⟨pre, line, post, rfl, rfl, -, -, hr⟩ := firstLive?_eq_some_iff.mp hm
      have hset : ∀ l : Text, (pre ++ line :: post).set pre.length l = pre ++ l :: post :=
        fun l => by simp
      rw [← hl, hset]
      refine List.rel_append (hkept pre) (.cons ?_ (hkept post))
      exact ModelName.spared (hu line (by simp)) hr scale
    · rw [← hl]
      exact hkept lines

/-! ## 2. One rescale -/

/-- What a pass keeps on each line it keeps on all of them. -/
theorem forall_of_spared {P : Text → Prop} (hP : ∀ line line', Spared line line' → P line → P line')
    {lines lines' : List Text} (h : List.Forall₂ Spared lines lines')
    (hl : ∀ line ∈ lines, P line) : ∀ line ∈ lines', P line := by
  induction h with
  | nil => exact hl
  | cons hs _ ih =>
    obtain ⟨h1, h2⟩ := List.forall_mem_cons.mp hl
    exact List.forall_mem_cons.mpr ⟨hP _ _ hs h1, ih h2⟩

theorem unbroken_of_spared {lines lines' : List Text} (h : List.Forall₂ Spared lines lines')
    (hu : ∀ line ∈ lines, Unbroken line) : ∀ line ∈ lines', Unbroken line :=
  forall_of_spared (fun _ _ hs => hs.unbroken) h hu

theorem faithful_of_spared {lines lines' : List Text} (h : List.Forall₂ Spared lines lines')
    (hf : ∀ line ∈ lines, Faithful line) : ∀ line ∈ lines', Faithful line :=
  forall_of_spared (fun _ _ hs => hs.faithful) h hf

/-- **A rescale keeps the directive that it places**: the passes behind it leave it the first, on
its line. -/
theorem rescaleScript_eq_ok {lines : List Text} {request : Request} {rename : Bool}
    {r : RescaledScript} (h : rescaleScript {} lines request rename = .ok r)
    (hu : ∀ line ∈ (placeDirective {} lines request.new).lines, Unbroken line) :
    (∀ i scale, Directs (placeDirective {} lines request.new).lines i scale →
        Directs r.lines i scale) ∧
      (∀ line ∈ r.lines, Unbroken line) ∧
      ((∀ line ∈ (placeDirective {} lines request.new).lines, Faithful line) →
        ∀ line ∈ r.lines, Faithful line) ∧
      r.lines.length = (placeDirective {} lines request.new).lines.length ∧
      r.placement = (placeDirective {} lines request.new).placement ∧
      r.directiveLine = (placeDirective {} lines request.new).index + 1 := by
  unfold rescaleScript at h
  dsimp only at h
  obtain ⟨relative, -, h⟩ := bind_eq_ok.mp h
  obtain ⟨⟨scaled, changes⟩, hs, h⟩ := bind_eq_ok.mp h
  have h1 := scaleEyeballs_spared hu hs
  have hu1 := unbroken_of_spared h1 hu
  split at h
  · obtain ⟨⟨final, renamed⟩, hf, h⟩ := bind_eq_ok.mp h
    obtain rfl := pure_eq_ok.mp h
    have h2 := setModelName_spared hu1 hf
    exact ⟨fun i scale hd => (hd.of_spared hu h1).of_spared hu1 h2, unbroken_of_spared h2 hu1,
      fun hf => faithful_of_spared h2 (faithful_of_spared h1 hf),
      h2.length_eq.symm.trans h1.length_eq.symm, rfl, rfl⟩
  · obtain ⟨⟨final, renamed⟩, hf, h⟩ := bind_eq_ok.mp h
    obtain rfl := pure_eq_ok.mp h
    obtain ⟨rfl, -⟩ := Prod.mk.inj (pure_eq_ok.mp hf)
    exact ⟨fun i scale hd => hd.of_spared hu h1, hu1, faithful_of_spared h1, h1.length_eq.symm, rfl,
      rfl⟩

/-! ## 3. Sessions -/

/-- What is asked for in one turn of a session. -/
structure ScaleTurn where
  answer : Text
  rename : Bool
  deriving DecidableEq, Repr

/-- What came of a turn. -/
structure ScaleReport where
  request : Request
  script : RescaledScript
  deriving DecidableEq, Repr

namespace ScaleTurn

/-- One turn: the answer is accepted on top of the scale in force, and carried out. -/
def carryOut (turn : ScaleTurn) (lines : List Text) : Except RequestError ScaleReport := do
  let previous ← (scaleInForce {} lines).mapError .fault
  let request ← acceptScale {} turn.answer previous
  let script ← (rescaleScript {} lines request turn.rename).mapError .fault
  pure ⟨request, script⟩

/-- The turns of a session, each on the lines that the one before it left. -/
def session (lines : List Text) : List ScaleTurn → Except RequestError (List ScaleReport)
  | [] => .ok []
  | turn :: turns => do
    let report ← turn.carryOut lines
    let reports ← session report.script.lines turns
    pure (report :: reports)

/-- After a turn the directive of its scale is in force. -/
structure InForce (report : ScaleReport) : Prop where
  acceptable : Acceptable report.request.new
  unbroken : ∀ line ∈ report.script.lines, Unbroken line
  directs : ∃ i, report.script.directiveLine = i + 1 ∧
    Directs report.script.lines i report.request.new

theorem carryOut_eq_ok {turn : ScaleTurn} {lines : List Text} {report : ScaleReport}
    (h : turn.carryOut lines = .ok report) :
    Acceptable report.request.new ∧
      rescaleScript {} lines report.request turn.rename = .ok report.script := by
  obtain ⟨previous, -, h⟩ := bind_eq_ok.mp h
  obtain ⟨request, hq, h⟩ := bind_eq_ok.mp h
  obtain ⟨script, hs, h⟩ := bind_eq_ok.mp h
  obtain rfl := pure_eq_ok.mp h
  exact ⟨(acceptScale_eq_ok hq).2.1, mapError_eq_ok.mp hs⟩

/-- **Any turn** leaves its scale in force and adds at most one line. -/
theorem inForce_of_carryOut {turn : ScaleTurn} {lines : List Text} {report : ScaleReport}
    (hu : ∀ line ∈ lines, Unbroken line) (h : turn.carryOut lines = .ok report) :
    InForce report ∧ lines.length ≤ report.script.lines.length ∧
      report.script.lines.length ≤ lines.length + 1 := by
  obtain ⟨ha, hs⟩ := carryOut_eq_ok h
  obtain ⟨hdir, hpu, -, hle, hge⟩ := directs_placeDirective hu report.request.new
  obtain ⟨hkeep, hru, -, hlen, -, hline⟩ := rescaleScript_eq_ok hs hpu
  exact ⟨⟨ha, hru, _, hline, hkeep _ _ hdir⟩, by omega, by omega⟩

/-- **A turn on a script with a directive** replaces it on its line and adds no line. -/
theorem carryOut_of_directs {turn : ScaleTurn} {lines : List Text} {report : ScaleReport} {i : Nat}
    {scale : Decimal} (hu : ∀ line ∈ lines, Unbroken line) (hd : Directs lines i scale)
    (h : turn.carryOut lines = .ok report) :
    report.script.placement = .replaced ∧ report.script.directiveLine = i + 1 ∧
      report.script.lines.length = lines.length := by
  obtain ⟨-, hs⟩ := carryOut_eq_ok h
  obtain ⟨d, hd, -⟩ := hd
  obtain ⟨-, hpu, -, hplaced, hi, hplen⟩ := placeDirective_of_some hu hd report.request.new
  obtain ⟨-, -, -, hlen, hplace, hline⟩ := rescaleScript_eq_ok hs hpu
  exact ⟨hplace.trans hplaced, by rw [hline, hi], hlen.trans hplen⟩

/-- The turns behind one that left its scale in force. -/
theorem session_of_inForce {report : ScaleReport} (hf : InForce report) {turns : List ScaleTurn}
    {reports : List ScaleReport} (h : session report.script.lines turns = .ok reports) :
    ∀ later ∈ reports, InForce later ∧ later.script.placement = .replaced ∧
      later.script.directiveLine = report.script.directiveLine ∧
      later.script.lines.length = report.script.lines.length := by
  induction turns generalizing report reports with
  | nil =>
    obtain rfl := Except.ok.inj h
    intro later hl
    cases hl
  | cons turn turns ih =>
    obtain ⟨next, hnext, h⟩ := bind_eq_ok.mp h
    obtain ⟨rest, hrest, h⟩ := bind_eq_ok.mp h
    obtain rfl := pure_eq_ok.mp h
    obtain ⟨i, hi, hd⟩ := hf.directs
    obtain ⟨hnf, -⟩ := inForce_of_carryOut hf.unbroken hnext
    obtain ⟨hplace, hline, hlen⟩ := carryOut_of_directs hf.unbroken hd hnext
    intro later hl
    rcases List.mem_cons.mp hl with rfl | hl
    · exact ⟨hnf, hplace, by rw [hline, hi], hlen⟩
    · obtain ⟨h1, h2, h3, h4⟩ := ih hnf hrest later hl
      exact ⟨h1, h2, by rw [h3, hline, hi], h4.trans hlen⟩

/-- **The directive stays truthful through a session.**  After every turn the scale in force is the
number that was accepted in it; the first turn adds at most one line, and every later one replaces
the directive on the line where it is and adds none. -/
theorem directive_stays_truthful {lines : List Text} (hu : ∀ line ∈ lines, Unbroken line)
    {turns : List ScaleTurn} {reports : List ScaleReport}
    (h : session lines turns = .ok reports) :
    (∀ report ∈ reports, ∃ d, scaleInForce {} report.script.lines = .ok d ∧
        d.sameValue report.request.new = true) ∧
      ∀ first later, reports = first :: later →
        lines.length ≤ first.script.lines.length ∧
        first.script.lines.length ≤ lines.length + 1 ∧
        ∀ report ∈ later, report.script.placement = .replaced ∧
          report.script.directiveLine = first.script.directiveLine ∧
          report.script.lines.length = first.script.lines.length := by
  have htrue : ∀ {report : ScaleReport}, InForce report →
      ∃ d, scaleInForce {} report.script.lines = .ok d ∧
        d.sameValue report.request.new = true := by
    intro report hf
    obtain ⟨i, -, hd⟩ := hf.directs
    exact scaleInForce_of_directs hd hf.acceptable hf.unbroken
  cases turns with
  | nil =>
    obtain rfl := Except.ok.inj h
    constructor
    · intro report hr
      cases hr
    · intro first later he
      cases he
  | cons turn turns =>
    obtain ⟨first, hfirst, h⟩ := bind_eq_ok.mp h
    obtain ⟨rest, hrest, h⟩ := bind_eq_ok.mp h
    obtain rfl := pure_eq_ok.mp h
    obtain ⟨hf, hle, hge⟩ := inForce_of_carryOut hu hfirst
    have hlater := session_of_inForce hf hrest
    constructor
    · intro report hr
      rcases List.mem_cons.mp hr with rfl | hr
      · exact htrue hf
      · exact htrue (hlater report hr).1
    · intro first' later he
      obtain ⟨rfl, rfl⟩ := List.cons.inj he
      exact ⟨hle, hge, fun report hr => (hlater report hr).2⟩

/-- A session of two turns on a script whose only directive is commented out: the first turn takes
the place of the blank line, the second finds what the first has written. -/
theorem directive_stays_truthful_small :
    let lines : List Text := ["// $scale 4".toList, [], "$modelname \"a/b.mdl\"".toList]
    ∃ first second, session lines [⟨"2,50".toList, true⟩, ⟨"-3".toList, false⟩] =
        .ok [first, second] ∧
      (∃ d, scaleInForce {} second.script.lines = .ok d ∧
        d.sameValue second.request.new = true) ∧
      second.script.placement = .replaced ∧
      second.script.directiveLine = first.script.directiveLine := by
  intro lines
  have hrun : ((session lines [⟨"2,50".toList, true⟩, ⟨"-3".toList, false⟩]).toOption.map
      List.length) = some 2 := by
    decide +kernel
  obtain ⟨reports, hr, hlen⟩ := Option.map_eq_some_iff.mp hrun
  obtain ⟨first, second, rfl⟩ := List.length_eq_two.mp hlen
  have hr := toOption_eq_some.mp hr
  obtain ⟨htrue, hplace⟩ := directive_stays_truthful (by decide) hr
  obtain ⟨-, -, hlater⟩ := hplace first [second] rfl
  obtain ⟨h1, h2, -⟩ := hlater second (by simp)
  exact ⟨first, second, hr, htrue second (by simp), h1, h2⟩

end ScaleTurn

end ModelScale
