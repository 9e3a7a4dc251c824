import ModelScale.Proofs.Command.Arguments
import ModelScale.Proofs.Command.Failed
import ModelScale.Proofs.Decimal.Error
import ModelScale.Proofs.Qc.Loosened

/-
# Commands that are repeated

A run leaves a model script that gives the scale it was asked for.  So the same command finds, when
it is given again, that there is nothing to change, and it finds this out before it looks for
procedural bones and long before it writes.  Main statements:

* `acceptScale_of_sameValue`: the number in force is not accepted as a new scale;
* `Dialogue.rescale_eq_ok_of_given`: what a run leaves, with or without procedural bones;
* `Dialogue.rescale_refuses`: a run for the scale in force, as far as it comes;
* `repeated_command_is_refused`: a command that succeeded, given again.

What the second run says may be refused by its output.  That is a failure of its own, but it changes
neither the exit code nor a file.
-/

namespace ModelScale

open Text

/-! ## 1. The number in force -/

/-- **The number in force is refused**, if it would be accepted from another one. -/
theorem acceptScale_of_sameValue {answer : Text} {other previous : Decimal} {request : Request}
    (h : acceptScale {} answer other = .ok request)
    (hsame : previous.sameValue request.new = true) :
    acceptScale {} answer previous = .error (.refused (.unchanged previous)) := by
  obtain ⟨-, ⟨-, size, hsize, hlt⟩, hread⟩ := acceptScale_eq_ok h
  obtain ⟨change, hchange, hzero⟩ :=
    @Context.sub_of_toRat_eq .standard _ _ (Decimal.sameValue_iff.mp hsame).symm
  have hmagnitude : change.magnitude.toRat = 0 := by
    rw [Decimal.toRat_magnitude, ← Decimal.abs_toRat, hzero, abs_zero]
  obtain ⟨least, hleast, hleast0⟩ := @Context.finish_of_toRat_eq_zero .standard _ hmagnitude
  have hsmall : least.isLess ({} : Settings).zeroBoundary = true := by
    rw [Decimal.isLess_iff, hleast0]
    norm_num [Decimal.toRat, Decimal.size]
  have hleast : Context.standard.abs change = .ok least := hleast
  unfold acceptScale
  simp only [hread, hsize, hlt, hchange, hleast, hsmall, Except.mapError, Except.bind, bind]
  rfl

/-! ## 2. Where the procedural bones are -/

/-- The path of the procedural bones that a run on this disk rescales, if it rescales any. -/
def Disk.bonesPath? (d : Disk) (options : Options) (script : Path) (lines : List Text) :
    Option Path :=
  if options.skipBones then none
  else
    match options.bones with
    | some name => d.argument? name
    | none => (Reference.proceduralBones? lines).bind fun reference =>
      let path := Dialogue.referred script reference
      if d.isFile path = .ok true then some path else none

namespace Dialogue

theorem bonesPath?_of_run {options : Options} {script : Path} {lines : List Text} {s t : Session}
    {path? : Option Path} (h : (findBones options script lines).run s = (.ok path?, t)) :
    s.disk.bonesPath? options script lines = path? := by
  cases hskip : options.skipBones with
  | true =>
    rw [findBones, hskip, if_pos rfl] at h
    obtain ⟨rfl, -⟩ := run_pure_eq_ok.mp h
    rw [Disk.bonesPath?, hskip, if_pos rfl]
  | false =>
    cases hbones : options.bones with
    | some name =>
      obtain ⟨path, hpath, rfl, -⟩ := run_findBones_eq_ok hbones hskip h
      rw [Disk.bonesPath?, hskip, if_neg Bool.false_ne_true, hbones]
      exact hpath
    | none =>
      rw [findBones, hskip, if_neg Bool.false_ne_true, hbones] at h
      rw [Disk.bonesPath?, hskip, if_neg Bool.false_ne_true, hbones]
      dsimp only at h ⊢
      have hsay : ∀ {m : Message}, (say m (done none) : Dialogue (Option Path)).run s =
          (.ok path?, t) → path? = none := by
        intro m h
        rw [run] at h
        split at h
        · exact (run_pure_eq_ok.mp h).1.symm
        · cases h
      cases hr : Reference.proceduralBones? lines with
      | none =>
        rw [hr] at h
        exact (hsay h).symm
      | some reference =>
        rw [hr] at h
        obtain ⟨found, u, hfound, h⟩ := run_bind_eq_ok.mp h
        obtain ⟨hfile, rfl⟩ := run_findsFile_eq_ok.mp hfound
        rw [Option.bind_some, hfile]
        cases found with
        | true => exact (run_pure_eq_ok.mp h).1
        | false => exact (hsay h).symm

/-! ## 3. The first run -/

/-- **What a run with a script and a scale leaves**: the model script is written, and then perhaps
the procedural bones are. -/
theorem rescale_eq_ok_of_given {options : Options} {script answer : Text}
    (hs : options.script = some script) (ha : options.scale = some answer) {s u : Session}
    (h : (rescale options).run s = (.ok (), u)) :
    ∃ (p : Path) (model : Document) (previous : Decimal) (request : Request) (rename : Bool)
      (result : RescaledScript) (between : Disk),
      s.disk.argument? script = some p ∧ s.disk.isFile p = .ok true ∧
      s.disk.document? p = some model ∧
      acceptScale {} answer previous = .ok request ∧
      rescaleScript {} model.lines request rename = .ok result ∧
      s.disk.save? p (model.withLines result.lines).toBytes = some between ∧
      (u.disk = between ∨ ∃ path bones content,
        s.disk.bonesPath? options p model.lines = some path ∧
        s.disk.document? path = some bones ∧ between.save? path content = some u.disk) := by
  unfold rescale at h
  obtain ⟨path, _, hpath, h⟩ := run_bind_eq_ok.mp h
  obtain ⟨hp, hfile, rfl⟩ := run_chooseScript_eq_ok hs hpath
  obtain ⟨model, _, hmodel, h⟩ := run_bind_eq_ok.mp h
  obtain ⟨hmodel', rfl⟩ := run_openDocument_eq_ok.mp hmodel
  obtain ⟨_, s1, hflex, h⟩ := run_bind_eq_ok.mp h
  have h1 := (harmless_checkFlexes _ _).told hflex
  obtain ⟨previous, _, hprevious, h⟩ := run_bind_eq_ok.mp h
  obtain ⟨-, rfl⟩ := run_ofExcept_eq_ok.mp hprevious
  obtain ⟨request, _, hrequest, h⟩ := run_bind_eq_ok.mp h
  obtain ⟨hrequest', rfl⟩ := run_requestScale_eq_ok ha hrequest
  obtain ⟨_, s2, hsay, h⟩ := run_bind_eq_ok.mp h
  have h2 := (harmless_announce _ _ _).told hsay
  obtain ⟨rename, s3, hrename, h⟩ := run_bind_eq_ok.mp h
  have h3 := (harmless_decideRename _ _).told hrename
  have hkept : s3.disk = s.disk := ((h1.trans h2).trans h3).disk_eq
  obtain ⟨path?, s4, hfind, h⟩ := run_bind_eq_ok.mp h
  have h4 := ((harmless_findBones _ _ _).told hfind).disk_eq
  have hpath? := bonesPath?_of_run hfind
  obtain ⟨opened, s5, hopen, h⟩ := run_bind_eq_ok.mp h
  have h5 := ((harmless_openBones _).told hopen).disk_eq
  obtain ⟨_, s6, hwrite, hbones⟩ := run_bind_eq_ok.mp h
  obtain ⟨result, hresult, hbetween⟩ := run_rescaleModel_eq_ok hwrite
  rw [h5, h4, hkept] at hbetween
  rw [hkept] at hpath?
  refine ⟨path, model, previous, request, rename, result, s6.disk, hp, hfile, hmodel', hrequest',
    hresult, hbetween, ?_⟩
  cases path? with
  | none =>
    obtain ⟨rfl, rfl⟩ := run_pure_eq_ok.mp hopen
    obtain ⟨-, rfl⟩ := run_pure_eq_ok.mp hbones
    exact Or.inl rfl
  | some path =>
    obtain ⟨bones, rfl, hread, rfl⟩ := run_openBones_eq_ok hopen
    rw [h4, hkept] at hread
    obtain ⟨r, -, ⟨-, hdisk⟩ | ⟨-, hw⟩⟩ := run_rescaleOpened_eq_ok hbones
    · exact Or.inl hdisk
    · exact Or.inr ⟨path, bones, _, hpath?, hread, hw⟩

/-- **The model script after a run** gives the number that the run was asked for. -/
theorem inForce_of_rescale {options : Options} {script answer : Text}
    (hs : options.script = some script) (ha : options.scale = some answer) {s u : Session}
    (h : (rescale options).run s = (.ok (), u))
    (hne : ∀ p model path, s.disk.argument? script = some p → s.disk.document? p = some model →
      s.disk.bonesPath? options p model.lines = some path →
      s.disk.target? path ≠ s.disk.target? p) :
    ∃ (p : Path) (model : Document) (previous other : Decimal) (request : Request),
      u.disk.argument? script = some p ∧ u.disk.isFile p = .ok true ∧
      u.disk.document? p = some model ∧
      scaleInForce {} model.lines = .ok previous ∧
      acceptScale {} answer other = .ok request ∧ previous.sameValue request.new = true := by
  obtain ⟨p, model, other, request, rename, result, between, hp, hfile, hmodel, haccept, hresult,
    hbetween, hdisk⟩ := rescale_eq_ok_of_given hs ha h
  obtain ⟨e, he, previous, hprevious, hsame⟩ := exists_document_of_rescaleScript
    (Disk.sound_of_document? hmodel) (acceptScale_eq_ok haccept).2.1 hresult
  have hafter := Disk.document?_of_save hmodel hbetween he
  have htree := Disk.sameTree_of_save hmodel hbetween
  have hall : s.disk.SameTree u.disk ∧ u.disk.document? p = some e := by
    rcases hdisk with hu | ⟨path, bones, content, hpath, hbones, hw⟩
    · rw [hu]
      exact ⟨htree, hafter⟩
    · -- the procedural bones are in another file, and still there
      have happart := hne p model path hp hmodel hpath
      have hbones' : between.document? path = some bones := by
        rw [Disk.document?_of_save_of_ne hmodel hbetween happart]
        exact hbones
      refine ⟨htree.trans (Disk.sameTree_of_save hbones' hw), ?_⟩
      rw [Disk.document?_of_save_of_ne hbones' hw
        (by rw [htree.target?_eq, htree.target?_eq]; exact happart.symm)]
      exact hafter
  exact ⟨p, e, previous, other, request, (hall.1.argument?_eq script).trans hp,
    (hall.1.isFile_eq p).trans hfile, hall.2, hprevious, haccept, hsame⟩

/-! ## 4. The second run -/

/-- What a run says about the flex animations of a model script. -/
def flexWarning (lines : List Text) : List Message :=
  match Reference.flexes lines with
  | [] => []
  | references => Summary.flexes references

/-- With every confirmation given, there is only the warning. -/
theorem run_checkFlexes_of_assumeYes {options : Options} (hyes : options.assumeYes = true)
    (lines : List Text) (s : Session) :
    (checkFlexes options lines).run s = (sayAll (flexWarning lines)).run s := by
  unfold checkFlexes flexWarning
  cases Reference.flexes lines with
  | nil => rfl
  | cons reference references =>
    dsimp only
    cases hsay : (sayAll (Summary.flexes (reference :: references))).run s with
    | mk r t =>
      cases r with
      | error e => rw [run_bind_of_error hsay]
      | ok u =>
        rw [run_bind_of_ok hsay, confirm, if_pos hyes]
        rfl

/-- **A run for the number in force** warns and is refused. -/
theorem rescale_refuses {options : Options} {script answer : Text}
    (hs : options.script = some script) (ha : options.scale = some answer)
    (hyes : options.assumeYes = true) {p : Path} {model : Document} {previous other : Decimal}
    {request : Request} {s : Session} (hpath : s.disk.argument? script = some p)
    (hfile : s.disk.isFile p = .ok true) (hm : s.disk.document? p = some model)
    (hp : scaleInForce {} model.lines = .ok previous)
    (hr : acceptScale {} answer other = .ok request)
    (hsame : previous.sameValue request.new = true) :
    (rescale options).run s =
      match s.sayAll (flexWarning model.lines) with
      | (none, t) => (.error (.refused (.unchanged previous)), t)
      | (some fault, t) => (.error (.unsaid fault), t) := by
  have hchoose : (chooseScript options).run s = (.ok p, s) := by
    unfold chooseScript
    rw [hs]
    dsimp only
    rw [run_bind_of_ok (run_expanded_eq_ok.mpr ⟨hpath, rfl⟩),
      run_bind_of_ok (run_findsFile_eq_ok.mpr ⟨hfile, rfl⟩)]
    rfl
  have hanswer : answer ≠ endOfOptions := by
    rintro rfl
    have hread := (acceptScale_eq_ok hr).2.2
    have hnone : (Decimal.read ((trim endOfOptions).map
        fun c => if c = ',' then '.' else c)).toOption.isSome = false := by decide
    rw [hread] at hnone
    cases hnone
  have hrequest : ∀ t, (requestScale {} options previous).run t =
      (.error (.refused (.unchanged previous)), t) := by
    intro t
    unfold requestScale
    rw [ha]
    dsimp only
    rw [if_neg hanswer, acceptScale_of_sameValue hr hsame]
    rfl
  have hflexes := run_checkFlexes_of_assumeYes hyes model.lines s
  rw [run_sayAll] at hflexes
  unfold rescale
  dsimp only
  rw [run_bind_of_ok hchoose, run_bind_of_ok (run_openDocument_eq_ok.mpr ⟨hm, rfl⟩)]
  cases hsay : s.sayAll (flexWarning model.lines) with
  | mk fault? t =>
    rw [hsay] at hflexes
    cases fault? with
    | some fault => rw [run_bind_of_error hflexes]
    | none =>
      have hprevious : (ofFault (scaleInForce {} model.lines)).run t = (.ok previous, t) :=
        run_ofExcept_eq_ok.mpr ⟨hp, rfl⟩
      rw [run_bind_of_ok hflexes, run_bind_of_ok hprevious, run_bind_of_error (hrequest t)]

end Dialogue

/-! ## 5. The command, given again -/

theorem Session.sayAll_append (s : Session) (messages messages' : List Message) :
    s.sayAll (messages ++ messages') =
      match s.sayAll messages with
      | (none, t) => t.sayAll messages'
      | (some fault, t) => (some fault, t) := by
  induction messages generalizing s with
  | nil => rfl
  | cons m messages ih =>
    rw [List.cons_append, sayAll, sayAll]
    cases s.say m with
    | mk fault? t =>
      cases fault? with
      | none => exact ih t
      | some fault => rfl

/-- The report on a failure leaves the disk alone, and the exit code is that of the failure. -/
theorem runCommand_of_error {options : Options} {s t : Session} {e : Failure}
    (h : (Dialogue.rescale options).run s = (.error e, t)) :
    (runCommand options s).2.disk = t.disk ∧
      ∀ code v, runCommand options s = (.ok code, v) → code = e.exitCode := by
  rw [runCommand, h]
  dsimp only
  split
  · rename_i u hu
    refine ⟨(Session.told_of_sayAll hu).disk_eq, fun code v hc => ?_⟩
    exact (Except.ok.inj (Prod.mk.inj hc).1).symm
  · rename_i fault u hu
    refine ⟨(Session.told_of_sayAll hu).disk_eq, fun code v hc => ?_⟩
    cases hc

open Dialogue in
/-- **A command that succeeded is refused when it is given again**, whatever it was that it had to
scale.  It leaves every file as the first run did, and if it has an exit code, that is 1.  The scale
is already the one that it asks for, and it says so, on an output that takes what it says. -/
theorem repeated_command_is_refused {script scale : Text} {flags : List Text}
    {options : Options} {s t u : Session} (hs : Word.read script = .ok .operand)
    (hw : Invocation.read (settledWords script scale flags) = .ok (.rescale options))
    (h : runCommand options s = (.ok 0, t))
    (hne : ∀ p model path, s.disk.argument? script = some p → s.disk.document? p = some model →
      s.disk.bonesPath? options p model.lines = some path →
      s.disk.target? path ≠ s.disk.target? p)
    (hu : u.disk = t.disk) :
    (runCommand options u).2.disk = t.disk ∧
      (∀ code v, runCommand options u = (.ok code, v) → code = 1) ∧
      ∃ model previous, t.disk.documentOf? script = some model ∧
        scaleInForce {} model.lines = .ok previous ∧
        ∀ v, u.sayAll (flexWarning model.lines ++
            [.error (Refusal.unchanged previous).message]) = (none, v) →
          ((rescale options).run u).1 = .error (.refused (.unchanged previous)) ∧
            runCommand options u = (.ok 1, v) := by
  obtain ⟨hscript, hscale, hyes⟩ := Invocation.settled_of_read hs hw
  obtain ⟨answer, hanswer⟩ := Option.isSome_iff_exists.mp hscale
  obtain ⟨p, model, previous, other, request, hp, hfile, hmodel, hprevious, haccept, hsame⟩ :=
    inForce_of_rescale hscript hanswer (run_of_runCommand h) hne
  have hdocument : t.disk.documentOf? script = some model := by
    rw [Disk.documentOf?, hp, Option.bind_some, hmodel]
  rw [← hu] at hp hfile hmodel
  have hrun := rescale_refuses hscript hanswer hyes hp hfile hmodel hprevious haccept hsame
  cases hsay : u.sayAll (flexWarning model.lines) with
  | mk fault? w =>
    have hw : w.disk = t.disk := (Session.told_of_sayAll hsay).disk_eq.trans hu
    rw [hsay] at hrun
    cases fault? with
    | some fault =>
      -- the warning is refused, and that is a failure with the same exit code
      obtain ⟨hdisk, hcode⟩ := runCommand_of_error hrun
      refine ⟨hdisk.trans hw, hcode, model, previous, hdocument, hprevious, fun v hv => ?_⟩
      rw [Session.sayAll_append, hsay] at hv
      cases hv
    | none =>
      obtain ⟨hdisk, hcode⟩ := runCommand_of_error hrun
      refine ⟨hdisk.trans hw, hcode, model, previous, hdocument, hprevious, fun v hv => ?_⟩
      rw [Session.sayAll_append, hsay] at hv
      have hreport : w.sayAll (Failure.refused (.unchanged previous)).report = (none, v) := hv
      refine ⟨by rw [hrun], ?_⟩
      rw [runCommand, hrun]
      dsimp only
      rw [hreport]
      rfl

/-- A command with its scale written otherwise than the model script gives it back, and with
procedural bones in another file, which is named from the directory above. -/
theorem repeated_command_is_refused_small :
    let disk : Disk := (Disk.put { nodes := ∅, workingDirectory := ["w".toList] }
        ["w".toList, "a.qc".toList] (.file (encode "$scale 2\n".toList))).put
      ["b.vrd".toList] (.file (encode "<helper> h\r\n<basepos> 1 2 -3.50".toList))
    ∃ options t v,
      Invocation.read (settledWords "/w/a.qc".toList "0,50".toList
        ["--vrd".toList, "../b.vrd".toList, "-n".toList]) = .ok (.rescale options) ∧
      runCommand options { disk } = (.ok 0, t) ∧
      runCommand options { disk := t.disk } = (.ok 1, v) ∧ v.disk = t.disk := by
  intro disk
  let options : Options := { script := some "/w/a.qc".toList, scale := some "0,50".toList,
                             bones := some "../b.vrd".toList, assumeYes := true,
                             colourless := true }
  have hw : Invocation.read (settledWords "/w/a.qc".toList "0,50".toList
      ["--vrd".toList, "../b.vrd".toList, "-n".toList]) = .ok (.rescale options) := by
    rfl
  have hcode : (runCommand options { disk }).1.toOption = some 0 := by decide +kernel
  have hne : ∀ p model path, disk.argument? "/w/a.qc".toList = some p →
      disk.document? p = some model → disk.bonesPath? options p model.lines = some path →
      disk.target? path ≠ disk.target? p := by
    intro p model path hp _ hpath
    have hbones : disk.bonesPath? options p model.lines = disk.argument? "../b.vrd".toList := rfl
    rw [hbones] at hpath
    have happart : ∀ q ∈ disk.argument? "../b.vrd".toList, ∀ q' ∈ disk.argument? "/w/a.qc".toList,
        disk.target? q ≠ disk.target? q' := by
      decide +kernel
    exact happart path hpath p hp
  obtain ⟨hdisk, -, model, previous, -, -, hsaid⟩ :=
    @repeated_command_is_refused _ _ _ options { disk } _
      { disk := (runCommand options { disk }).2.disk } rfl hw
      (Prod.ext (toOption_eq_some.mp hcode) rfl) hne rfl
  have hopen : ∀ (messages : List Message) (s : Session), (∀ before x,
      s.output.refusal before x = none) → (s.sayAll messages).1 = none := by
    intro messages s hs
    cases h : s.sayAll messages with
    | mk fault? v =>
      cases fault? with
      | none => rfl
      | some fault =>
        obtain ⟨before, x, hr⟩ := Session.refuses_of_sayAll h
        rw [hs] at hr
        cases hr
  obtain ⟨-, hrun⟩ := hsaid _ (Prod.ext (hopen _ _ fun _ _ => rfl) rfl)
  refine ⟨options, _, _, hw, Prod.ext (toOption_eq_some.mp hcode) rfl, hrun, ?_⟩
  rw [hrun] at hdisk
  exact hdisk

end ModelScale
