import ModelScale.Proofs.Command.Arguments
import ModelScale.Proofs.Command.Run
import ModelScale.Proofs.Qc.Loosened
import ModelScale.Proofs.Vrd.Loosened

/-
# Histories of calls

The previous scale of a rescale is in the model script, and the baseline of the procedural bones is
in another file.  Only the first call of a history needs both; from then on the scale that the model
script gives and the coordinates of the procedural bones have to belong together, or a later call
scales one and not the other.  Main statements:

* `Course.Leads.model_after`, `Course.Leads.bones_after`: the two files after a call;
* `InStep.of_leads`, `InStep.step`: the two files are in step after a first call, and stay in step;
* `Call.scripts_stay_in_step`: a whole history.
-/

namespace ModelScale

open Text

/-! ## 1. The files after a call -/

section After

variable {c : Course} {script bones : Path} {answer : Text} {d d' : Disk}

theorem Course.Leads.acceptable (h : c.Leads script bones answer d d') :
    c.request.previous = c.previous ∧ Acceptable c.request.new :=
  ⟨(acceptScale_eq_ok h.request_eq).1, (acceptScale_eq_ok h.request_eq).2.1⟩

/-- The procedural bones are what they were when the model script has been written. -/
theorem Course.Leads.bones_between (h : c.Leads script bones answer d d')
    (hne : d.target? script ≠ d.target? bones) : c.between.document? bones = some c.bones := by
  rw [Disk.document?_of_save_of_ne h.model_eq h.between_eq hne.symm]
  exact h.bones_eq

/-- A call moves no path. -/
theorem Course.Leads.sameTree (h : c.Leads script bones answer d d')
    (hne : d.target? script ≠ d.target? bones) : d.SameTree c.between ∧ c.between.SameTree d' := by
  refine ⟨Disk.sameTree_of_save h.model_eq h.between_eq, ?_⟩
  rcases h.resaved with ⟨-, rfl⟩ | ⟨-, hw⟩
  · exact Disk.SameTree.refl _
  · exact Disk.sameTree_of_save (h.bones_between hne) hw

/-- **The model script after a call** gives the scale that was accepted. -/
theorem Course.Leads.model_after (h : c.Leads script bones answer d d')
    (hne : d.target? script ≠ d.target? bones) :
    ∃ e s, d'.document? script = some e ∧ scaleInForce {} e.lines = .ok s ∧
      s.sameValue c.request.new = true := by
  obtain ⟨e, he, s, hs, hsame⟩ := exists_document_of_rescaleScript
    (Disk.sound_of_document? h.model_eq) h.acceptable.2 h.script_eq
  have hmodel := Disk.document?_of_save h.model_eq h.between_eq he
  refine ⟨e, s, ?_, hs, hsame⟩
  rcases h.resaved with ⟨-, rfl⟩ | ⟨-, hw⟩
  · exact hmodel
  · -- the procedural bones are in another file
    have htarget := (h.sameTree hne).1.target?_eq
    rw [Disk.document?_of_save_of_ne (h.bones_between hne) hw
      (by rw [htarget, htarget]; exact hne)]
    exact hmodel

/-- **The procedural bones after a call**: they were written if a line changed. -/
theorem Course.Leads.bones_after (h : c.Leads script bones answer d d')
    (hne : d.target? script ≠ d.target? bones) :
    ∃ e, d'.document? bones = some e ∧ Reread c.helpers.lines e.lines := by
  have hbones := h.bones_between hne
  rcases h.resaved with ⟨hsame, rfl⟩ | ⟨hchanged, hw⟩
  · refine ⟨c.bones, hbones, ?_⟩
    rw [hsame]
    exact Reread.refl _
  · obtain ⟨e, he, hr⟩ := exists_document_of_rescaleBones (Disk.sound_of_document? hbones)
      h.helpers_eq hchanged
    exact ⟨e, Disk.document?_of_save hbones hw he, hr⟩

end After

/-! ## 2. Two files in step -/

/-- The model script gives a scale, and the procedural bones are what one rescale of `lines` to this
scale leaves, from a previous scale. -/
structure InStep (script bones : Path) (lines : List Text) (previous new : Decimal) (d : Disk) :
    Prop where
  apart : d.target? script ≠ d.target? bones
  model : ∃ e s, d.document? script = some e ∧ scaleInForce {} e.lines = .ok s ∧
    s.sameValue new = true
  helpers : ∃ e r, d.document? bones = some e ∧ rescaleBones {} lines new previous = .ok r ∧
    Reread r.lines e.lines

section Steps

variable {c : Course} {script bones : Path} {answer : Text} {d d' : Disk}

theorem Course.Leads.apart_after (h : c.Leads script bones answer d d')
    (hne : d.target? script ≠ d.target? bones) : d'.target? script ≠ d'.target? bones := by
  have htarget := ((h.sameTree hne).1.trans (h.sameTree hne).2).target?_eq
  rw [htarget, htarget]
  exact hne

/-- **After a first call the two files are in step.** -/
theorem InStep.of_leads (h : c.Leads script bones answer d d')
    (hne : d.target? script ≠ d.target? bones) :
    InStep script bones c.bones.lines c.previous c.request.new d' := by
  obtain ⟨e, he, hr⟩ := h.bones_after hne
  refine ⟨h.apart_after hne, h.model_after hne, e, c.helpers, he, ?_, hr⟩
  rw [← h.acceptable.1]
  exact h.helpers_eq

/-- **A later call keeps them in step**, with the previous scale that the first one had. -/
theorem InStep.step {lines : List Text} (hl : ∀ line ∈ lines, Intact line)
    {previous scale : Decimal} (hi : InStep script bones lines previous scale d)
    (h : c.Leads script bones answer d d') :
    InStep script bones lines previous c.request.new d' := by
  obtain ⟨e, r, he, hr, hreread⟩ := hi.helpers
  rw [h.bones_eq] at he
  obtain rfl := Option.some.inj he
  obtain ⟨t, ht, hlater⟩ := hreread.rescale_again hl hr h.helpers_eq
  obtain ⟨e', he', hr'⟩ := h.bones_after hi.apart
  exact ⟨h.apart_after hi.apart, h.model_after hi.apart, e', t, he', ht, hlater hr'⟩

end Steps

/-! ## 3. Calls -/

namespace Call

variable {script bones : Text}

/-- What comes of a call, and the disk after it. -/
def perform (script bones : Text) (call : Call) (disk : Disk) : Except OutputFault Nat × Disk :=
  match Invocation.read (call.words script bones) with
  | .ok (.rescale options) =>
    let result := runCommand options { disk, input := call.input, output := call.output }
    (result.1, result.2.disk)
  | .ok .help => (.ok 0, disk)
  | .error _ => (.ok 2, disk)

/-- The disk after some calls, each on what the one before it left, if all of them succeed. -/
def history (script bones : Text) : List Call → Disk → Option Disk
  | [], disk => some disk
  | call :: calls, disk =>
    match call.perform script bones disk with
    | (.ok 0, next) => history script bones calls next
    | _ => none

/-- The two words name these two paths on a disk. -/
structure Named (script bones : Text) (p q : Path) (d : Disk) : Prop where
  script_eq : d.argument? script = some p
  bones_eq : d.argument? bones = some q

/-- **A call that succeeds** has a course. -/
theorem perform_eq_zero {call : Call} {d d' : Disk} (hs : Word.read script = .ok .operand)
    (h : call.perform script bones d = (.ok 0, d')) :
    ∃ (c : Course) (p q : Path), Named script bones p q d ∧ c.Leads p q call.scale d d' := by
  unfold perform at h
  split at h
  · rename_i options ho
    obtain rfl := Invocation.rescale.inj (read_words hs ho)
    obtain ⟨hcode, rfl⟩ := Prod.mk.inj h
    obtain ⟨c, p, q, hp, hq, hc⟩ :=
      Dialogue.rescale_eq_ok rfl rfl rfl rfl (run_of_runCommand (Prod.ext hcode rfl))
    exact ⟨c, p, q, ⟨hp, hq⟩, hc⟩
  · rename_i ho
    cases read_words hs ho
  · cases h

theorem history_concat {calls : List Call} {last : Call} {d d' : Disk}
    (h : history script bones (calls ++ [last]) d = some d') :
    ∃ between, history script bones calls d = some between ∧
      last.perform script bones between = (.ok 0, d') := by
  induction calls generalizing d with
  | nil =>
    rw [List.nil_append, history] at h
    split at h
    · rename_i next hp
      obtain rfl := Option.some.inj h
      exact ⟨d, rfl, hp⟩
    · cases h
  | cons call calls ih =>
    rw [List.cons_append, history] at h
    split at h
    · rename_i next hp
      obtain ⟨between, hb, hlast⟩ := ih h
      refine ⟨between, ?_, hlast⟩
      rw [history, hp]
      exact hb
    · cases h

/-- **After any history that is not empty the two files are in step**, with the scale that the last
call asked for. -/
theorem inStep_of_history {calls : List Call} {last : Call} {d d' : Disk}
    (hs : Word.read script = .ok .operand) (hne : d.fileOf? script ≠ d.fileOf? bones)
    (h : history script bones (calls ++ [last]) d = some d') :
    ∃ p q model helpers previous new, Named script bones p q d ∧ Named script bones p q d' ∧
      d.document? p = some model ∧ d.document? q = some helpers ∧
      scaleInForce {} model.lines = .ok previous ∧
      Decimal.read ((trim last.scale).map fun c => if c = ',' then '.' else c) = .ok new ∧
      InStep p q helpers.lines previous new d' := by
  have hmoves : ∀ {c : Course} {p q : Path} {answer : Text} {e e' : Disk},
      Named script bones p q e → c.Leads p q answer e e' → e.target? p ≠ e.target? q →
      Named script bones p q e' := by
    intro c p q answer e e' hn hc happart
    have hmoved := ((hc.sameTree happart).1.trans (hc.sameTree happart).2).argument?_eq
    exact ⟨(hmoved script).trans hn.script_eq, (hmoved bones).trans hn.bones_eq⟩
  induction calls using List.reverseRecOn generalizing last d' with
  | nil =>
    obtain ⟨between, hb, hlast⟩ := history_concat h
    obtain rfl := Option.some.inj hb
    obtain ⟨c, p, q, hn, hc⟩ := perform_eq_zero hs hlast
    have happart : d.target? p ≠ d.target? q := by
      simpa [Disk.fileOf?, hn.script_eq, hn.bones_eq] using hne
    exact ⟨p, q, c.model, c.bones, c.previous, c.request.new, hn, hmoves hn hc happart,
      hc.model_eq, hc.bones_eq, hc.previous_eq, (acceptScale_eq_ok hc.request_eq).2.2,
      InStep.of_leads hc happart⟩
  | append_singleton calls call ih =>
    obtain ⟨between, hb, hlast⟩ := history_concat h
    obtain ⟨p, q, model, helpers, previous, new, hn, hnb, hm, hh, hp, -, hi⟩ := ih hb
    obtain ⟨c, p', q', hn', hc⟩ := perform_eq_zero hs hlast
    obtain rfl := Option.some.inj (hnb.script_eq.symm.trans hn'.script_eq)
    obtain rfl := Option.some.inj (hnb.bones_eq.symm.trans hn'.bones_eq)
    exact ⟨p, q, model, helpers, previous, c.request.new, hn, hmoves hnb hc hi.apart, hm, hh, hp,
      (acceptScale_eq_ok hc.request_eq).2.2, hi.step (Disk.sound_of_document? hh).intact hc⟩

/-- **The two files stay in step through every history.**  The scale that the model script gives at
the end is the number that the last call asked for, and every line of the procedural bones holds the
coordinates that a single rescale of the first procedural bones gives it: from the scale of the
first model script to the scale of the last one. -/
theorem scripts_stay_in_step {calls : List Call} {last : Call} {first final : Disk}
    (hs : Word.read script = .ok .operand) (hne : first.fileOf? script ≠ first.fileOf? bones)
    (h : history script bones (calls ++ [last]) first = some final) :
    ∃ model model' helpers helpers' previous scale new r,
      first.documentOf? script = some model ∧
      final.documentOf? script = some model' ∧
      first.documentOf? bones = some helpers ∧
      final.documentOf? bones = some helpers' ∧
      scaleInForce {} model.lines = .ok previous ∧
      scaleInForce {} model'.lines = .ok scale ∧
      Decimal.read ((trim last.scale).map fun c => if c = ',' then '.' else c) = .ok new ∧
      scale.sameValue new = true ∧
      rescaleBones {} helpers.lines scale previous = .ok r ∧
      ∀ i, siteAt helpers'.lines i = siteAt r.lines i := by
  obtain ⟨p, q, model, helpers, previous, new, hn, hn', hm, hh, hp, hnew, hi⟩ :=
    inStep_of_history hs hne h
  obtain ⟨model', scale, hm', hscale, hsame⟩ := hi.model
  obtain ⟨helpers', t, hh', ht, hreread⟩ := hi.helpers
  have hsame' : new.sameValue scale = true :=
    Decimal.sameValue_iff.mpr (Decimal.sameValue_iff.mp hsame).symm
  obtain ⟨r, hr, hrt⟩ := rescaleBones_of_sameValue hsame' ht
  have ht' := intact_of_rescaleBones (Disk.sound_of_document? hh).intact ht
  refine ⟨model, model', helpers, helpers', previous, scale, new, r, ?_, ?_, ?_, ?_, hp, hscale,
    hnew, hsame, hr, ?_⟩
  · rw [Disk.documentOf?, hn.script_eq, Option.bind_some, hm]
  · rw [Disk.documentOf?, hn'.script_eq, Option.bind_some, hm']
  · rw [Disk.documentOf?, hn.bones_eq, Option.bind_some, hh]
  · rw [Disk.documentOf?, hn'.bones_eq, Option.bind_some, hh']
  · intro i
    rw [hrt]
    exact congrFun (siteAt_of_loosened hreread.loosened fun l hl => (ht' l hl).unbroken) i

/-- Two calls on a model script of scale 2; its procedural bones have newlines of the longer kind
and none at the end.  The one is named by its path from the root, the other one is in the home
directory of the user, and the run is in neither of these places. -/
theorem scripts_stay_in_step_small :
    let disk : Disk := { nodes := Roster.ofList [(["m".toList], .directory),
                           (["m".toList, "a.qc".toList], .file (encode "$scale 2\n".toList)),
                           (["u".toList], .directory), (["u".toList, "b.vrd".toList],
                             .file (encode "<helper> h\r\n<basepos> 1 2 -3.50".toList))]
                         workingDirectory := ["w".toList]
                         homes := Roster.ofList [([], "/u/".toList)] }
    let script := "/m/a.qc".toList
    let bones := "~/b.vrd".toList
    ∃ final model' helpers helpers' previous scale r,
      history script bones
        [{ scale := "4".toList }, { scale := "0,5".toList, keepName := true }] disk = some final ∧
      disk.documentOf? bones = some helpers ∧ final.documentOf? script = some model' ∧
      final.documentOf? bones = some helpers' ∧ scaleInForce {} model'.lines = .ok scale ∧
      rescaleBones {} helpers.lines scale (Quantity.exact previous) = .ok r ∧
      ∀ i, siteAt helpers'.lines i = siteAt r.lines i := by
  intro disk script bones
  have hrun : (history script bones
      [{ scale := "4".toList }, { scale := "0,5".toList, keepName := true }] disk).isSome := by
    decide +kernel
  obtain ⟨final, hfinal⟩ := Option.isSome_iff_exists.mp hrun
  obtain ⟨-, model', helpers, helpers', previous, scale, -, r, -, hm, hh, hh', -, hs, -, -, hr,
      hi⟩ :=
    @scripts_stay_in_step _ _ [{ scale := "4".toList }] _ _ _ rfl (by decide +kernel) hfinal
  exact ⟨final, model', helpers, helpers', previous, scale, r, hfinal, hh, hm, hh', hs, hr, hi⟩

end Call

end ModelScale
