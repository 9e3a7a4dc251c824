import ModelScale.Proofs.Decimal.Rounding
import ModelScale.Proofs.Document
import ModelScale.Proofs.Vrd.Padded
import ModelScale.Proofs.Vrd.Written

/-
# Scripts that were written and read again

A script that comes back from a file may have lost blanks at the end of its lines, and empty lines
at its own end.  The two scripts store the same baseline and have the same coordinates on every
line; and they stay alike when they are rescaled, since a line is written from the baseline and the
text around its coordinates.  Main statements:

* `stored_of_loosened`: what is stored;
* `siteAt_of_loosened`: what stands on each line;
* `rescaleBones_of_loosened`: what the same rescale makes of both.

The scale is only needed as a number, so a scale that is read back from another script will do
(`rescaleBones_of_sameValue`).  A script that is rescaled, read again and rescaled is therefore the
script that is rescaled once (`Reread.rescale_again`).
-/

namespace ModelScale

open Text Baseline

/-! ## 1. Sites -/

namespace Site

/-- The site with blanks at the end of its line. -/
def pad (b : Text) : Site → Site
  | rest owner line => rest owner (line.pad b)
  | offset owner ordinal line => offset owner ordinal (line.pad b)
  | site => site

/-- The site without the text around its coordinates. -/
def bare : Site → Site
  | rest owner line => rest owner ⟨[], line.values, []⟩
  | offset owner ordinal line => offset owner ordinal ⟨[], line.values, []⟩
  | site => site

@[simp] theorem bare_pad (b : Text) (s : Site) : (s.pad b).bare = s.bare := by
  cases s <;> rfl

end Site

theorem siteOf_pad (owner : Option Text) (earlier : List Text) (b : Text)
    (shape : Option VrdShape) :
    siteOf owner earlier (shape.map (VrdShape.pad b)) = (siteOf owner earlier shape).pad b := by
  rcases shape with _ | (_ | _ | _ | _ | _ | _) <;> rfl

theorem nextOwner_pad (owner : Option Text) (b : Text) (shape : Option VrdShape) :
    nextOwner owner (shape.map (VrdShape.pad b)) = nextOwner owner shape := by
  rcases shape with _ | (_ | _ | _ | _ | _ | _) <;> rfl

theorem nextEarlier_pad (owner : Option Text) (earlier : List Text) (b : Text)
    (shape : Option VrdShape) :
    nextEarlier owner earlier (shape.map (VrdShape.pad b)) = nextEarlier owner earlier shape := by
  rcases shape with _ | (_ | _ | _ | _ | _ | _) <;> rfl

/-- The sites of a script and of the script with blanks at the end of its lines. -/
theorem sitesFrom_padded {lines lines' : List Text} (h : List.Forall₂ Padded lines lines')
    (hu : ∀ line ∈ lines', Unbroken line) (g : Region) (owner : Option Text)
    (earlier : List Text) :
    List.Forall₂ (fun s s' => ∃ b, s' = Site.pad b s)
      (sitesFrom owner earlier (classifyAll g lines))
      (sitesFrom owner earlier (classifyAll g lines')) := by
  induction h generalizing g owner earlier with
  | nil => exact .nil
  | cons hp _ ih =>
    obtain ⟨hl, hrest⟩ := List.forall_mem_cons.mp hu
    obtain ⟨b, rfl, hb, -⟩ := hp
    rw [classifyAll_cons, classifyAll_cons, sitesFrom_cons, sitesFrom_cons,
      classify_append_blanks hb hl, nextOwner_pad, nextEarlier_pad]
    exact .cons ⟨b, siteOf_pad _ _ _ _⟩ (ih hrest _ _ _)

/-- What stands on a line of a script, by its number from zero: the helper, the number among its
offsets, and the coordinates as they are written. -/
def siteAt (lines : List Text) (i : Nat) : Site :=
  ((survey lines)[i]?.map Site.bare).getD .other

theorem siteAt_padded {lines lines' : List Text} (h : List.Forall₂ Padded lines lines')
    (hu : ∀ line ∈ lines', Unbroken line) : siteAt lines = siteAt lines' := by
  have hs : ∀ {s t : List Site}, List.Forall₂ (fun s s' => ∃ b, s' = Site.pad b s) s t →
      s.map Site.bare = t.map Site.bare := by
    intro s t h
    induction h with
    | nil => rfl
    | cons hb _ ih =>
      obtain ⟨b, rfl⟩ := hb
      rw [List.map_cons, List.map_cons, ih, Site.bare_pad]
  have he : (survey lines).map Site.bare = (survey lines').map Site.bare :=
    hs (sitesFrom_padded h hu .code none [])
  funext i
  rw [siteAt, siteAt, ← List.getElem?_map, ← List.getElem?_map, he]

/-- Empty lines behind a script are no sites. -/
theorem quiet_replicate (n : Nat) :
    ∀ line ∈ List.replicate n ([] : Text), ∀ g, VrdShape.Quiet (classify g line).1 := by
  intro line hl
  rw [List.eq_of_mem_replicate hl]
  exact quiet_nil

theorem siteAt_append_replicate (lines : List Text) (n : Nat) :
    siteAt (lines ++ List.replicate n []) = siteAt lines := by
  funext i
  rw [siteAt, siteAt, survey_append_quiet (quiet_replicate n)]
  rcases Nat.lt_or_ge i (survey lines).length with hi | hi
  · rw [List.getElem?_append_left hi]
  · rw [List.getElem?_append_right hi, List.getElem?_eq_none hi, List.getElem?_replicate]
    split <;> rfl

/-- **The same stands on every line.** -/
theorem siteAt_of_loosened {lines lines' : List Text} (h : Loosened lines lines')
    (hu : ∀ line ∈ lines', Unbroken line) : siteAt lines = siteAt lines' := by
  obtain ⟨n, hn⟩ := h
  rw [← siteAt_append_replicate lines n]
  exact siteAt_padded hn hu

/-! ## 2. Stored baselines -/

/-- A reader that does not mind blanks at the end of a line reads the same from both scripts. -/
theorem filterMap_of_loosened {α : Type} {read? : Text → Option α}
    (hr : ∀ {b : Text}, Blanks b → ∀ t, read? (t ++ b) = read? t) (hn : read? [] = none)
    {lines lines' : List Text} (h : Loosened lines lines') :
    lines.filterMap read? = lines'.filterMap read? := by
  obtain ⟨n, hp⟩ := h
  have hnil : (List.replicate n ([] : Text)).filterMap read? = [] := by
    rw [List.filterMap_eq_nil_iff]
    intro t ht
    rw [List.eq_of_mem_replicate ht, hn]
  have hall : ∀ {k l : List Text}, List.Forall₂ Padded k l →
      k.filterMap read? = l.filterMap read? := by
    intro k l h
    induction h with
    | nil => rfl
    | cons hab _ ih =>
      obtain ⟨b, rfl, hb, -⟩ := hab
      rw [List.filterMap_cons, List.filterMap_cons, hr hb, ih]
  rw [← hall hp, List.filterMap_append, hnil, List.append_nil]

theorem hasMarker_of_loosened {lines lines' : List Text} (h : Loosened lines lines') :
    hasMarker {} lines = hasMarker {} lines' := by
  let sentinel? (line : Text) : Option Unit := if isSentinel {} line then some () else none
  have hany : ∀ l : List Text, hasMarker {} l = (l.filterMap sentinel?).any fun _ => true := by
    intro l
    rw [hasMarker, List.any_filterMap]
    congr 1
    funext line
    dsimp only [sentinel?]
    cases isSentinel {} line <;> rfl
  have hpad : ∀ {b : Text}, Blanks b → ∀ t, sentinel? (t ++ b) = sentinel? t := by
    intro b hb t
    dsimp only [sentinel?]
    rw [isSentinel_append_blanks hb]
  rw [hany, hany, filterMap_of_loosened hpad (by decide) h]

/-- **The same baseline is stored.** -/
theorem stored_of_loosened {lines lines' : List Text} (h : Loosened lines lines')
    {b? : Option Baseline} (hs : stored {} lines = .ok b?) : stored {} lines' = .ok b? := by
  have ho : offsetRecords lines = offsetRecords lines' := by
    rw [offsetRecords, offsetRecords,
      filterMap_of_loosened StoredOffset.read?_append_blanks (by decide) h]
  have hr : restOf lines = restOf lines' := by
    rw [restOf, restOf, filterMap_of_loosened StoredRest.read?_append_blanks (by decide) h]
  have hc := stored_congr_of_records (hasMarker_of_loosened h) ho hr
  rw [hs] at hc
  exact mapError_eq_ok.mp hc.symm

/-! ## 3. Writing -/

/-- A line with blanks at its end is written with these blanks at its end. -/
theorem writeSite_pad {b : Baseline} {scale : Decimal} {n : Nat} {text : Text} {site : Site}
    {w : WrittenLine} (h : writeSite b scale n text site = .ok w) (pad : Text) :
    writeSite b scale n (text ++ pad) (site.pad pad) = .ok { w with text := w.text ++ pad } := by
  rw [writeSite_eq_iff]
  cases writeSite_eq_iff.mp h with
  | other => exact .other
  | foreignRest hb => exact .foreignRest hb
  | rest hb hv =>
    rw [← TripleLine.withValues_pad]
    exact .rest hb hv
  | foreignOffset hb hz => exact .foreignOffset hb hz
  | zero hb hk hz => exact .zero hb hk hz
  | offset hb hk hz hv =>
    rw [← TripleLine.withValues_pad]
    exact .offset hb hk hz hv

theorem writeSites_padded {b : Baseline} {scale : Decimal} {lines lines' : List Text}
    (h : List.Forall₂ Padded lines lines') (hu : ∀ line ∈ lines', Unbroken line) {g : Region}
    {owner : Option Text} {earlier : List Text} {n : Nat} {written : List WrittenLine}
    (hw : writeSites b scale n (lines.zip (sitesFrom owner earlier (classifyAll g lines))) =
      .ok written) :
    ∃ written', writeSites b scale n
        (lines'.zip (sitesFrom owner earlier (classifyAll g lines'))) = .ok written' ∧
      List.Forall₂ Padded (written.map (·.text)) (written'.map (·.text)) := by
  induction h generalizing g owner earlier n written with
  | nil =>
    cases hw
    exact ⟨[], rfl, .nil⟩
  | @cons line line' rest rest' hp _ ih =>
    obtain ⟨hl, hrest⟩ := List.forall_mem_cons.mp hu
    obtain ⟨pad, rfl, hb, hbu⟩ := hp
    rw [classifyAll_cons, sitesFrom_cons, List.zip_cons_cons] at hw
    obtain ⟨w, ws, h1, h2, rfl⟩ := writeSites_cons_eq_ok.mp hw
    obtain ⟨vs, h3, h4⟩ := ih hrest h2
    refine ⟨{ w with text := w.text ++ pad } :: vs, ?_, .cons ⟨pad, rfl, hb, hbu⟩ h4⟩
    rw [classifyAll_cons, sitesFrom_cons, List.zip_cons_cons, classify_append_blanks hb hl,
      nextOwner_pad, nextEarlier_pad, siteOf_pad]
    exact writeSites_cons_eq_ok.mpr ⟨_, vs, writeSite_pad h1 pad, h3, rfl⟩

/-- Lines behind a script that are nothing to a rescale are written as they are. -/
theorem writeBones_append {b : Baseline} {new : Quantity} {lines tail : List Text}
    {r : RescaledBones} (hq : ∀ line ∈ tail, ∀ g, VrdShape.Quiet (classify g line).1)
    (h : writeBones lines b new = .ok r) :
    ∃ s, writeBones (lines ++ tail) b new = .ok s ∧ s.lines = r.lines ++ tail := by
  obtain ⟨d, written, hd, hw, rfl⟩ := writeBones_eq_ok.mp h
  refine ⟨_, writeBones_eq_ok.mpr ⟨d, written ++ tail.map (⟨·, false⟩), hd, ?_, rfl⟩, ?_⟩
  · rw [survey_append_quiet hq, List.zip_append (by simp)]
    exact writeSites_append_eq_ok.mpr ⟨written, _, hw, writeSites_other _ _ _ _, rfl⟩
  · simp [List.map_append, Function.comp_def]

theorem writeBones_of_loosened {b : Baseline} {new : Quantity} {lines lines' : List Text}
    {r : RescaledBones} (h : Loosened lines lines') (hu : ∀ line ∈ lines', Unbroken line)
    (hw : writeBones lines b new = .ok r) :
    ∃ s, writeBones lines' b new = .ok s ∧ Loosened r.lines s.lines := by
  obtain ⟨n, hp⟩ := h
  obtain ⟨t, ht, he⟩ := writeBones_append (quiet_replicate n) hw
  obtain ⟨d, written, hd, hsites, rfl⟩ := writeBones_eq_ok.mp ht
  obtain ⟨written', hsites', hpad⟩ := writeSites_padded hp hu hsites
  exact ⟨_, writeBones_eq_ok.mpr ⟨d, written', hd, hsites', rfl⟩, n, he ▸ hpad⟩

/-- **The same rescale of both.**  With a marker block the previous scales do not matter. -/
theorem rescaleBones_of_loosened {new p q : Quantity} {lines lines' : List Text}
    {r : RescaledBones} (h : Loosened lines lines') (hu : ∀ line ∈ lines', Unbroken line)
    (hm : hasMarker {} lines' = true) (hr : rescaleBones {} lines new p = .ok r) :
    ∃ s, rescaleBones {} lines' new q = .ok s ∧ Loosened r.lines s.lines := by
  rw [← hasMarker_of_loosened h] at hm
  obtain ⟨b, hs, hw⟩ := exists_stored_of_hasMarker hm hr
  rw [rescaleBones_of_stored (stored_of_loosened h hs)]
  exact writeBones_of_loosened h hu hw

/-! ## 4. One number, two spellings -/

theorem scaleTriple_of_sameValue {a b : Decimal} (h : a.toRat = b.toRat) (t : Triple) :
    scaleTriple t a = scaleTriple t b := by
  rw [scaleTriple, scaleTriple, scaleLiteral_congr t.x h, scaleLiteral_congr t.y h,
    scaleLiteral_congr t.z h]

theorem writeSite_of_sameValue {a b : Decimal} (h : a.toRat = b.toRat) (base : Baseline) (n : Nat)
    (text : Text) (site : Site) : writeSite base a n text site = writeSite base b n text site := by
  cases site with
  | other => rfl
  | unreadable fault => rfl
  | rest owner line => simp only [writeSite, scaleTriple_of_sameValue h]
  | offset owner ordinal line => simp only [writeSite, scaleTriple_of_sameValue h]

theorem writeSites_of_sameValue {a b : Decimal} (h : a.toRat = b.toRat) (base : Baseline) (n : Nat)
    (pairs : List (Text × Site)) : writeSites base a n pairs = writeSites base b n pairs := by
  induction pairs generalizing n with
  | nil => rfl
  | cons p pairs ih =>
    obtain ⟨text, site⟩ := p
    rw [writeSites, writeSites, writeSite_of_sameValue h, ih]

theorem writeBones_of_sameValue {a b : Decimal} (h : a.toRat = b.toRat) {base : Baseline}
    {lines : List Text} {r : RescaledBones} (hr : writeBones lines base a = .ok r) :
    ∃ s, writeBones lines base b = .ok s ∧ s.lines = r.lines := by
  obtain ⟨d, written, hd, hw, rfl⟩ := writeBones_eq_ok.mp hr
  obtain rfl := Except.ok.inj hd
  rw [writeSites_of_sameValue h] at hw
  exact ⟨_, writeBones_eq_ok.mpr ⟨b, written, rfl, hw, rfl⟩, rfl⟩

/-- **Of a scale only the number counts.** -/
theorem rescaleBones_of_sameValue {a b : Decimal} (h : a.sameValue b = true) {lines : List Text}
    {previous : Quantity} {r : RescaledBones} (hr : rescaleBones {} lines a previous = .ok r) :
    ∃ s, rescaleBones {} lines b previous = .ok s ∧ s.lines = r.lines := by
  have h := Decimal.sameValue_iff.mp h
  cases rescaleBones_eq_ok.mp hr with
  | stored hs hw =>
    obtain ⟨v, hv, hl⟩ := writeBones_of_sameValue h hw
    exact ⟨v, rescaleBones_eq_ok.mpr (.stored hs hv), hl⟩
  | copied hs hcap hrest hw =>
    obtain ⟨v, hv, hl⟩ := writeBones_of_sameValue h hw
    exact ⟨_, rescaleBones_eq_ok.mpr (.copied hs hcap hrest hv), hl⟩
  | captured hs hcap hrest hw =>
    obtain ⟨v, hv, hl⟩ := writeBones_of_sameValue h hw
    refine ⟨_, rescaleBones_eq_ok.mpr (.captured hs hcap hrest hv), ?_⟩
    dsimp only
    rw [hl]

/-! ## 5. Rescaled, read again and rescaled -/

/-- What is read is what was written, or was written with a marker block and read again. -/
structure Reread (written lines : List Text) : Prop where
  loosened : Loosened lines written
  eq_or_hasMarker : lines = written ∨ hasMarker {} written = true

theorem Reread.refl (lines : List Text) : Reread lines lines :=
  ⟨Loosened.refl lines, Or.inl rfl⟩

/-- A script with a marker block is not blank. -/
theorem exists_not_blank_of_hasMarker {lines : List Text} (h : hasMarker {} lines = true) :
    ∃ line ∈ lines, isEmptyLine line = false := by
  obtain ⟨line, hl, hs⟩ := List.any_eq_true.mp h
  refine ⟨line, hl, ?_⟩
  rw [← Bool.not_eq_true, blanks_iff]
  intro hb
  have hnil := isSentinel_append_blanks hb []
  rw [List.nil_append, hs] at hnil
  exact absurd hnil (by decide)

theorem Document.Sound.intact {d : Document} (h : d.Sound) : ∀ line ∈ d.lines, Intact line := by
  intro line hl
  exact ⟨h.unbroken line hl, h.faithful line hl⟩

/-- **The file of a script that a rescale has changed.** -/
theorem exists_document_of_rescaleBones {d : Document} (hd : d.Sound) {new previous : Quantity}
    {r : RescaledBones} (h : rescaleBones {} d.lines new previous = .ok r)
    (hne : r.lines ≠ d.lines) :
    ∃ e, Document.ofBytes? (d.withLines r.lines).toBytes = some e ∧ Reread r.lines e.lines := by
  have hr := intact_of_rescaleBones hd.intact h
  have hm := hasMarker_of_changed h hne
  obtain ⟨e, he, hl⟩ := Document.ofBytes?_toBytes hd (fun l hl => (hr l hl).unbroken)
    (fun l hl => (hr l hl).faithful) (exists_not_blank_of_hasMarker hm)
  exact ⟨e, he, hl, Or.inr hm⟩

/-- **A rescale of what was read again** leaves what one rescale of the first script would leave,
with the first previous scale and the last new one. -/
theorem Reread.rescale_again {lines lines' : List Text} (hl : ∀ line ∈ lines, Intact line)
    {a b p q : Quantity} {r s : RescaledBones} (hr : rescaleBones {} lines a p = .ok r)
    (h : Reread r.lines lines') (hs : rescaleBones {} lines' b q = .ok s) :
    ∃ t, rescaleBones {} lines b p = .ok t ∧
      ∀ {later : List Text}, Reread s.lines later → Reread t.lines later := by
  have hu : ∀ line ∈ lines, Unbroken line := by
    intro line hm
    exact (hl line hm).unbroken
  rcases h.eq_or_hasMarker with rfl | hm
  · obtain ⟨t, ht, hts⟩ := rescale_twice hu hr hs
    exact ⟨t, ht, fun hlater => hts.lines ▸ hlater⟩
  · have hm' : hasMarker {} lines' = true := hasMarker_of_loosened h.loosened ▸ hm
    have hru : ∀ line ∈ r.lines, Unbroken line :=
      fun line hm => (intact_of_rescaleBones hl hr line hm).unbroken
    obtain ⟨v, hv, hsv⟩ := rescaleBones_of_loosened (q := q) h.loosened hru hm hs
    obtain ⟨t, ht, htv⟩ := rescale_twice hu hr hv
    -- the marker block is still there, whether or not the rescale changed a line
    have hmv : hasMarker {} v.lines = true := by
      rw [← hasMarker_of_loosened hsv]
      by_cases hne : s.lines = lines'
      · rw [hne]
        exact hm'
      · exact hasMarker_of_changed hs hne
    refine ⟨t, ht, ?_⟩
    intro later hlater
    rw [htv.lines]
    exact ⟨hlater.loosened.trans hsv, Or.inr hmv⟩

end ModelScale
