import ModelScale.Proofs.Document
import ModelScale.Proofs.Qc.Session

/-
# Directives that were written and read again

A model script that comes back from its file may have lost blanks at the ends of its lines and empty
lines at its own end.  A directive is found by its first word and gives its second one, so it is
still the first, on the same line, with the same scale.  Main statements:

* `Directive.read?_of_append_blanks`: a directive without the blanks at its end;
* `Directs.of_loosened`: the directive of a script that was written and read again;
* `exists_document_of_rescaleScript`: the scale in force in the file of a rescaled script.
-/

namespace ModelScale

open Text Comment

/-! ## 1. One directive -/

namespace Directive

theorem read?_nil : read? [] = none := by
  decide

/-- **A directive without the blanks at its end** gives the same word. -/
theorem read?_of_append_blanks {t b : Text} (hb : Blanks b) (hu : Unbroken (t ++ b))
    {d : Directive} (h : read? (t ++ b) = some d) :
    ∃ e, read? t = some e ∧ e.token = d.token := by
  have ht := Retouched.of_append_blanks hb t
  have hsome : (read? t).isSome = true := by
    rw [isSome_read?_iff (ht.unbroken hu), ht.nextWord_eq, ← isSome_read?_iff hu, h]
    rfl
  obtain ⟨e, he⟩ := Option.isSome_iff_exists.mp hsome
  obtain ⟨r, hline, hlead, hk, hr, hn, -⟩ := (read?_eq_some_iff (ht.unbroken hu)).mp he
  have hpadded : t ++ b = e.lead ++ (e.keyword ++ (r ++ b)) := by
    rw [hline, List.append_assoc, List.append_assoc]
  have hread : read? (t ++ b) = some ⟨e.lead, e.keyword, (nextWord (r ++ b)).1,
      (nextWord (r ++ b)).2, (Decimal.read (nextWord (r ++ b)).1).toOption⟩ :=
    (read?_eq_some_iff hu).mpr ⟨r ++ b, hpadded, hlead, hk, hr.append hb.atGap, rfl, rfl⟩
  rw [h] at hread
  obtain rfl := Option.some.inj hread
  refine ⟨e, he, ?_⟩
  dsimp only
  rw [← (Retouched.of_append_blanks hb r).nextWord_eq, hn]

end Directive

/-! ## 2. The first directive -/

/-- The first directive is still there when blanks are gone at the ends of the lines. -/
theorem Directs.of_padded {lines lines' : List Text} {i : Nat} {scale : Decimal}
    (h : Directs lines' i scale) (hp : List.Forall₂ Padded lines lines')
    (hu : ∀ line ∈ lines', Unbroken line) : Directs lines i scale := by
  obtain ⟨d, hd, ht⟩ := h
  obtain ⟨pre', line', post', rfl, rfl, hs, hi, hr⟩ := firstLive?_eq_some_iff.mp hd
  obtain ⟨pre, line, post, rfl, hpre, ⟨b, rfl, hb, -⟩, -⟩ := forall₂_append_cons hp.flip
  obtain ⟨e, he, het⟩ := Directive.read?_of_append_blanks hb (hu _ (by simp)) hr
  have hpu : ∀ line ∈ pre', Unbroken line := by
    intro l hl
    exact hu l (List.mem_append_left _ hl)
  -- the lines in front lose their blanks too, which makes none of them a directive
  have hpass : List.Forall₂ (fun line' line => (∀ g, advance g line = advance g line') ∧
      (∀ g, inert g line = inert g line') ∧
      (Directive.read? line' = none → Directive.read? line = none)) pre' pre := by
    clear hs hi hu hd hp
    induction hpre with
    | nil => exact .nil
    | @cons l' l ls' ls hl _ ih =>
      obtain ⟨hlu, hrest⟩ := List.forall_mem_cons.mp hpu
      obtain ⟨c, rfl, hc, -⟩ := hl
      have hkept := Retouched.of_append_blanks hc l
      exact .cons ⟨hkept.advance_eq, hkept.inert_eq,
        Directive.read?_eq_none_of_retouched hkept hlu⟩ (ih hrest)
  obtain ⟨hs', hbehind⟩ := hs.congr hpass
  rw [hpre.length_eq]
  refine directs_append_cons hs' ?_ he (het.trans ht)
  rw [hbehind, (Retouched.of_append_blanks hb line).inert_eq]
  exact hi

/-- An empty line at the end is not the directive. -/
theorem Directs.of_append_replicate {lines : List Text} {n i : Nat} {scale : Decimal}
    (h : Directs (lines ++ List.replicate n []) i scale) : Directs lines i scale := by
  obtain ⟨d, hd, ht⟩ := h
  obtain ⟨pre, line, post, he, rfl, hs, hi, hr⟩ := firstLive?_eq_some_iff.mp hd
  have hline : line ∉ List.replicate n ([] : Text) := by
    intro hm
    rw [List.eq_of_mem_replicate hm, Directive.read?_nil] at hr
    cases hr
  rcases List.append_eq_append_iff.mp he with ⟨front, -, hrep⟩ | ⟨tail, rfl, hrep⟩
  · exact absurd (by rw [hrep]; simp) hline
  · cases tail with
    | nil => exact absurd (by rw [← List.nil_append (List.replicate n _), ← hrep]; simp) hline
    | cons first tail =>
      obtain ⟨rfl, -⟩ := List.cons.inj hrep
      exact directs_append_cons hs hi hr ht

/-- **The directive of a script that was written and read again.** -/
theorem Directs.of_loosened {lines lines' : List Text} {i : Nat} {scale : Decimal}
    (h : Directs lines' i scale) (hl : Loosened lines lines')
    (hu : ∀ line ∈ lines', Unbroken line) : Directs lines i scale := by
  obtain ⟨n, hp⟩ := hl
  exact (h.of_padded hp hu).of_append_replicate

/-! ## 3. The file of a rescaled script -/

/-- The line of a directive is not blank. -/
theorem Directs.exists_not_blank {lines : List Text} {i : Nat} {scale : Decimal}
    (h : Directs lines i scale) (hu : ∀ line ∈ lines, Unbroken line) :
    ∃ line ∈ lines, isEmptyLine line = false := by
  obtain ⟨d, hd, -⟩ := h
  obtain ⟨pre, line, post, rfl, -, -, -, hr⟩ := firstLive?_eq_some_iff.mp hd
  refine ⟨line, by simp, ?_⟩
  rw [← Bool.not_eq_true, blanks_iff]
  intro hb
  have hsome := (Directive.isSome_read?_iff (hu line (by simp))).mp (by rw [hr]; rfl)
  rw [nextWord_of_blanks hb] at hsome
  cases hsome

/-- **The file of a rescaled script** can be read, and the scale in force in it is the number that
was asked for. -/
theorem exists_document_of_rescaleScript {d : Document} (hd : d.Sound) {request : Request}
    (ha : Acceptable request.new) {rename : Bool} {r : RescaledScript}
    (h : rescaleScript {} d.lines request rename = .ok r) :
    ∃ e, Document.ofBytes? (d.withLines r.lines).toBytes = some e ∧
      ∃ s, scaleInForce {} e.lines = .ok s ∧ s.sameValue request.new = true := by
  obtain ⟨hdir, hpu, hpf, -⟩ := directs_placeDirective hd.unbroken request.new
  obtain ⟨hkeep, hru, hrf, -⟩ := rescaleScript_eq_ok h hpu
  have hr := hkeep _ _ hdir
  obtain ⟨e, he, hl⟩ := Document.ofBytes?_toBytes hd hru (hrf (hpf hd.faithful))
    (hr.exists_not_blank hru)
  refine ⟨e, he, ?_⟩
  exact scaleInForce_of_directs (hr.of_loosened hl hru) ha (Document.sound_of_ofBytes? he).unbroken

end ModelScale
