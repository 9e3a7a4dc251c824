import ModelScale.Proofs.Decimal.Overflow
import ModelScale.Proofs.Qc.Placement

/-
# What can go wrong with a new scale

An answer that is no scale is refused with a reason, and asked for again.  But the checks calculate:
they take the absolute value of the scale in force and of the new one, and the difference of the
two, and a number with an exponent of more than six digits overflows there.  It is neither refused
nor taken for malformed.  What is accepted can be compared and written, but its quotient by the
previous scale need not be.  Main statement:

* `scale_input_faults`: for every script and every answer, when the arithmetic gives out, and that
  nothing else goes wrong.
-/

namespace ModelScale

open Text Decimal Context

/-! ## 1. The scale in force -/

/-- **The scale in force** is had unless the first directive gives a number out of range. -/
theorem scaleInForce_eq_error_iff {lines : List Text} {f : Fault} :
    scaleInForce {} lines = .error f ↔
      f = .overflow ∧ ∃ v, (firstDirective? lines).bind (·.2.value) = some v ∧
        standard.ceiling ≤ |v.toRat| := by
  unfold scaleInForce
  cases hv : (firstDirective? lines).bind (·.2.value) with
  | none => exact iff_of_false (fun h => nomatch h) fun ⟨_, _, h, _⟩ => nomatch h
  | some v =>
    have hpure : ∀ size : Decimal, (pure (if size.isLess ({} : Settings).zeroBoundary then .one
        else v) : Except Fault Decimal) ≠ .error f := fun _ => pure_ne_error
    simp only [Option.some.injEq, exists_eq_left']
    rw [← (finishes_abs (by decide) v).eq_error_iff, bind_eq_error]
    exact or_iff_left fun ⟨size, _, h⟩ => hpure size h

/-- The scale in force is not zero. -/
theorem coefficient_ne_zero_of_scaleInForce {lines : List Text} {previous : Decimal}
    (h : scaleInForce {} lines = .ok previous) : previous.coefficient ≠ 0 := by
  unfold scaleInForce at h
  split at h
  · obtain rfl := Except.ok.inj h
    decide
  · rename_i v _
    obtain ⟨size, hsize, h⟩ := bind_eq_ok.mp h
    obtain rfl := pure_eq_ok.mp h
    split
    · decide
    · rename_i hless
      intro hz
      obtain ⟨r, hr, hr0⟩ : ∃ r, standard.abs v = .ok r ∧ r.toRat = 0 :=
        finish_of_toRat_eq_zero (toRat_eq_zero_iff.mpr hz)
      obtain rfl := Except.ok.inj (hsize.symm.trans hr)
      rw [isLess_iff, hr0] at hless
      exact hless (by norm_num [toRat, Decimal.size])

/-! ## 2. Answers -/

/-- The number that an answer gives, with a comma for a point. -/
def answered (answer : Text) : Except Fault Decimal :=
  Decimal.read ((trim answer).map fun c => if c = ',' then '.' else c)

/-- The answer gives a number that is out of range, or one that is not as good as zero and whose
distance from the previous scale is out of range. -/
def Unreachable (previous : Decimal) (answer : Text) : Prop :=
  ∃ x, answered answer = .ok x ∧
    (standard.ceiling ≤ |x.toRat| ∨
      ∃ size, standard.abs x = .ok size ∧ size.isLess ({} : Settings).zeroBoundary = false ∧
        standard.ceiling ≤ |x.toRat - previous.toRat|)

/-- An answer is neither taken nor refused if the size of its number or of the change has none. -/
theorem acceptScale_eq_fault_iff {answer : Text} {previous : Decimal} {f : Fault} :
    acceptScale {} answer previous = .error (.fault f) ↔
      ∃ x, answered answer = .ok x ∧ (standard.abs x = .error f ∨
        ∃ size, standard.abs x = .ok size ∧ size.isLess ({} : Settings).zeroBoundary = false ∧
          (standard.sub x previous).bind standard.abs = .error f) := by
  have hread : (answered answer).mapError (fun _ => .refused (.notANumber answer.trim)) ≠
      .error (RequestError.fault f) := by
    simp [mapError_eq_error]
  have hfault : ∀ r : Except Fault Decimal,
      r.mapError RequestError.fault = .error (.fault f) ↔ r = .error f := by
    intro r
    rw [mapError_eq_error]
    simp
  unfold acceptScale
  dsimp only
  rw [← answered, bind_eq_error, or_iff_right hread]
  simp only [mapError_eq_ok]
  refine exists_congr fun x => and_congr_right fun _ => ?_
  rw [bind_eq_error, hfault]
  simp only [mapError_eq_ok]
  refine or_congr_right (exists_congr fun size => and_congr_right fun _ => ?_)
  split
  · rename_i hless
    exact iff_of_false (fun h => nomatch h) fun h => Bool.false_ne_true (h.1.symm.trans hless)
  · rename_i hless
    rw [bind_eq_error, hfault, and_iff_right (Bool.not_eq_true _ ▸ hless), or_iff_left]
    rintro ⟨change, -, h⟩
    split at h <;> cases h

/-- **The arithmetic gives out on an answer** just when it is unreachable, and by an overflow. -/
theorem acceptScale_eq_fault_iff_unreachable {answer : Text} {previous : Decimal} {f : Fault} :
    acceptScale {} answer previous = .error (.fault f) ↔
      f = .overflow ∧ Unreachable previous answer := by
  have habs : ∀ x : Decimal, standard.abs x = .error f ↔
      f = .overflow ∧ standard.ceiling ≤ |x.toRat| := fun x =>
    (finishes_abs (by decide) x).eq_error_iff
  have hchange : ∀ x : Decimal, (standard.sub x previous).bind standard.abs = .error f ↔
      f = .overflow ∧ standard.ceiling ≤ |x.toRat - previous.toRat| := fun x =>
    ((finishes_sub (by decide) x previous).bind_abs (by decide)).eq_error_iff
  simp only [acceptScale_eq_fault_iff, Unreachable, habs, hchange]
  constructor
  · rintro ⟨x, hx, ⟨rfl, h⟩ | ⟨size, hsize, hless, rfl, h⟩⟩
    · exact ⟨rfl, x, hx, .inl h⟩
    · exact ⟨rfl, x, hx, .inr ⟨size, hsize, hless, h⟩⟩
  · rintro ⟨rfl, x, hx, h | ⟨size, hsize, hless, h⟩⟩
    · exact ⟨x, hx, .inl ⟨rfl, h⟩⟩
    · exact ⟨x, hx, .inr ⟨size, hsize, hless, rfl, h⟩⟩

/-! ## 3. Asking again -/

/-- The answers are refused for these reasons. -/
def Refused (previous : Decimal) (answers : List Text) (reasons : List Refusal) : Prop :=
  List.Forall₂ (fun answer reason => acceptScale {} answer previous = .error (.refused reason))
    answers reasons

/-- How the asking ends: with an answer that is accepted or unreachable, or as there are no more.
The answers before it have been refused, and the reasons given in their order. -/
inductive Settles (previous : Decimal) :
    List Text → Except Fault (List Refusal × Option Request) → Prop where
  | unanswered {refused reasons} (h : Refused previous refused reasons) :
    Settles previous refused (.ok (reasons, none))
  | accepted {refused reasons answer later request} (h : Refused previous refused reasons)
    (ha : acceptScale {} answer previous = .ok request) :
    Settles previous (refused ++ answer :: later) (.ok (reasons, some request))
  | failed {refused reasons answer later} (h : Refused previous refused reasons)
    (ha : Unreachable previous answer) :
    Settles previous (refused ++ answer :: later) (.error .overflow)

/-- A refused answer is asked for again. -/
theorem Settles.cons {previous : Decimal} {answer : Text} {reason : Refusal} {answers : List Text}
    {outcome : Except Fault (List Refusal × Option Request)}
    (hr : acceptScale {} answer previous = .error (.refused reason))
    (h : Settles previous answers outcome) :
    Settles previous (answer :: answers)
      (outcome >>= fun (reasons, request) => pure (reason :: reasons, request)) := by
  cases h with
  | unanswered h => exact .unanswered (h.cons hr)
  | accepted h ha => exact .accepted (h.cons hr) ha
  | failed h ha => exact .failed (h.cons hr) ha

theorem settles_settleScale (previous : Decimal) (answers : List Text) :
    Settles previous answers (settleScale {} previous answers) := by
  induction answers with
  | nil => exact .unanswered .nil
  | cons answer answers ih =>
    unfold settleScale
    cases ha : acceptScale {} answer previous with
    | ok request =>
      rw [← List.nil_append (answer :: answers)]
      exact .accepted .nil ha
    | error e =>
      cases e with
      | refused reason => exact ih.cons ha
      | fault f =>
        obtain ⟨rfl, hfar⟩ := acceptScale_eq_fault_iff_unreachable.mp ha
        rw [← List.nil_append (answer :: answers)]
        exact .failed .nil hfar

/-! ## 4. Requests -/

/-- **What can be asked of a request**: whether rounding shows, and how the new scale is written.
Its factor is had unless the quotient is out of range, and shown unless it also has too many
digits. -/
structure Presentable (request : Request) : Prop where
  exists_risk : ∃ risks, request.risksRounding {} = .ok risks
  exists_shown : ∃ d, Decimal.read request.shownNew = .ok d ∧ d.toRat = request.new.toRat
  relative_fault : ∀ f, request.relative = .error f ↔
    f = .overflow ∧ extended.ceiling ≤ |request.new.toRat / request.previous.toRat|
  shown_fault : ∀ f, request.shownRelative = .error f ↔
    request.relative = .error f ∨ f = .invalidOperation ∧
      ∃ d, request.relative = .ok d ∧ (10 ^ 25 - 1 / 2000 : ℚ) ≤ |d.toRat|

theorem presentable_of_acceptScale {answer : Text} {previous : Decimal} {request : Request}
    (hp : previous.coefficient ≠ 0) (h : acceptScale {} answer previous = .ok request) :
    Presentable request := by
  obtain ⟨hprevious, ⟨hreach, size, hsize, -⟩, -⟩ := acceptScale_eq_ok h
  exact {
    exists_risk := ⟨_, by rw [Request.risksRounding, hsize]; rfl⟩
    exists_shown := read_compact hreach
    relative_fault := fun f => (finishes_div (by decide) (hprevious ▸ hp)).eq_error_iff
    shown_fault := fun f => by
      rw [Request.shownRelative]
      refine bind_eq_error.trans (or_congr_right ?_)
      simp only [compactFactor_eq_error_iff]
      exact ⟨fun ⟨d, hd, hf, hd'⟩ => ⟨hf, d, hd, hd'⟩, fun ⟨hf, d, hd, hd'⟩ => ⟨d, hd, hf, hd'⟩⟩ }

/-! ## 5. All inputs -/

/-- **What can go wrong with a new scale**: for every script, the scale in force is had unless the
first directive gives a number out of range.  With it, every answer is accepted or refused unless it
is unreachable, and the asking goes on with the reasons in their order until one is accepted.  A
request that is accepted can be shown but for a factor that is too large. -/
theorem scale_input_faults (lines : List Text) :
    (∀ f, scaleInForce {} lines = .error f ↔
      f = .overflow ∧ ∃ v, (firstDirective? lines).bind (·.2.value) = some v ∧
        standard.ceiling ≤ |v.toRat|) ∧
    ∀ previous, scaleInForce {} lines = .ok previous →
      (∀ answer f, acceptScale {} answer previous = .error (.fault f) ↔
        f = .overflow ∧ Unreachable previous answer) ∧
      (∀ answers, Settles previous answers (settleScale {} previous answers)) ∧
      ∀ answer request, acceptScale {} answer previous = .ok request → Presentable request :=
  ⟨fun _ => scaleInForce_eq_error_iff, fun previous h =>
    ⟨fun _ _ => acceptScale_eq_fault_iff_unreachable, settles_settleScale previous, fun _ _ =>
      presentable_of_acceptScale (coefficient_ne_zero_of_scaleInForce h)⟩⟩

/-- A script with a scale, and an answer with a comma. -/
theorem scale_input_faults_small :
    scaleInForce {} ["$scale 2".toList] = .ok ⟨false, 2, 0⟩ ∧
      acceptScale {} "2,5".toList ⟨false, 2, 0⟩ = .ok ⟨⟨false, 2, 0⟩, ⟨false, 25, -1⟩⟩ ∧
      Presentable ⟨⟨false, 2, 0⟩, ⟨false, 25, -1⟩⟩ := by
  have hscale : scaleInForce {} ["$scale 2".toList] = .ok ⟨false, 2, 0⟩ := by decide +kernel
  have haccept : acceptScale {} "2,5".toList ⟨false, 2, 0⟩ =
      .ok ⟨⟨false, 2, 0⟩, ⟨false, 25, -1⟩⟩ := by
    decide +kernel
  exact ⟨hscale, haccept,
    ((scale_input_faults ["$scale 2".toList]).2 _ hscale).2.2 "2,5".toList _ haccept⟩

/-- A directive and an answer that are out of range, and an accepted answer whose factor cannot be
shown. -/
theorem scale_input_faults_huge :
    scaleInForce {} ["$scale 1e1000000".toList] = .error .overflow ∧
      acceptScale {} "1e1000000".toList .one = .error (.fault .overflow) ∧
      acceptScale {} "1e30".toList .one = .ok ⟨.one, ⟨false, 1, 30⟩⟩ ∧
      Request.shownRelative ⟨.one, ⟨false, 1, 30⟩⟩ = .error .invalidOperation := by
  decide +kernel

end ModelScale
