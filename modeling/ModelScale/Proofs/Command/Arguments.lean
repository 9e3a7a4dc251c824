import ModelScale.Command.Arguments
import ModelScale.Command.Output
import ModelScale.Proofs.Outcome

/-
# What a command line asks for

A command line names the model script, the new scale and the procedural-bones script.  The scale and
the second script can be any words; one that the program takes for an option, or for the end of the
options, leaves the option in front of it without a value, and the command line is refused.  Main
statements:

* `Words.classify_eq_ok_of_read`, `Words.exists_of_classified`: words, told apart one by one;
* `Call.read_words`: a command line that is accepted asks for what it says;
* `Options.Settled.of_scan`: what is settled stays settled, whatever words follow;
* `Invocation.settled_of_read`: a command line with a script, a scale and a yes, and any flags.
-/

namespace ModelScale

open Text

/-! ## 1. Words, told apart -/

/-- The end of options is no word like the others. -/
theorem Word.ne_endOfOptions {t : Text} {word : Word} (h : Word.read t = .ok word) :
    t ≠ endOfOptions := by
  rintro rfl
  have he : (Word.read endOfOptions).toOption.isSome = false := by decide
  rw [h] at he
  cases he

namespace Words

theorem classify_cons_eq_ok {t : Text} {rest : List Text} {w : Words}
    (h : classify (t :: rest) = .ok w) :
    (t = endOfOptions ∧ w = ⟨[], some rest⟩) ∨ ∃ word ws, Word.read t = .ok word ∧
      classify rest = .ok ws ∧ w = ⟨(t, word) :: ws.classified, ws.operands⟩ := by
  rw [classify] at h
  split at h
  · rename_i ht
    exact Or.inl ⟨ht, (Except.ok.inj h).symm⟩
  · obtain ⟨word, hword, h⟩ := bind_eq_ok.mp h
    obtain ⟨ws, hws, h⟩ := bind_eq_ok.mp h
    exact Or.inr ⟨word, ws, hword, hws, (pure_eq_ok.mp h).symm⟩

/-- A word whose kind is known is told apart as that. -/
theorem classify_eq_ok_of_read {t : Text} (word : Word) (ht : Word.read t = .ok word)
    {rest : List Text} {w : Words} (h : classify (t :: rest) = .ok w) :
    ∃ ws, classify rest = .ok ws ∧ w = ⟨(t, word) :: ws.classified, ws.operands⟩ := by
  rcases classify_cons_eq_ok h with ⟨rfl, -⟩ | ⟨word', ws, hword, hws, rfl⟩
  · exact absurd rfl (Word.ne_endOfOptions ht)
  · rw [ht] at hword
    obtain rfl := Except.ok.inj hword
    exact ⟨ws, hws, rfl⟩

/-- The first word that was told apart is the first word there is. -/
theorem exists_of_classified {t v : Text} {word : Word} {rest : List Text}
    {others : List (Text × Word)} {w : Words} (h : classify (t :: rest) = .ok w)
    (hw : w.classified = (v, word) :: others) :
    v = t ∧ ∃ ws, classify rest = .ok ws ∧ ws.classified = others ∧ ws.operands = w.operands := by
  rcases classify_cons_eq_ok h with ⟨-, rfl⟩ | ⟨word', ws, -, hws, rfl⟩
  · cases hw
  · obtain ⟨hpair, rfl⟩ := List.cons.inj hw
    exact ⟨(Prod.mk.inj hpair).1.symm, ws, hws, rfl, rfl⟩

end Words

/-! ## 2. Words that take effect -/

namespace Options

/-- The options with a value for one that takes one. -/
def withValue (o : Options) : Field → Text → Options
  | .scale, value => { o with scale := some value }
  | .bones, value => { o with bones := some value }

/-- **An option that takes a value has it in the next word**, or the command line is refused. -/
theorem scan_field_eq_ok {o : Options} {leftOver : Bool} {operands : Option (List Text)}
    {t : Text} {field : Field} {rest : List (Text × Word)} {i : Invocation}
    (h : o.scan leftOver operands ((t, .options (.ok ⟨[], some field⟩)) :: rest) = .ok i) :
    ∃ value others, rest = (value, .operand) :: others ∧
      (o.withValue field value).scan leftOver operands others = .ok i := by
  rcases rest with _ | ⟨⟨value, word⟩, others⟩
  · cases h
  · cases word with
    | operand =>
      refine ⟨value, others, rfl, ?_⟩
      cases field <;> exact h
    | options given => cases h
    | unknown => cases h

/-- An option without a value. -/
theorem scan_flag {o o' : Options} {flag : Flag} (hf : o.set? (.flag flag) = some o')
    (leftOver : Bool) (operands : Option (List Text)) (t : Text) (rest : List (Text × Word)) :
    o.scan leftOver operands ((t, .options (.ok ⟨[.flag flag], none⟩)) :: rest) =
      o'.scan leftOver operands rest := by
  have hfold : [Setting.flag flag].foldlM set? o = some o' := by simp [hf]
  rw [scan, hfold]

/-- The first word that is no option names the model script. -/
theorem scan_operand {o : Options} (ho : o.script = none) (leftOver : Bool)
    (operands : Option (List Text)) (name : Text) (next : Text × Word)
    (rest : List (Text × Word)) :
    o.scan leftOver operands ((name, .operand) :: next :: rest) =
      { o with script := some name }.scan leftOver operands (next :: rest) := by
  rw [scan, ho]
  rfl

end Options

/-! ## 3. Calls -/

/-- A call of the program that leaves no question open, about a model script and a procedural-bones
script that are named apart from it. -/
structure Call where
  scale : Text
  keepName : Bool := false
  colourless : Bool := false
  /-- The lines of input that are at hand all the same. -/
  input : List Text := []
  /-- The output of the call. -/
  output : Output := {}

namespace Call

/-- The words behind the scripts and the scale. -/
def flags (call : Call) : List Text :=
  (if call.keepName then ["--no-rename".toList] else []) ++
    if call.colourless then ["--nocolour".toList] else []

/-- The words of a call. -/
def words (call : Call) (script bones : Text) : List Text :=
  [script, "--scale".toList, call.scale, "--yes".toList, "--vrd".toList, bones] ++ call.flags

/-- What a call asks for. -/
def options (call : Call) (script bones : Text) : Options where
  script := some script
  scale := some call.scale
  bones := some bones
  keepName := call.keepName
  assumeYes := true
  colourless := call.colourless

/-- **A call that is accepted asks for what it says.** -/
theorem read_words {call : Call} {script bones : Text} {i : Invocation}
    (hs : Word.read script = .ok .operand)
    (h : Invocation.read (call.words script bones) = .ok i) :
    i = .rescale (call.options script bones) := by
  obtain ⟨w, hw, h⟩ := bind_eq_ok.mp h
  -- the script, and the scale behind its option
  obtain ⟨w1, hw1, rfl⟩ := Words.classify_eq_ok_of_read _ hs hw
  obtain ⟨w2, hw2, rfl⟩ := Words.classify_eq_ok_of_read
    (.options (.ok ⟨[], some .scale⟩)) rfl hw1
  dsimp only at h
  rw [Options.scan_operand rfl] at h
  obtain ⟨scale, others, hothers, h⟩ := Options.scan_field_eq_ok h
  obtain ⟨rfl, w3, hw3, rfl, ho3⟩ := Words.exists_of_classified hw2 hothers
  -- the flag, and the procedural bones behind their option
  obtain ⟨w4, hw4, rfl⟩ := Words.classify_eq_ok_of_read
    (.options (.ok ⟨[.flag .assumeYes], none⟩)) rfl hw3
  obtain ⟨w5, hw5, rfl⟩ := Words.classify_eq_ok_of_read
    (.options (.ok ⟨[], some .bones⟩)) rfl hw4
  dsimp only at h
  rw [Options.scan_flag rfl] at h
  obtain ⟨path, others, hothers, h⟩ := Options.scan_field_eq_ok h
  obtain ⟨rfl, w6, hw6, rfl, ho6⟩ := Words.exists_of_classified hw5 hothers
  -- the flags at the end are known
  rw [← ho3, ← ho6] at h
  obtain ⟨scale, keepName, colourless, input, output⟩ := call
  cases keepName <;> cases colourless <;> obtain rfl := Except.ok.inj hw6 <;>
    exact (Except.ok.inj h).symm

end Call

/-! ## 4. Commands that leave no question open -/

/-- The options name a model script and a scale, and every question is answered beforehand. -/
structure Options.Settled (o : Options) (script : Text) : Prop where
  script_eq : o.script = some script
  scale_given : o.scale.isSome
  assumeYes_eq : o.assumeYes = true

namespace Options

variable {o o' : Options} {script : Text}

/-- More options settle nothing anew. -/
theorem Settled.of_set? (h : o.Settled script) {setting : Setting}
    (hset : o.set? setting = some o') : o'.Settled script := by
  obtain ⟨hscript, hscale, hyes⟩ := h
  rcases setting with ⟨flag⟩ | ⟨field, value⟩
  · cases flag <;> first
      | (obtain rfl := Option.some.inj hset; exact ⟨hscript, hscale, hyes⟩)
      | (obtain rfl := Option.some.inj hset; exact ⟨hscript, hscale, rfl⟩)
      | cases hset
  · cases field <;> obtain rfl := Option.some.inj hset
    · exact ⟨hscript, rfl, hyes⟩
    · exact ⟨hscript, hscale, hyes⟩

theorem Settled.of_foldlM (h : o.Settled script) {settings : List Setting}
    (hset : settings.foldlM set? o = some o') : o'.Settled script := by
  induction settings generalizing o with
  | nil =>
    obtain rfl := Option.some.inj hset
    exact h
  | cons setting settings ih =>
    rw [List.foldlM_cons] at hset
    obtain ⟨next, hnext, hset⟩ := Option.bind_eq_some_iff.mp hset
    exact ih (h.of_set? hnext) hset

theorem Settled.of_finish (h : o.Settled script) {leftOver : Bool}
    {operands : Option (List Text)} {options : Options}
    (hf : o.finish false leftOver operands = .ok (.rescale options)) : options.Settled script := by
  unfold finish at hf
  cases operands with
  | none =>
    cases leftOver with
    | false =>
      obtain rfl := Invocation.rescale.inj (Except.ok.inj hf)
      exact h
    | true => cases hf
  | some operands => cases hf

/-- **What is settled stays settled**, whatever words follow. -/
theorem Settled.of_scan (h : o.Settled script) {leftOver : Bool}
    {operands : Option (List Text)} {rest : List (Text × Word)} {options : Options}
    (hs : o.scan leftOver operands rest = .ok (.rescale options)) : options.Settled script := by
  fun_induction scan o leftOver operands rest with
  | case1 o leftOver =>
    rw [h.script_eq] at hs
    exact h.of_finish hs
  | case2 o leftOver name rest ih => exact ih h hs
  | case3 o leftOver name rest hnamed ih => exact ih h hs
  | case4 o leftOver name rest hfresh =>
    rw [h.script_eq] at hfresh
    exact absurd rfl hfresh
  | case5 o leftOver name rest hfresh =>
    rw [h.script_eq] at hfresh
    exact absurd rfl hfresh
  | case6 => cases hs
  | case7 => cases hs
  | case8 o leftOver name settings rest o' hset ih => exact ih (h.of_foldlM hset) hs
  | case9 => cases hs
  | case10 o leftOver name settings field value rest o' hset ih => exact ih (h.of_foldlM hset) hs
  | case11 => cases hs

end Options

/-- The words of a command that leaves no question open, and some flags. -/
def settledWords (script scale : Text) (flags : List Text) : List Text :=
  script :: "--scale".toList :: scale :: "--yes".toList :: flags

/-- **A command with a script, a scale and a yes** asks for that, whatever flags stand behind. -/
theorem Invocation.settled_of_read {script scale : Text} {flags : List Text} {options : Options}
    (hs : Word.read script = .ok .operand)
    (h : Invocation.read (settledWords script scale flags) = .ok (.rescale options)) :
    options.Settled script := by
  obtain ⟨w, hw, h⟩ := bind_eq_ok.mp h
  obtain ⟨w1, hw1, rfl⟩ := Words.classify_eq_ok_of_read _ hs hw
  obtain ⟨w2, hw2, rfl⟩ := Words.classify_eq_ok_of_read
    (.options (.ok ⟨[], some .scale⟩)) rfl hw1
  dsimp only at h
  rw [Options.scan_operand rfl] at h
  obtain ⟨value, others, hothers, h⟩ := Options.scan_field_eq_ok h
  obtain ⟨rfl, w3, hw3, rfl, -⟩ := Words.exists_of_classified hw2 hothers
  obtain ⟨w4, -, rfl⟩ := Words.classify_eq_ok_of_read
    (.options (.ok ⟨[.flag .assumeYes], none⟩)) rfl hw3
  dsimp only at h
  rw [Options.scan_flag rfl] at h
  exact Options.Settled.of_scan ⟨rfl, rfl, rfl⟩ h

end ModelScale
