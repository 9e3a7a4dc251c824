import ModelScale.Text.Digit
import ModelScale.Text.Search

/-!
# Arguments

The words of a command line.  An option is written in full after two hyphens, or cut short as long
as only one option begins that way, or as a single letter after one hyphen; letters of options
without a value can be run together, and an equals sign behind the first of them is passed over.  A
value stands behind an equals sign, right behind the letter, or in the next word.  A word that looks
like a negative number is no option, and neither is one with a space in it that begins like none.

All words are told apart before any of them has an effect, so an ambiguous word is refused even
behind a request for help (`classify`); every other complaint comes up when its word is reached
(`scan`).
-/

namespace ModelScale

open Text

/-! ## 1. The options -/

/-- An option without a value. -/
inductive Flag where
  | help
  /-- Leave procedural bones alone. -/
  | skipBones
  /-- Leave the model name alone. -/
  | keepName
  /-- Take every confirmation as given. -/
  | assumeYes
  /-- Write without colours. -/
  | colourless
  deriving DecidableEq, Repr

/-- An option with a value. -/
inductive Field where
  /-- The new scale. -/
  | scale
  /-- The procedural-bones script. -/
  | bones
  deriving DecidableEq, Repr

/-- An option. -/
inductive Switch where
  | flag (flag : Flag)
  | field (field : Field)
  deriving DecidableEq, Repr

namespace Switch

/-- All options. -/
def all : List Switch :=
  [flag .help, field .scale, field .bones, flag .skipBones, flag .keepName, flag .assumeYes,
    flag .colourless]

/-- An option in full, without its hyphens. -/
def spelling : Switch → Text
  | flag .help => "help".toList
  | field .scale => "scale".toList
  | field .bones => "vrd".toList
  | flag .skipBones => "no-vrd".toList
  | flag .keepName => "no-rename".toList
  | flag .assumeYes => "yes".toList
  | flag .colourless => "nocolour".toList

/-- The letter of an option, if it has one. -/
def letter? : Switch → Option Char
  | flag .help => some 'h'
  | field .scale => some 's'
  | flag .assumeYes => some 'y'
  | flag .colourless => some 'n'
  | _ => none

/-- The option of a letter. -/
def ofLetter? (c : Char) : Option Switch :=
  all.find? fun s => s.letter? == some c

/-- The options that a word in full can mean: the one that it spells, or all that it begins. -/
def candidates (word : Text) : List Switch :=
  match all.find? fun s => s.spelling == word with
  | some s => [s]
  | none => all.filter fun s => word.isPrefixOf s.spelling

end Switch

/-- The word behind which no word is an option. -/
def endOfOptions : Text := ['-', '-']

/-! ## 2. What a command line asks for -/

/-- The choices of a run.  `endOfOptions` is not a value: an option that has it attached counts as
given, and has nothing to work with. -/
structure Options where
  /-- The model script; without it the working directory is searched. -/
  script : Option Text := none
  /-- The new scale; without it the user is asked. -/
  scale : Option Text := none
  /-- The procedural-bones script, in place of the one that the model script names. -/
  bones : Option Text := none
  skipBones : Bool := false
  keepName : Bool := false
  assumeYes : Bool := false
  colourless : Bool := false
  deriving DecidableEq, Repr

/-- What a command line asks for. -/
inductive Invocation where
  | help
  | rescale (options : Options)
  deriving DecidableEq, Repr

/-- What is wrong with a command line. -/
inductive UsageError where
  /-- A word begins more than one option. -/
  | ambiguous (word : Text)
  /-- An option lacks its value. -/
  | lacksValue (field : Field)
  /-- An option that takes no value was given one. -/
  | unexpectedValue (flag : Flag)
  /-- Words are left over. -/
  | unrecognized
  deriving DecidableEq, Repr

/-! ## 3. Single words -/

/-- An option as it is given. -/
inductive Setting where
  | flag (flag : Flag)
  | field (field : Field) (value : Text)
  deriving DecidableEq, Repr

/-- The options that a word gives: those that have what they need, and perhaps one more, whose value
is the next word. -/
structure Given where
  settings : List Setting
  awaiting : Option Field
  deriving DecidableEq, Repr

/-- What a word is. -/
inductive Word where
  /-- No option. -/
  | operand
  /-- Options, unless one of them is given a value that it does not take. -/
  | options (given : Except UsageError Given)
  /-- Looks like an option, but is none. -/
  | unknown

namespace Word

/-- A letter and what is attached to it. -/
def ofLetter : Switch → Text → Except UsageError Given
  | .field f, [] => .ok ⟨[], some f⟩
  | .field f, t => .ok ⟨[.field f t], none⟩
  | .flag f, [] => .ok ⟨[.flag f], none⟩
  | .flag f, c :: t =>
    match Switch.ofLetter? c with
    | some next => (ofLetter next t).map fun g => { g with settings := .flag f :: g.settings }
    | none => .error (.unexpectedValue f)

/-- A letter and the value that stands behind an equals sign.  Behind a letter of an option without
a value, more letters can stand there. -/
def ofLetterEquals : Switch → Text → Except UsageError Given
  | .field f, t => .ok ⟨[.field f t], none⟩
  | .flag f, [] => .error (.unexpectedValue f)
  | .flag f, t => ofLetter (.flag f) t

/-- An option in full and the value attached to it. -/
def ofSwitch : Switch → Option Text → Except UsageError Given
  | .field f, some value => .ok ⟨[.field f value], none⟩
  | .field f, none => .ok ⟨[], some f⟩
  | .flag f, some _ => .error (.unexpectedValue f)
  | .flag f, none => .ok ⟨[.flag f], none⟩

/-- A number without its sign: digits, or digits behind a point and perhaps before it.  A newline at
the very end does not count. -/
def isUnsignedNumber (t : Text) : Bool :=
  let t := if t.getLast? = some '\n' then t.dropLast else t
  let (whole, rest) := t.span isDigit
  match rest with
  | [] => !whole.isEmpty
  | '.' :: fraction => !fraction.isEmpty && fraction.all isDigit
  | _ => false

/-- A word that begins like an option, but like none of those there are. -/
def ofUnknown (t : Text) : Word :=
  if t.contains ' ' then operand else unknown

/-- What a word is, on its own. -/
def read : Text → Except UsageError Word
  | '-' :: '-' :: t =>
    let (word, value?) :=
      match splitFirst? '=' t with
      | some (word, value) => (word, some value)
      | none => (t, none)
    match Switch.candidates word with
    | [] => .ok (ofUnknown t)
    | [s] => .ok (options (ofSwitch s value?))
    | _ => .error (.ambiguous word)
  | '-' :: c :: t =>
    match Switch.ofLetter? c, t with
    | some s, '=' :: value => .ok (options (ofLetterEquals s value))
    | some s, t => .ok (options (ofLetter s t))
    | none, t => .ok (if isUnsignedNumber (c :: t) then operand else ofUnknown (c :: t))
  | _ => .ok operand

end Word

/-! ## 4. Command lines -/

/-- The words of a command line, told apart. -/
structure Words where
  /-- Those up to the word behind which no word is an option. -/
  classified : List (Text × Word)
  /-- Those behind it, if it is there. -/
  operands : Option (List Text)

namespace Words

/-- Tells the words of a command line apart. -/
def classify : List Text → Except UsageError Words
  | [] => .ok ⟨[], none⟩
  | t :: rest =>
    if t = endOfOptions then .ok ⟨[], some rest⟩
    else do
      let word ← Word.read t
      let words ← classify rest
      pure { words with classified := (t, word) :: words.classified }

end Words

namespace Options

/-- The options with one more of them set; nothing when it asks for help. -/
def set? (o : Options) : Setting → Option Options
  | .flag .help => none
  | .flag .skipBones => some { o with skipBones := true }
  | .flag .keepName => some { o with keepName := true }
  | .flag .assumeYes => some { o with assumeYes := true }
  | .flag .colourless => some { o with colourless := true }
  | .field .scale value => some { o with scale := some value }
  | .field .bones value => some { o with bones := some value }

/-- The options once all words but those behind the end of options are used up.  One word can still
name the model script; `fresh` says that none has, and `leftOver` that some word had no use. -/
def finish (o : Options) (fresh leftOver : Bool) (operands : Option (List Text)) :
    Except UsageError Invocation :=
  match operands with
  | none => if leftOver then .error .unrecognized else .ok (.rescale o)
  | some operands =>
    match fresh && !leftOver, operands with
    | true, [] => .ok (.rescale o)
    | true, [script] => .ok (.rescale { o with script := some script })
    | _, _ => .error .unrecognized

/-- Takes the words of a command line in order.  The first that is no option names the model
script. -/
def scan (o : Options) (leftOver : Bool) (operands : Option (List Text)) :
    List (Text × Word) → Except UsageError Invocation
  | [] => o.finish o.script.isNone leftOver operands
  | (_, .unknown) :: rest => o.scan true operands rest
  | (name, .operand) :: rest =>
    if o.script.isSome then o.scan true operands rest
    else
      let named := { o with script := some name }
      if rest.isEmpty ∧ operands = some [] then named.finish true leftOver operands
      else named.scan leftOver operands rest
  | (_, .options (.error e)) :: _ => .error e
  | (_, .options (.ok ⟨settings, none⟩)) :: rest =>
    match settings.foldlM set? o with
    | none => .ok .help
    | some o => o.scan leftOver operands rest
  | (_, .options (.ok ⟨settings, some field⟩)) :: (value, .operand) :: rest =>
    match (settings ++ [Setting.field field value]).foldlM set? o with
    | none => .ok .help
    | some o => o.scan leftOver operands rest
  | (_, .options (.ok ⟨_, some field⟩)) :: _ => .error (.lacksValue field)

end Options

/-- What the words of a command line ask for. -/
def Invocation.read (words : List Text) : Except UsageError Invocation := do
  let words ← Words.classify words
  Options.scan {} false words.operands words.classified

end ModelScale
