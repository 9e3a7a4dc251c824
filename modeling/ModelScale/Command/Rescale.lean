import ModelScale.Command.Arguments
import ModelScale.Command.Dialogue
import ModelScale.Qc.Reference
import ModelScale.Report.Summary

/-!
# The rescale command

One rescale from start to end: a model script is chosen and read, the user is warned and asked, and
only when everything that can be known beforehand is known the scripts are written, the model script
first.  `rescale` is the dialogue, `runCommand` carries it out and turns a failure into an exit code
and a report.  A home directory is put in where a script is named on the command line, and again
where a script is opened.
-/

namespace ModelScale

open Text

namespace Dialogue

/-! ## 1. Documents -/

/-- The value of a calculation with decimals. -/
def ofFault {α : Type} : Except Fault α → Dialogue α :=
  ofExcept .fault

/-- A path with the home directory that it starts with, if it starts with one. -/
def expanded (path : Path) : Dialogue Path :=
  .expand path fun
    | some p => .done p
    | none => .fail .homeless

/-- Reads a file that is not empty. -/
def openDocument (path : Path) : Dialogue Document := do
  let path ← expanded path
  .read path fun
    | .ok bytes => (Document.ofBytes? bytes).elim (.fail (.empty path)) .done
    | .error e => .fail (.ofRead path e)

/-- Writes a file. -/
def saveDocument (path : Path) (document : Document) : Dialogue Unit := do
  let path ← expanded path
  .write path document.toBytes fun
    | .ok () => .done ()
    | .error e => .fail (.ofWrite path e)

/-- Finds out whether a path leads to a file. -/
def findsFile (path : Path) : Dialogue Bool :=
  .isFile path fun
    | .ok found => .done found
    | .error e => .fail (.unlocated path e)

/-- Rescales a procedural-bones script and, on demand, writes it if a line of it changed. -/
def rescaleBonesDocument (path : Path) (document : Document) (new previous : Quantity)
    (writes : Bool) : Dialogue RescaledBones := do
  let r ← ofExcept .ofBones (rescaleBones {} document.lines new previous)
  if writes && r.lines != document.lines then saveDocument path (document.withLines r.lines)
  pure r

/-! ## 2. Questions -/

/-- The answer to a question of yes or no.  No answer is a yes. -/
def confirmation? (answer : Text) : Option Bool :=
  if answer.isEmpty then some true
  else
    match (trim answer).map Char.toLower with
    | ['y'] => some true
    | ['n'] => some false
    | _ => none

/-- A question of yes or no. -/
def confirmQuestion (question : String) : Question where
  prompt := question.toList ++ " [y/n] (y): ".toList
  refusal answer :=
    if (confirmation? answer).isSome then none
    else some (.text "Please enter Y or N".toList)

/-- Asks for a yes, unless every yes was given beforehand. -/
def confirm (options : Options) (question : String) : Dialogue Bool :=
  if options.assumeYes then .done true
  else .ask (confirmQuestion question) fun answer => .done ((confirmation? answer).getD true)

/-- The question for a new scale. -/
def newScaleQuestion (settings : Settings) (previous : Decimal) : Question where
  prompt := scaleQuestion previous ++ ": ".toList
  refusal answer :=
    match acceptScale settings answer previous with
    | .error (.refused reason) => some (.error reason.message)
    | _ => none

/-- The number, counted from zero, that an answer picks among `count` things.  No answer picks the
first. -/
def choice? (count : Nat) (answer : Text) : Option Nat :=
  if answer.isEmpty then some 0
  else (List.range count).find? fun i => Decimal.digits (i + 1) == trim answer

/-- The question which of `count` model scripts is meant. -/
def whichScriptQuestion (count : Nat) : Question where
  prompt :=
    "Which QC file [".toList ++
      join ['/'] ((List.range count).map fun i => Decimal.digits (i + 1)) ++ "] (1): ".toList
  refusal answer :=
    if (choice? count answer).isSome then none
    else some (.text "Please select one of the available options".toList)

/-! ## 3. The model script -/

/-- The name of a model script: its extension is `qc` in letters of either case, behind at least one
character. -/
def isScriptName (name : Text) : Bool :=
  match splitLast? '.' name with
  | some (stem, extension) => !stem.isEmpty && extension.map Char.toLower == "qc".toList
  | none => false

/-- The model scripts among some files, in the order of their characters. -/
def scriptNames (names : List Text) : List Text :=
  (names.filter isScriptName).mergeSort fun a b => !List.lex b a fun c d => c.toNat.blt d.toNat

/-- The line of a list that shows a model script under its number. -/
def listed (name : Text) (number : Nat) : Message :=
  .styled .margin (Message.inColumn 3 number ++ [':']) ++ .text [' '] ++ .styled .neutral name

/-- Finds the model script: the one that was named, or the one in the working directory, or the one
that the user picks there. -/
def chooseScript (options : Options) : Dialogue Path :=
  match options.script with
  | some name => do
    let path ← expanded (.ofText name)
    if ← findsFile path then pure path else .fail (.noScript path)
  | none =>
    .names fun directory names =>
      match scriptNames names with
      | [] => .fail (.noScripts directory)
      | [name] => .done (directory.child ⟨.here, [name]⟩)
      | several => do
        sayAll (several.zipIdx.map fun (name, i) => listed name (i + 1))
        .ask (whichScriptQuestion several.length) fun answer =>
          let name := several[(choice? several.length answer).getD 0]?.getD []
          .done (directory.child ⟨.here, [name]⟩)

/-! ## 4. The request -/

/-- Warns of flex animations, which keep their size, and asks whether to go on. -/
def checkFlexes (options : Options) (lines : List Text) : Dialogue Unit :=
  match Reference.flexes lines with
  | [] => .done ()
  | references => do
    sayAll (Summary.flexes references)
    if !(← confirm options "Continue anyway?") then .fail .declined

/-- The request for the new scale that was given, or for one that the user gives. -/
def requestScale (settings : Settings) (options : Options) (previous : Decimal) :
    Dialogue Request :=
  match options.scale with
  | some answer =>
    if answer = endOfOptions then .fail (.valueless .scale)
    else ofExcept .ofRequest (acceptScale settings answer previous)
  | none =>
    .ask (newScaleQuestion settings previous) fun answer =>
      ofExcept .ofRequest (acceptScale settings answer previous)

/-- Says which script is scaled to what. -/
def announce (settings : Settings) (name : Text) (request : Request) : Dialogue Unit := do
  if ← ofFault (request.risksRounding settings) then
    sayAll [.warning
      "Scales this small can introduce visible rounding errors in the QC values.".toList]
  let factor ← ofFault request.shownRelative
  sayAll [.info ("Scaling ".toList ++ name ++ " to ".toList ++ request.shownNew ++ " (x".toList ++
    factor ++ " of the current size)".toList)]

/-- Decides whether the model name gets the scale. -/
def decideRename (options : Options) (lines : List Text) : Dialogue Bool :=
  if options.keepName then .done false
  else if (Comment.firstLive? ModelName.read? lines).isNone then
    .say (.warning "No $modelname found, the model name was not changed.".toList) (.done false)
  else confirm options "Add the scale to the $modelname file name?"

/-! ## 5. The procedural bones -/

/-- The path of a script that the model script refers to: next to the model script, with slashes of
either kind between its steps. -/
def referred (script : Path) (reference : Text) : Path :=
  script.parent.child (.ofText (reference.map fun c => if c = '\\' then '/' else c))

/-- Finds the procedural-bones script: the one that was named, or the one that the model script
names, next to the model script. -/
def findBones (options : Options) (script : Path) (lines : List Text) : Dialogue (Option Path) :=
  if options.skipBones then .done none
  else
    match options.bones with
    | some name =>
      if name = endOfOptions then .fail (.valueless .bones)
      else do
        let path ← expanded (.ofText name)
        if ← findsFile path then pure (some path) else .fail (.noBones path)
    | none =>
      match Reference.proceduralBones? lines with
      | none =>
        .say (.info "No $proceduralbones in the QC, no .vrd file to rescale.".toList) (.done none)
      | some reference => do
        let path := referred script reference
        if ← findsFile path then pure (some path)
        else
          .say (.warning ("$proceduralbones file ".toList ++ reference ++
            " was not found next to the QC, skipped.".toList)) (.done none)

/-- A file with what was read from it. -/
abbrev Opened : Type := Path × Document

/-- Reads the procedural-bones script, if there is one. -/
def openBones : Option Path → Dialogue (Option Opened)
  | none => .done none
  | some path => do
    let document ← openDocument path
    pure (some (path, document))

/-! ## 6. Writing -/

/-- Reports on the rescale of the model script, and on the numbers in it that stay as they are. -/
def reportModel (result : RescaledScript) (request : Request) : Dialogue Unit := do
  sayAll (← ofFault (Summary.script result request))
  match ← ofFault (Reference.eyelidSplits result.lines) with
  | [] => pure ()
  | splits => sayAll (Summary.eyelidSplits splits)

/-- Rescales the model script and reports on it. -/
def rescaleModel (settings : Settings) (path : Path) (document : Document)
    (request : Request) (rename : Bool) : Dialogue Unit := do
  let result ← ofFault (rescaleScript settings document.lines request rename)
  saveDocument path (document.withLines result.lines)
  reportModel result request

/-- Rescales the procedural-bones script, if there is one, and reports on it. -/
def rescaleOpened (request : Request) : Option Opened → Dialogue Unit
  | none => .done ()
  | some (path, document) => do
    sayAll [.info ("Rescaling procedural bones in ".toList ++ path.name)]
    let r ← rescaleBonesDocument path document request.new request.previous true
    sayAll (Summary.bones r)

/-! ## 7. The whole run -/

/-- One rescale from start to end.  The procedural-bones script is read before the model script is
written, so that one that cannot be read ends the run before anything changes. -/
def rescale (options : Options) : Dialogue Unit := do
  let settings : Settings := {}
  let path ← chooseScript options
  let document ← openDocument path
  checkFlexes options document.lines
  let previous ← ofFault (scaleInForce settings document.lines)
  let request ← requestScale settings options previous
  announce settings path.name request
  let rename ← decideRename options document.lines
  let bones ← openBones (← findBones options path document.lines)
  rescaleModel settings path document request rename
  rescaleOpened request bones

end Dialogue

/-- Runs the rescale command: the exit code, and the session after it.  A failure has a report, and
if the output does not take that, there is no exit code. -/
def runCommand (options : Options) (session : Session) : Except OutputFault Nat × Session :=
  match (Dialogue.rescale options).run session with
  | (.ok (), s) => (.ok 0, s)
  | (.error failure, s) =>
    match s.sayAll failure.report with
    | (none, t) => (.ok failure.exitCode, t)
    | (some fault, t) => (.error fault, t)

end ModelScale
