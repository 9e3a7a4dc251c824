import ModelScale.Command.Rescale

/-!
# The program

Carries out the rescale command on the terminal and the files of the system.  Text comes in as
bytes, and goes out as UTF-8 or not at all; colours are used where the output is a terminal, unless
the command line forbids them.
-/

namespace ModelScale.Program

open Text

/-! ## 1. Bytes -/

/-- The text of a string. -/
def textOf (s : String) : Text :=
  decode s.toUTF8.toList

/-- The string under which the system knows a path. -/
def nameOf (path : Path) : String :=
  String.ofList path.toText

/-- Writes a text to the output, unless it cannot be written: then what was in the way. -/
def put (t : Text) : IO (Option OutputFault) := do
  if let some fault := Output.strayBytes? t then return some fault
  try
    let output ← IO.getStdout
    output.write ⟨(encode t).toArray⟩
    output.flush
    pure none
  catch e => pure (some ⟨"OSError".toList, (toString e).toList⟩)

/-- Writes some messages in order, up to one that cannot be written. -/
def putAll (render : Message → Text) : List Message → IO (Option OutputFault)
  | [] => pure none
  | message :: rest => do
    match ← put (render message ++ ['\n']) with
    | none => putAll render rest
    | some fault => pure (some fault)

/-! ## 2. Files -/

/-- An error of the system by its number, which some calls give with the opposite sign. -/
def errorOfCode (code : UInt32) (reason : String) : DiskError :=
  match min code (0 - code) with
  | 20 => .notADirectory
  | 21 => .isADirectory
  | 36 => .nameTooLong
  | code => .other code.toNat reason.toList

/-- An error of the system. -/
def diskError : IO.Error → DiskError
  | .noFileOrDirectory _ _ _ => .missing
  | .inappropriateType _ code reason | .permissionDenied _ code reason
  | .invalidArgument _ code reason => errorOfCode code reason
  | e => .other 0 (toString e).toList

/-- Does something with the file that a path leads to.  A path with a null character leads
nowhere. -/
def withFile {α : Type} (path : Path) (act : String → IO α) : IO (Except DiskError α) := do
  if path.toText.contains '\x00' then return .error .nullInPath
  try
    let result ← act (nameOf path)
    pure (.ok result)
  catch e => pure (.error (diskError e))

/-- The bytes of a file. -/
def readBytes (path : Path) : IO (Except DiskError Bytes) :=
  withFile path fun name => do
    let bytes ← IO.FS.readBinFile name
    pure bytes.toList

/-- Puts bytes into a file. -/
def writeBytes (path : Path) (content : Bytes) : IO (Except DiskError Unit) :=
  withFile path fun name => IO.FS.writeBinFile name ⟨content.toArray⟩

/-- Whether a path leads to a file that can be read. -/
def isFile (path : Path) : IO (Except DiskError Bool) := do
  match ← readBytes path with
  | .ok _ => pure (.ok true)
  | .error .nameTooLong => pure (.error .nameTooLong)
  | .error _ => pure (.ok false)

/-- The path of the working directory. -/
def workingPath : IO Path := do
  let directory ← IO.currentDir
  pure (.ofText (textOf directory.toString))

/-- The names of the files in the working directory. -/
def names : IO (List Text) := do
  let entries ← (← IO.currentDir).readDir
  let all := entries.toList.map fun entry => textOf entry.fileName
  all.filterM fun name => do
    let found ← isFile ⟨.here, [name]⟩
    pure (found.toOption.getD false)

/-- A user and a home directory, from a line of the list of users. -/
def homeOfLine (line : Text) : Option (Text × Text) :=
  match splitAt ':' line with
  | [user, _, _, _, _, home, _] => some (user, home)
  | _ => none

/-- The home directories of the users.  That of the user who runs the program is told by the
environment. -/
def homes : IO (Text → Option Text) := do
  let listed ← readBytes (.ofText "/etc/passwd".toList)
  let lines := splitAt '\n' (decode (listed.toOption.getD []))
  let own ← IO.getEnv "HOME"
  let known := lines.filterMap homeOfLine
  pure fun user => if user.isEmpty then own.map textOf else known.lookup user

/-! ## 3. Dialogues -/

/-- Asks until an answer is not refused. -/
partial def pose (render : Message → Text) (q : Question) : IO (Except Failure Text) := do
  if let some fault ← put q.prompt then return .error (.unsaid fault)
  let line ← (← IO.getStdin).getLine
  if line.isEmpty then return .error .endOfInput
  let answer := textOf line
  let answer := if answer.getLast? = some '\n' then answer.dropLast else answer
  match q.refusal answer with
  | none => return .ok answer
  | some message =>
    if let some fault ← put (render message ++ ['\n']) then return .error (.unsaid fault)
    pose render q

/-- Carries out a dialogue. -/
def perform {α : Type} (render : Message → Text) : Dialogue α → IO (Except Failure α)
  | .done a => pure (.ok a)
  | .fail failure => pure (.error failure)
  | .say message next => do
    match ← put (render message ++ ['\n']) with
    | none => perform render next
    | some fault => pure (.error (.unsaid fault))
  | .ask q next => do
    match ← pose render q with
    | .ok answer => perform render (next answer)
    | .error failure => pure (.error failure)
  | .expand path next => do perform render (next (path.expand? (← homes)))
  | .isFile path next => do perform render (next (← isFile path))
  | .names next => do perform render (next (← workingPath) (← names))
  | .read path next => do perform render (next (← readBytes path))
  | .write path content next => do perform render (next (← writeBytes path content))

/-! ## 4. Command lines -/

/-- How the command is called. -/
def usage : String :=
  "usage: modelscale [-h] [-s SCALE] [--vrd VRD] [--no-vrd] [--no-rename] [-y] [-n] [filename]"

/-- What is wrong with a command line. -/
def complaint : UsageError → String
  | .ambiguous word => "ambiguous option: --" ++ String.ofList word
  | .lacksValue field =>
    "argument --" ++ String.ofList (Switch.field field).spelling ++ ": expected one argument"
  | .unexpectedValue flag =>
    "argument --" ++ String.ofList (Switch.flag flag).spelling ++ ": ignored explicit argument"
  | .unrecognized => "unrecognized arguments"

/-- Runs the rescale command.  A report that cannot be written makes a failure of its own. -/
def rescale (options : Options) : IO UInt32 := do
  let coloured := !options.colourless && (← (← IO.getStdout).isTty)
  let render := if coloured then Message.coloured else Message.plain
  match ← perform render (Dialogue.rescale options) with
  | .ok () => pure 0
  | .error failure =>
    match ← putAll render failure.report with
    | none => pure failure.exitCode.toUInt32
    | some fault =>
      IO.eprintln (String.ofList (fault.kind ++ ": ".toList ++ fault.message))
      pure 1

end ModelScale.Program

/-- Reads the command line and does what it asks for. -/
def main (words : List String) : IO UInt32 := do
  match ModelScale.Invocation.read (words.map ModelScale.Program.textOf) with
  | .ok (.rescale options) => ModelScale.Program.rescale options
  | .ok .help =>
    IO.println ModelScale.Program.usage
    pure 0
  | .error e =>
    IO.eprintln ModelScale.Program.usage
    IO.eprintln ("modelscale: error: " ++ ModelScale.Program.complaint e)
    pure 2
