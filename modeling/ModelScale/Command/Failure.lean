import ModelScale.Command.Arguments
import ModelScale.Command.Disk
import ModelScale.Command.Output
import ModelScale.Qc.Request
import ModelScale.Vrd.Rescale

/-!
# Failures

The ways in which a run ends early, each with its exit code and with what is said about it.
-/

namespace ModelScale

/-- Why a run ends early. -/
inductive Failure where
  /-- The model script that was asked for does not exist. -/
  | noScript (path : Path)
  /-- There is no model script in the working directory. -/
  | noScripts (directory : Path)
  /-- The procedural-bones script that was asked for does not exist. -/
  | noBones (path : Path)
  /-- A file is gone. -/
  | missing (path : Path)
  | unreadable (path : Path) (error : DiskError)
  | unwritable (path : Path) (error : DiskError)
  /-- The system would not tell whether a path leads to a file. -/
  | unlocated (path : Path) (error : DiskError)
  /-- A path holds a null character. -/
  | nullInPath
  /-- The home directory that a path starts with is not known. -/
  | homeless
  /-- A file holds nothing but blanks. -/
  | empty (path : Path)
  /-- The user did not want to go on. -/
  | declined
  /-- An option was given without a value to work with. -/
  | valueless (field : Field)
  /-- The scale that was asked for is refused. -/
  | refused (reason : Refusal)
  | mismatch (mismatch : Mismatch)
  | fault (fault : Fault)
  /-- The input ended where an answer was expected. -/
  | endOfInput
  /-- The output did not take a text. -/
  | unsaid (fault : OutputFault)
  deriving DecidableEq, Repr

namespace Failure

/-- The failure that a refused or failed request makes. -/
def ofRequest : RequestError → Failure
  | .refused reason => refused reason
  | .fault f => fault f

/-- The failure that a failed rescale of procedural bones makes. -/
def ofBones : BonesError → Failure
  | .mismatch m => mismatch m
  | .fault f => fault f

/-- The failure that an error on reading a file makes. -/
def ofRead (path : Path) : DiskError → Failure
  | .missing => missing path
  | .nullInPath => nullInPath
  | error => unreadable path error

/-- The failure that an error on writing a file makes. -/
def ofWrite (path : Path) : DiskError → Failure
  | .nullInPath => nullInPath
  | error => unwritable path error

/-- The exit code of a run that ends in a failure. -/
def exitCode : Failure → Nat
  | missing _ | unlocated _ _ | nullInPath | homeless | valueless _ | refused _ | fault _
  | endOfInput | unsaid _ => 1
  | declined => 2
  | noScript _ | noScripts _ => 3
  | empty _ => 4
  | noBones _ | unreadable _ _ | unwritable _ _ => 5
  | mismatch _ => 6

/-- What a failure says. -/
def message : Failure → Text
  | noScript path => "QC file not found - ".toList ++ path.toText
  | noScripts directory => "No .qc files found in ".toList ++ directory.toText
  | noBones path => "VRD file not found - ".toList ++ path.toText
  | missing path => DiskError.missing.message path
  | unreadable path error =>
    "Cannot read '".toList ++ path.toText ++ "': ".toList ++ error.message path
  | unwritable path error =>
    "Cannot write '".toList ++ path.toText ++ "': ".toList ++ error.message path
  | unlocated path error => error.message path
  | nullInPath => "embedded null byte".toList
  | homeless => "Could not determine home directory.".toList
  | empty path => "File '".toList ++ path.toText ++ "' is empty".toList
  | declined => "Rescale cancelled, no files were changed.".toList
  | valueless .scale => "'list' object has no attribute 'strip'".toList
  | valueless .bones => "expected str, bytes or os.PathLike object, not list".toList
  | refused reason => reason.message
  | mismatch m => m.message
  | fault f => f.message
  | endOfInput => "EOF when reading a line".toList
  | unsaid f => f.message

/-- The kind of a failure that no run should meet. -/
def unexpectedKind? : Failure → Option Text
  | missing _ => some "FileNotFoundError".toList
  | unlocated _ _ => some "OSError".toList
  | nullInPath => some "ValueError".toList
  | homeless => some "RuntimeError".toList
  | valueless .scale => some "AttributeError".toList
  | valueless .bones => some "TypeError".toList
  | fault f => some f.kind
  | endOfInput => some "EOFError".toList
  | unsaid f => some f.kind
  | _ => none

/-- What to do about a marker block that does not fit its script. -/
def mismatchAdvice : Text :=
  ("The .vrd file was edited after its normalization block was written. " ++
    "Delete the block starting at '// QCSCALE_NORMALIZATION_DATA', restore " ++
    "the values for the current $scale and run again. The QC file was " ++
    "already updated.").toList

/-- What is reported when a run ends in a failure. -/
def report (failure : Failure) : List Message :=
  match failure with
  | declined => [.warning failure.message]
  | mismatch _ => [.error failure.message, .info mismatchAdvice]
  | _ =>
    match failure.unexpectedKind? with
    | some kind =>
      [.error ("Unexpected ".toList ++ kind ++ ": ".toList ++ failure.message)]
    | none => [.error failure.message]

end Failure

end ModelScale
