import ModelScale.Command.Path
import ModelScale.Roster
import ModelScale.Text.Bytes
import ModelScale.Text.Quoted

/-!
# Disks

A disk holds files and directories, each at a route: the names of the directories on the way from
the root and its own.  One of the directories is the one that a run works in, and the users have
their home directories.  A path is followed step by step, and each step starts from a directory that
exists, so that a step back is not a matter of text.  Names and paths must not be too long, which
shows when a step is taken.  Writing changes what one route holds and nothing else.
-/

namespace ModelScale

open Text

/-! ## 1. Errors -/

/-- Why a file could not be read or written. -/
inductive DiskError where
  /-- There is no such file, or a directory on the way does not exist. -/
  | missing
  /-- A step of the path starts from a file. -/
  | notADirectory
  /-- The path leads to a directory. -/
  | isADirectory
  /-- The path, or the name of a step, is too long. -/
  | nameTooLong
  /-- The path holds a null character, which no path can. -/
  | nullInPath
  /-- Anything else that the system reports. -/
  | other (code : Nat) (reason : Text)
  deriving DecidableEq, Repr

namespace DiskError

/-- The number by which the system knows an error. -/
def code : DiskError → Nat
  | missing => 2
  | notADirectory => 20
  | isADirectory => 21
  | nameTooLong => 36
  | nullInPath => 22
  | other code _ => code

/-- What the system says about an error. -/
def reason : DiskError → Text
  | missing => "No such file or directory".toList
  | notADirectory => "Not a directory".toList
  | isADirectory => "Is a directory".toList
  | nameTooLong => "File name too long".toList
  | nullInPath => "Invalid argument".toList
  | other _ reason => reason

/-- What is said about an error at a path. -/
def message (e : DiskError) (path : Path) : Text :=
  "[Errno ".toList ++ Nat.toDigits 10 e.code ++ "] ".toList ++ e.reason ++ ": ".toList ++
    quoteDecoded path.toText

end DiskError

/-! ## 2. The tree -/

/-- What a route leads to. -/
inductive Node where
  | file (content : Bytes)
  | directory
  deriving DecidableEq, Repr

/-- The names that lead from the root to a node. -/
abbrev Route : Type := List Text

/-- Files and directories by their routes, and what a path can start from. -/
structure Disk where
  nodes : Roster Route Node
  /-- The directory that a run works in. -/
  workingDirectory : Route := []
  /-- The home directories of the users, as the system spells them.  The user who runs the program
  goes without a name. -/
  homes : Roster Text Text := ∅
  deriving Repr

namespace Disk

instance : EmptyCollection Disk := ⟨{ nodes := ∅ }⟩

/-- What is at a route.  The working directory exists, and so do the directories on the way to it
from the root. -/
def node? (d : Disk) (route : Route) : Option Node :=
  if route <+: d.workingDirectory then some .directory else d.nodes.get? route

/-- The disk with a node at a route. -/
def put (d : Disk) (route : Route) (node : Node) : Disk :=
  { d with nodes := d.nodes.put route node }

/-- The files with their contents, in no particular order. -/
def files (d : Disk) : List (Route × Bytes) :=
  d.nodes.entries.filterMap fun
    | (route, .file content) => some (route, content)
    | (_, .directory) => none

/-- The path of the working directory. -/
def workingPath (d : Disk) : Path :=
  ⟨.root false, d.workingDirectory⟩

/-- The names of the files in the working directory itself. -/
def names (d : Disk) : List Text :=
  d.files.filterMap fun (route, _) =>
    if route.dropLast = d.workingDirectory then route.getLast? else none

/-! ## 3. Following a path -/

/-- The path with a home directory in place of a first step that has a tilde in front. -/
def expand? (d : Disk) (path : Path) : Option Path :=
  path.expand? d.homes.get?

/-- The most bytes that a name may have. -/
def nameLimit : Nat := 255

/-- The most bytes that a path may have. -/
def pathLimit : Nat := 4095

/-- Takes the steps of a path, each from a directory.  The root is its own parent. -/
def follow (d : Disk) : Route → List Text → Except DiskError Route
  | route, [] => .ok route
  | route, step :: steps =>
    match d.node? route with
    | none => .error .missing
    | some (.file _) => .error .notADirectory
    | some .directory =>
      if nameLimit < byteLength step then .error .nameTooLong
      else d.follow (if step = Path.up then route.dropLast else route ++ [step]) steps

/-- Where a path starts. -/
def start (d : Disk) : Anchor → Route
  | .here => d.workingDirectory
  | .root _ => []

/-- Where a path leads on a disk. -/
def locate (d : Disk) (path : Path) : Except DiskError Route :=
  if path.toText.contains '\x00' then .error .nullInPath
  else if pathLimit < byteLength path.toText then .error .nameTooLong
  else d.follow (d.start path.anchor) path.steps

/-! ## 4. Reading and writing -/

/-- The contents of the file that a path leads to. -/
def read (d : Disk) (path : Path) : Except DiskError Bytes := do
  let route ← d.locate path
  match d.node? route with
  | some (.file content) => .ok content
  | some .directory => .error .isADirectory
  | none => .error .missing

/-- Whether a path leads to a file.  With a name that is too long there is no telling; any other
error is a no. -/
def isFile (d : Disk) (path : Path) : Except DiskError Bool :=
  match d.read path with
  | .ok _ => .ok true
  | .error .nameTooLong => .error .nameTooLong
  | .error _ => .ok false

/-- The disk with other contents in the file that a path leads to.  The file need not exist, but its
directory must. -/
def write (d : Disk) (path : Path) (content : Bytes) : Except DiskError Disk := do
  let route ← d.locate path
  match d.node? route with
  | some .directory => .error .isADirectory
  | _ => .ok (d.put route (.file content))

/-! ## 5. What a write changes -/

/-- A route holds what was put there, and every other route what it held. -/
theorem node?_put {d : Disk} {route : Route} {node : Node} (h : ¬ route <+: d.workingDirectory)
    (r : Route) : (d.put route node).node? r = if r = route then some node else d.node? r := by
  simp only [node?, put, Roster.get?_put]
  by_cases hr : r <+: d.workingDirectory
  · have hne : r ≠ route := by
      rintro rfl
      exact h hr
    rw [if_pos hr, if_neg hne, if_pos hr]
  · rw [if_neg hr, if_neg hr]

end Disk

end ModelScale
