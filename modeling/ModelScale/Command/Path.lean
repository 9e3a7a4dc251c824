import ModelScale.Text.Search

/-!
# Paths

A path says where it starts and which steps it takes from there.  Empty steps and steps to the same
directory are dropped on reading; steps to the parent directory stay, since what they lead to is a
matter of the disk.  A first step with a tilde in front stands for the home directory of a user, but
only where it is looked up as such (`expand?`).
-/

namespace ModelScale

open Text

/-- Where a path starts. -/
inductive Anchor where
  /-- In the working directory, of which nothing is written. -/
  | here
  /-- At the root.  Two slashes in front of a path are kept apart from one. -/
  | root (doubled : Bool)
  deriving DecidableEq, Repr

/-- A path. -/
structure Path where
  anchor : Anchor
  steps : List Text
  deriving DecidableEq, Repr

namespace Path

/-! ## 1. Reading and writing -/

/-- The step to the parent directory. -/
def up : Text := ['.', '.']

/-- The steps between the slashes of a text. -/
def stepsOf (t : Text) : List Text :=
  (splitAt '/' t).filter fun step => !step.isEmpty && step != ['.']

/-- The path that a text spells. -/
def ofText (t : Text) : Path :=
  let anchor :=
    match (t.takeWhile (· == '/')).length with
    | 0 => .here
    | n => .root (n == 2)
  ⟨anchor, stepsOf t⟩

/-- The text of a path. -/
def toText (p : Path) : Text :=
  let steps := join ['/'] p.steps
  match p.anchor with
  | .here => if p.steps.isEmpty then ['.'] else steps
  | .root doubled => (if doubled then ['/', '/'] else ['/']) ++ steps

/-! ## 2. Parts -/

/-- The last step, which names the file. -/
def name (p : Path) : Text :=
  p.steps.getLast?.getD []

/-- The path without its last step. -/
def parent (p : Path) : Path :=
  { p with steps := p.steps.dropLast }

/-- A path read in the directory of another: one that starts at the root stays as it is. -/
def child (p q : Path) : Path :=
  match q.anchor with
  | .here => { p with steps := p.steps ++ q.steps }
  | .root _ => q

/-! ## 3. Home directories -/

/-- The path of a home directory, as the system spells it.  Slashes at the end do not count.  There
is no path where the spelling starts with a tilde again. -/
def ofHome? (spelling : Text) : Option Path :=
  let bare := (spelling.reverse.dropWhile (· == '/')).reverse
  match bare with
  | [] => some (ofText ['/'])
  | '~' :: _ => none
  | _ => some (ofText bare)

/-- The path with a home directory in place of a first step that has a tilde in front.  Behind the
tilde stands the name of the user; without a name it is the user who asks. -/
def expand? (homes : Text → Option Text) (p : Path) : Option Path :=
  match p.anchor, p.steps with
  | .here, ('~' :: user) :: steps =>
    ((homes user).bind ofHome?).map fun home => { home with steps := home.steps ++ steps }
  | _, _ => some p

end Path

end ModelScale
