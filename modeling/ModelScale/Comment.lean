import ModelScale.Text.Search

/-!
# Comments

Scripts have two kinds of comment: from two slashes to the end of the line, and blocks between a
slash with a star and a star with a slash, which may run over lines.  Lines are read in order and
the region at the end of one is where the next one begins.

Whether a line counts is decided for the line as a whole.  A line is *inert* when it begins inside a
block or with a comment; only on the other lines, the live ones, are directives looked for.
-/

namespace ModelScale

/-- Where a line begins: in code, or inside a block comment. -/
inductive Region where
  | code
  | block
  deriving DecidableEq, Repr

namespace Comment

open Text

/-! ## 1. One line -/

/-- What opens a block comment. -/
def blockOpen : Text := ['/', '*']

/-- What closes a block comment. -/
def blockClose : Text := ['*', '/']

/-- What opens a comment that runs to the end of the line. -/
def lineOpen : Text := ['/', '/']

/-- A delimiter of two characters lies wholly inside the text it is found in. -/
theorem indexOf?_add_two_le {piece t : Text} {i : Nat} (hp : piece.length = 2)
    (h : indexOf? piece t = some i) : i + 2 ≤ t.length := by
  induction t generalizing i with
  | nil =>
    simp only [indexOf?] at h
    split at h
    · simp_all
    · cases h
  | cons c t ih =>
    simp only [indexOf?] at h
    split at h
    · rename_i hpre
      have := (List.isPrefixOf_iff_prefix.1 hpre).length_le
      simp at h
      omega
    · obtain ⟨j, hj, rfl⟩ := Option.map_eq_some_iff.1 h
      have := ih hj
      simp
      omega

/-- The region at the end of a text that begins in the given region.  Outside a block the next
opening counts unless a line comment begins before it; inside, only the next closing counts. -/
def regionAfter (start : Region) (t : Text) : Region :=
  match start with
  | .block =>
    match h : indexOf? blockClose t with
    | none => .block
    | some i => regionAfter .code (t.drop (i + 2))
  | .code =>
    match h : indexOf? blockOpen t with
    | none => .code
    | some i =>
      if (indexOf? lineOpen t).any (· < i) then .code else regionAfter .block (t.drop (i + 2))
termination_by t.length
decreasing_by
  all_goals
    have := indexOf?_add_two_le rfl h
    simp
    omega

/-- The region at the end of a line.  A line that starts with a line comment opens nothing. -/
def advance (start : Region) (line : Text) : Region :=
  match start with
  | .block => regionAfter .block line
  | .code => if lineOpen.isPrefixOf (trimStart line) then .code else regionAfter .code line

/-- The line begins inside a block, or with a comment. -/
def inert (start : Region) (line : Text) : Bool :=
  match start with
  | .block => true
  | .code => lineOpen.isPrefixOf (trimStart line) || blockOpen.isPrefixOf (trimStart line)

/-! ## 2. All lines -/

/-- The lines that count, in their places; inert lines leave a gap. -/
def liveLines (start : Region) : List Text → List (Option Text)
  | [] => []
  | line :: rest =>
    (if inert start line then none else some line) :: liveLines (advance start line) rest

/-- What a reader makes of the first live line that it accepts, with the index of that line. -/
def firstLive? {α : Type} (read? : Text → Option α) (lines : List Text) : Option (Nat × α) :=
  (liveLines .code lines).zipIdx.findSome? fun (line?, i) =>
    (line?.bind read?).map fun a => (i, a)

/-- Everything that a reader finds on live lines, each with its line number. -/
def collectLive {α : Type} (read : Text → List α) (lines : List Text) : List (Nat × α) :=
  (liveLines .code lines).zipIdx.flatMap fun (line?, i) =>
    (line?.elim [] read).map fun a => (i + 1, a)

@[simp] theorem liveLines_length (start : Region) (lines : List Text) :
    (liveLines start lines).length = lines.length := by
  induction lines generalizing start with
  | nil => rfl
  | cons line rest ih => simp [liveLines, ih]

end Comment

end ModelScale
