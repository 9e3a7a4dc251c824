import ModelScale.Text.Blank

/-!
# Finding and cutting

Looking for a piece of text, cutting a text at a character, and the rule on line ends: a pattern
that runs to the end of a line stops before a newline, and that newline may only be the last
character.
-/

namespace ModelScale.Text

/-- Where a piece first occurs: the number of characters before it. -/
def indexOf? (piece : Text) : Text → Option Nat
  | [] => if piece.isEmpty then some 0 else none
  | c :: t => if piece.isPrefixOf (c :: t) then some 0 else (indexOf? piece t).map (· + 1)

/-- The piece occurs somewhere in the text. -/
def occurs (piece t : Text) : Bool :=
  (indexOf? piece t).isSome

/-- The text before and after the first occurrence of a character. -/
def splitFirst? (d : Char) : Text → Option (Text × Text)
  | [] => none
  | c :: t => if c = d then some ([], t) else (splitFirst? d t).map fun (a, b) => (c :: a, b)

/-- The text before and after the last occurrence of a character. -/
def splitLast? (d : Char) : Text → Option (Text × Text)
  | [] => none
  | c :: t =>
    match splitLast? d t with
    | some (a, b) => some (c :: a, b)
    | none => if c = d then some ([], t) else none

/-- The pieces between the occurrences of a character; there is one more than occurrences. -/
def splitAt (d : Char) : Text → List Text
  | [] => [[]]
  | c :: t =>
    if c = d then [] :: splitAt d t
    else match splitAt d t with
      | piece :: rest => (c :: piece) :: rest
      | [] => [[c]]

/-- The text up to the end of its line.  A newline ends the line and must be the last character;
there is no answer when text follows it. -/
def restOfLine? : Text → Option Text
  | [] => some []
  | ['\n'] => some []
  | c :: t => if c = '\n' then none else (restOfLine? t).map (c :: ·)

/-- What may follow the last field of a line: nothing, or a blank and the rest of the line. -/
def tailOfLine? : Text → Option Text
  | [] => some []
  | c :: t => if isBlank c then (restOfLine? t).map (c :: ·) else none

theorem splitFirst?_append {d : Char} {t a b : Text} (h : splitFirst? d t = some (a, b)) :
    t = a ++ d :: b := by
  induction t generalizing a with
  | nil => simp [splitFirst?] at h
  | cons c t ih =>
    simp only [splitFirst?] at h
    split at h
    · simp_all
    · obtain ⟨⟨x, y⟩, hx, he⟩ := Option.map_eq_some_iff.1 h
      obtain ⟨rfl, rfl⟩ := Prod.mk.inj he
      simp [ih hx]

end ModelScale.Text
