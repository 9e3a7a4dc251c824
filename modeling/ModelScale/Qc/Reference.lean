import ModelScale.Comment
import ModelScale.Line.Token

/-!
# What a model script refers to

Parts of a model that the scale directive does not reach: flex animation files, eyelids that are
split at a height, and the file of procedural bones.
-/

namespace ModelScale.Reference

open Text

/-! ## 1. Flex animations -/

/-- The extension of a flex animation file. -/
def flexExtension : Text := ".vta".toList

/-- The longest part of a text, from its start, that ends in the extension and is not continued by a
word character. -/
def throughExtension? : Text → Option Text
  | [] => none
  | c :: t =>
    match throughExtension? t with
    | some name => some (c :: name)
    | none =>
      match takeKeyword? flexExtension (c :: t) with
      | some (extension, rest) => if atWordEnd rest then some extension else none
      | none => none

/-- The file name in a run of characters: it has at least one character before the extension. -/
def flexName? : Text → Option Text
  | [] => none
  | c :: t => (throughExtension? t).map (c :: ·)

/-- The flex animation files named on a line. -/
def flexNames (line : Text) : List Text :=
  (runs (fun c => isInk c && c != '"') line).filterMap flexName?

/-- The flex animation files named outside comments, with line numbers. -/
def flexes (lines : List Text) : List (Nat × Text) :=
  Comment.collectLive flexNames lines

/-! ## 2. Split eyelids -/

/-- The number after the word `split`, at the start of a text. -/
def splitHere? (t : Text) : Option Text := do
  let (_, rest) ← takeKeyword? "split".toList t
  if startsBlank rest then (takeNumber? rest).map (·.1) else none

/-- The number after the first word `split` that has one, before the line ends.  A word begins where
no word character stands before it. -/
def splitValue? (afterWordChar : Bool) : Text → Option Text
  | [] => none
  | c :: t =>
    (if afterWordChar then none else splitHere? (c :: t)) <|>
      if c = '\n' then none else splitValue? (isWordChar c) t

/-- The split of an eyelid line. -/
def eyelidSplit? (line : Text) : Option Text := do
  let (_, rest) ← takeKeyword? "eyelid".toList (trimStart line)
  if atWordEnd rest then splitValue? true rest else none

/-- The splits outside comments, with line numbers. -/
def allSplits (lines : List Text) : List (Nat × Text) :=
  Comment.collectLive (fun line => (eyelidSplit? line).toList) lines

/-- The splits at a height other than zero outside comments, with line numbers. -/
def eyelidSplits (lines : List Text) : Except Fault (List (Nat × Text)) :=
  (allSplits lines).filterM fun (_, height) => do
    let d ← Decimal.read height
    pure !d.isZero

/-! ## 3. Procedural bones -/

/-- The path that a line gives for the procedural bones. -/
def proceduralPath? (line : Text) : Option Text := do
  let (_, rest) ← takeHead? "$proceduralbones".toList line
  (takePath? rest).map (·.2.1)

/-- The file of procedural bones named outside comments. -/
def proceduralBones? (lines : List Text) : Option Text :=
  (Comment.firstLive? proceduralPath? lines).map (·.2)

end ModelScale.Reference
