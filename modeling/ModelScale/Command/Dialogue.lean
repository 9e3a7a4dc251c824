import ModelScale.Command.Failure
import ModelScale.Document

/-!
# Dialogues

A dialogue is a run as a tree: at each node it says something, asks the user, or looks at the disk,
and goes on with what it learns, until it is done or fails.  It is carried out on a session, which
holds the disk, the input that is left and the output.  A text that the output does not take is a
failure like others.  A run that fails keeps what it did before; sequencing is explained by one
equation (`run_bind`).
-/

namespace ModelScale

open Text

/-! ## 1. Questions -/

/-- A question that is asked until an answer is not refused. -/
structure Question where
  /-- What is written in front of the answer. -/
  prompt : Text
  /-- What is said about an answer that is refused. -/
  refusal : Text → Option Message

/-! ## 2. Dialogues -/

/-- A run with a result. -/
inductive Dialogue (α : Type) where
  | done (result : α)
  | fail (failure : Failure)
  | say (message : Message) (next : Dialogue α)
  | ask (question : Question) (next : Text → Dialogue α)
  /-- Puts in the home directory that a path starts with. -/
  | expand (path : Path) (next : Option Path → Dialogue α)
  /-- Finds out whether a path leads to a file. -/
  | isFile (path : Path) (next : Except DiskError Bool → Dialogue α)
  /-- Lists the files in the working directory, whose path comes with them. -/
  | names (next : Path → List Text → Dialogue α)
  | read (path : Path) (next : Except DiskError Bytes → Dialogue α)
  | write (path : Path) (content : Bytes) (next : Except DiskError Unit → Dialogue α)

namespace Dialogue

variable {α β : Type}

/-- A dialogue followed by what depends on its result. -/
def bind : Dialogue α → (α → Dialogue β) → Dialogue β
  | done a, f => f a
  | fail e, _ => fail e
  | say m next, f => say m (next.bind f)
  | ask q next, f => ask q fun answer => (next answer).bind f
  | expand p next, f => expand p fun q => (next q).bind f
  | isFile p next, f => isFile p fun r => (next r).bind f
  | names next, f => names fun p l => (next p l).bind f
  | read p next, f => read p fun r => (next r).bind f
  | write p c next, f => write p c fun r => (next r).bind f

instance : Monad Dialogue where
  pure := done
  bind := bind

/-- Says some messages in order. -/
def sayAll (messages : List Message) : Dialogue Unit :=
  messages.foldr say (done ())

/-- The value of a calculation, whose fault ends the run. -/
def ofExcept {ε : Type} (failure : ε → Failure) : Except ε α → Dialogue α
  | .ok a => done a
  | .error e => fail (failure e)

end Dialogue

/-! ## 3. Sessions -/

/-- What a dialogue works on. -/
structure Session where
  disk : Disk
  /-- The lines of input that are left. -/
  input : List Text := []
  output : Output := {}

namespace Session

/-- Offers a text to the output. -/
def print (s : Session) (t : Text) : Option OutputFault × Session :=
  let (fault?, output) := s.output.offer t
  (fault?, { s with output })

/-- Offers a message to the output, on a line of its own. -/
def say (s : Session) (m : Message) : Option OutputFault × Session :=
  s.print (Message.plain m ++ ['\n'])

/-- Offers some messages in order, up to one that is not taken. -/
def sayAll (s : Session) : List Message → Option OutputFault × Session
  | [] => (none, s)
  | m :: messages =>
    match s.say m with
    | (none, t) => t.sayAll messages
    | (some fault, t) => (some fault, t)

/-- Puts a question to someone who gives these answers, until one is not refused. -/
def poseTo (q : Question) (s : Session) : List Text → Except Failure Text × Session
  | [] =>
    match s.print q.prompt with
    | (none, t) => (.error .endOfInput, { t with input := [] })
    | (some fault, t) => (.error (.unsaid fault), t)
  | answer :: rest =>
    match s.print q.prompt with
    | (none, t) =>
      match q.refusal answer with
      | none => (.ok answer, { t with input := rest })
      | some message =>
        match { t with input := rest }.say message with
        | (none, u) => u.poseTo q rest
        | (some fault, u) => (.error (.unsaid fault), u)
    | (some fault, t) => (.error (.unsaid fault), t)

/-- Puts a question to the user. -/
def pose (q : Question) (s : Session) : Except Failure Text × Session :=
  s.poseTo q s.input

end Session

/-! ## 4. Runs -/

namespace Dialogue

variable {α β : Type}

/-- Carries out a dialogue. -/
def run : Dialogue α → Session → Except Failure α × Session
  | done a, s => (.ok a, s)
  | fail e, s => (.error e, s)
  | say m next, s =>
    match s.say m with
    | (none, t) => next.run t
    | (some fault, t) => (.error (.unsaid fault), t)
  | ask q next, s =>
    match s.pose q with
    | (.ok answer, t) => (next answer).run t
    | (.error e, t) => (.error e, t)
  | expand p next, s => (next (s.disk.expand? p)).run s
  | isFile p next, s => (next (s.disk.isFile p)).run s
  | names next, s => (next s.disk.workingPath s.disk.names).run s
  | read p next, s => (next (s.disk.read p)).run s
  | write p c next, s =>
    match s.disk.write p c with
    | .ok disk => (next (.ok ())).run { s with disk }
    | .error e => (next (.error e)).run s

/-- Running two dialogues in sequence is running the second where the first ended, unless it
failed. -/
theorem run_bind (d : Dialogue α) (f : α → Dialogue β) (s : Session) :
    (d.bind f).run s =
      match d.run s with
      | (.ok a, t) => (f a).run t
      | (.error e, t) => (.error e, t) := by
  induction d generalizing s with
  | done a => rfl
  | fail e => rfl
  | say m next ih =>
    simp only [bind, run]
    split
    · exact ih _
    · rfl
  | ask q next ih =>
    simp only [bind, run]
    split
    · exact ih _ _
    · rfl
  | expand p next ih => exact ih _ _
  | isFile p next ih => exact ih _ _
  | names next ih => exact ih _ _ _
  | read p next ih => exact ih _ _
  | write p c next ih =>
    simp only [bind, run]
    split
    · exact ih _ _
    · exact ih _ _

end Dialogue

end ModelScale
