import TemplateScript.Source.Place

/-!
# Source files

A file occupies the positions from `base` to `base + size`, both included, of the space its set
shares. Its line table grows while the content is read, always in ascending order, so that a place
asked for on the way is already right for everything that has been read.

A fault is a question about a source that has no answer: a line, an offset or a position that is not
there, a file placed over another one, or a file of another size than its content. Faults are bugs
of whoever asks, never findings about the text of a source.
-/

namespace TemplateScript

/-- Why a question has no answer. -/
inductive Fault where
  /-- Lines are numbered from one, and `bound` is the first number past the recorded ones. -/
  | illegalLine (line bound : Nat)
  | offsetOutOfRange (offset : Nat) (file : String) (size : Nat)
  | positionOutOfRange (position : Nat) (file : String)
  /-- A file would begin before `least`, the first free position. -/
  | illegalBase (base least : Nat)
  | outsideEveryFile (position : Nat)
  /-- The size of a file is not that of its content. -/
  | sizeMismatch
  /-- A search that must end within its budget did not. -/
  | unfinished
deriving DecidableEq, Repr, Inhabited

/-- The words for a fault, where there are any. -/
def Fault.message? : Fault → Option String
  | .illegalLine line bound =>
    some ("illegal line number " ++ toString line ++ " (should be < " ++ toString bound ++ ")")
  | .offsetOutOfRange offset file size =>
    some ("offset " ++ toString offset ++ " out of range for file " ++ file ++ " of size " ++
      toString size)
  | .positionOutOfRange position file =>
    some ("position " ++ toString position ++ " out of range for file " ++ file)
  | .illegalBase base least =>
    some ("illegal base " ++ toString base ++ " (should be >= " ++ toString least ++ ")")
  | .outsideEveryFile position =>
    some ("position " ++ toString position ++ " is outside every source file")
  | .sizeMismatch => none
  | .unfinished => none

/-- A source file and the offsets at which its lines are known to start. -/
structure SourceFile where
  name : String
  base : Nat
  size : Nat
  lines : List Nat := [0]
deriving DecidableEq, Repr, Inhabited

namespace SourceFile

/-- Record the start of a line. Only an offset past the last recorded one and inside the file
counts. -/
def addLine (f : SourceFile) (offset : Nat) : SourceFile :=
  if f.lines.getLast?.all (· < offset) ∧ offset < f.size then
    { f with lines := f.lines ++ [offset] }
  else f

/-- The place of an offset by the lines recorded so far. -/
def place (f : SourceFile) (offset : Nat) : Place :=
  let started := f.lines.takeWhile (· ≤ offset)
  match started.getLast? with
  | none => { file := f.name, offset }
  | some start => { file := f.name, offset, line := started.length, column := offset - start + 1 }

/-- The number of lines recorded so far. -/
def lineCount (f : SourceFile) : Nat := f.lines.length

/-- Whether a position lies in the file. -/
def contains (f : SourceFile) (p : Pos) : Bool := f.base ≤ p && p ≤ f.base + f.size

/-- The position at which a line starts. -/
def lineStart (f : SourceFile) (line : Nat) : Except Fault Pos :=
  match line with
  | 0 => .error (.illegalLine 0 (f.lineCount + 1))
  | n + 1 =>
    match f.lines[n]? with
    | none => .error (.illegalLine (n + 1) (f.lineCount + 1))
    | some start => .ok (f.base + start)

/-- The position of an offset. -/
def pos (f : SourceFile) (offset : Nat) : Except Fault Pos :=
  if offset ≤ f.size then .ok (f.base + offset)
  else .error (.offsetOutOfRange offset f.name f.size)

/-- The offset of a position. -/
def offset (f : SourceFile) (p : Pos) : Except Fault Nat :=
  if f.contains p then .ok (p - f.base) else .error (.positionOutOfRange p f.name)

/-- The place of a position; no position has the empty place. -/
def position (f : SourceFile) (p : Pos) : Except Fault Place :=
  if p = 0 then .ok {} else (f.offset p).map f.place

end SourceFile

end TemplateScript
