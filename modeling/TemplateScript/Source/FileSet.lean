import TemplateScript.Source.File

/-!
# File sets

The files of a set lie one after the other in one space of positions, with a gap of one between
neighbours, so that a position names a file and an offset in it. The file found last is tried first.
-/

namespace TemplateScript

/-- Files in ascending order of their positions. -/
structure FileSet where
  /-- The first position free for the next file. -/
  base : Nat := 1
  files : List SourceFile := []
  /-- The index of the file added or found last. -/
  recent : Option Nat := none
deriving DecidableEq, Repr, Inhabited

namespace FileSet

/-- Add a file, at the first free position unless another is asked for. -/
def add (set : FileSet) (name : String) (base : Option Nat) (size : Nat) :
    Except Fault (SourceFile × FileSet) :=
  let base := base.getD set.base
  if base < set.base then .error (.illegalBase base set.base)
  else
    let file : SourceFile := { name, base, size }
    .ok (file, ⟨base + size + 1, set.files ++ [file], some set.files.length⟩)

/-- The index of the last file that does not begin after a position. -/
def indexBefore? (set : FileSet) (p : Pos) : Option Nat :=
  match (set.files.takeWhile (·.base ≤ p)).length with
  | 0 => none
  | n + 1 => some n

/-- The index of the file that holds a position, by the file found last or by a search among all. -/
def index? (set : FileSet) (p : Pos) : Option Nat :=
  let holds (i : Nat) : Bool := (set.files[i]?).any (·.contains p)
  if p = 0 then none else (set.recent.filter holds).or ((set.indexBefore? p).filter holds)

/-- The set after a position was looked up. -/
def lookedUp (set : FileSet) (p : Pos) : FileSet :=
  match set.index? p with
  | some i => { set with recent := some i }
  | none => set

/-- The file that holds a position. -/
def file? (set : FileSet) (p : Pos) : Option SourceFile := (set.index? p).bind (set.files[·]?)

/-- The place of a position; no position has the empty place. -/
def position (set : FileSet) (p : Pos) : Except Fault Place :=
  if p = 0 then .ok {}
  else
    match set.file? p with
    | some file => file.position p
    | none => .error (.outsideEveryFile p)

/-- Put a file, changed since, back in its place. -/
def replace (set : FileSet) (index : Nat) (file : SourceFile) : FileSet :=
  { set with files := set.files.set index file }

end FileSet

end TemplateScript
