/-!
# Places

A place says where something stands in a file in a reader's terms: the line and the column, both
counted from one, where a column counts bytes. A place without a line is no place at all.
-/

namespace TemplateScript

/-- A position in the space that all files of a set share. Zero is no position. -/
abbrev Pos := Nat

/-- A position that is one. -/
def Pos.isValid (p : Pos) : Bool := p ≠ 0

/-- A position in a reader's terms. -/
structure Place where
  file : String := ""
  offset : Nat := 0
  line : Nat := 0
  column : Nat := 0
deriving DecidableEq, Repr, Inhabited

namespace Place

/-- A place has a line. -/
def isValid (p : Place) : Bool := 0 < p.line

/-- The file, the line and the column between colons, as far as they are known. -/
def text (p : Place) : String :=
  let place :=
    if p.isValid then
      p.file ++ (if p.file = "" then "" else ":") ++ toString p.line ++
        (if p.column = 0 then "" else ":" ++ toString p.column)
    else p.file
  if place = "" then "-" else place

end Place

end TemplateScript
