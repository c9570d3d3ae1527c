import TemplateScript.Diagnostic.Basic

/-!
# Excerpts

A diagnostic with the lines of the source around it. The lines are numbered, and under the line of
the diagnostic a caret points at its column.
-/

namespace TemplateScript

namespace Diagnostic

/-- The lines of a text, without the breaks between them. There is always at least one. -/
def linesOf : List Char → List (List Char)
  | [] => [[]]
  | c :: rest =>
    match linesOf rest with
    | [] => [[c]]
    | line :: lines => if c = '\n' then [] :: line :: lines else (c :: line) :: lines

/-- A line without the carriage return of its break. -/
def withoutReturn (line : List Char) : List Char :=
  if line.getLast? = some '\r' then line.dropLast else line

/-- A word at the right edge of a column. -/
def alignRight (width : Nat) (word : List Char) : List Char :=
  List.replicate (width - word.length) ' ' ++ word

/-- One blank for every character that starts in the first `bytes` bytes of a line; a tab stays a
tab. -/
def indent : Nat → List Char → List Char
  | _, [] => []
  | bytes, c :: rest =>
    if bytes = 0 then [] else (if c = '\t' then '\t' else ' ') :: indent (bytes - c.utf8Size) rest

/-- The lines `first`, `first + 1` and so on with their numbers, and a caret line under the line of
the diagnostic. -/
def excerptLines (d : Diagnostic) (width : Nat) : Nat → List (List Char) → List Char
  | _, [] => []
  | number, line :: lines =>
    let line := withoutReturn line
    let caret :=
      if number = d.place.line then
        alignRight width [] ++ " | ".toList ++ indent (d.place.column - 1) line ++ "^\n".toList
      else []
    alignRight width (toString number).toList ++ " | ".toList ++ line ++ '\n' :: caret ++
      excerptLines d width (number + 1) lines

/-- The diagnostic and, if its line is in the source, a window of `around` lines on either side of
it. -/
def excerpt (d : Diagnostic) (source : String) (around : Nat) : String :=
  let lines := linesOf source.toList
  if d.place.isValid ∧ d.place.line ≤ lines.length then
    let first := max 1 (d.place.line - around)
    let last := min lines.length (d.place.line + around)
    let window := (lines.drop (first - 1)).take (last - first + 1)
    d.text ++ "\n\n" ++ String.ofList (excerptLines d (toString last).length first window)
  else d.text

end Diagnostic

end TemplateScript
