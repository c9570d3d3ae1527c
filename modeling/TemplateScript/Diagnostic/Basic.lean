import TemplateScript.Diagnostic.Cause
import TemplateScript.Source.Place

/-!
# Diagnostics

A diagnostic is a cause at a place. Lists of them are sorted by place and then by message, and can
be thinned out to the first diagnostic of every line.
-/

namespace TemplateScript

/-- Something wrong with a token, and where. -/
structure ScanError where
  place : Place
  cause : ScanCause
deriving DecidableEq, Repr, Inhabited

/-- Something wrong with a source, and where. -/
structure Diagnostic where
  place : Place
  cause : Cause
deriving DecidableEq, Repr, Inhabited

namespace Diagnostic

/-- A token's error as a diagnostic. -/
def ofScanError (e : ScanError) : Diagnostic := ⟨e.place, .scan e.cause⟩

/-- What is wrong, without the place. -/
def message (d : Diagnostic) : String := d.cause.message

/-- What is wrong, and where. -/
def text (d : Diagnostic) : String :=
  "Parse Error: " ++ d.message ++ "\n\tat " ++ d.place.text

/-- The order of diagnostics: by file, line, column and message. -/
def order (a b : Diagnostic) : Ordering :=
  (compare a.place.file b.place.file).then <|
    (compare a.place.line b.place.line).then <|
      (compare a.place.column b.place.column).then (compare a.message b.message)

/-- Two diagnostics of one line of one file. -/
def sameLine (a b : Diagnostic) : Bool :=
  a.place.file = b.place.file && a.place.line = b.place.line

/-- Diagnostics in order; those that the order does not tell apart stay as they were. -/
def sort (list : List Diagnostic) : List Diagnostic :=
  list.mergeSort fun a b => (order a b).isLE

/-- A list without the diagnostics that follow, on the same line, the last one kept before them. -/
def firstOfLinesAfter (kept : Diagnostic) : List Diagnostic → List Diagnostic
  | [] => []
  | d :: rest =>
    if sameLine kept d then firstOfLinesAfter kept rest else d :: firstOfLinesAfter d rest

/-- The first diagnostic of every line, in order. -/
def removeMultiples (list : List Diagnostic) : List Diagnostic :=
  match sort list with
  | [] => []
  | d :: rest => d :: firstOfLinesAfter d rest

/-- A list in one sentence: its first diagnostic and the number of the others. -/
def summary : List Diagnostic → String
  | [] => "no errors"
  | [d] => d.text
  | d :: rest => d.text ++ " (and " ++ toString rest.length ++ " more errors)"

end Diagnostic

end TemplateScript
