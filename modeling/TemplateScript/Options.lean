/-!
# Options

What a reader of a source may be told in advance. A pragma line in the source can change some of it
for the rest of the file.
-/

namespace TemplateScript

/-- The word that makes a pragma of a comment. -/
def pragmaMarker : String := "gad:"

/-- The two texts between which code stands in a template. -/
structure Delimiters where
  opening : String := "#\x7b"
  closing : String := "\x7d"
deriving DecidableEq, Repr, Inhabited

/-- How a source is cut into tokens. -/
structure ScanOptions where
  /-- Comments are tokens. -/
  comments : Bool := false
  /-- Line breaks never count as semicolons. -/
  noAutoSemicolons : Bool := false
  /-- The source is a template: text, with code between delimiters. -/
  mixed : Bool := false
  /-- Pragma lines are ordinary comments. -/
  noPragma : Bool := false
  /-- A code block that holds one expression and nothing else emits its value. -/
  valueSugar : Bool := false
  /-- Float literals are decimals. -/
  floatsAsDecimal : Bool := false
  /-- Single quotes hold strings too. -/
  charAsString : Bool := false
  delimiters : Delimiters := {}
deriving DecidableEq, Repr, Inhabited

/-- How a source is parsed. -/
structure ParseOptions where
  scan : ScanOptions := {}
  /-- Parsing stops at this many errors; zero stands for no limit. -/
  maxErrors : Nat := 10
deriving DecidableEq, Repr, Inhabited

end TemplateScript
