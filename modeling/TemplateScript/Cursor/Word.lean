import TemplateScript.Cursor.Basic
import TemplateScript.Number.Integer
import TemplateScript.Text.Alphabetic
import TemplateScript.Text.Numeric

/-!
# Words and marks

A word begins with a letter or an underscore and goes on with letters, underscores and digits of any
script. A mark is the longest spelling of an operator that the source has at a point.
-/

namespace TemplateScript

namespace Glyph

/-- A glyph that begins a word. -/
def isLetter : Glyph → Bool
  | .char c => c = '_' || Text.isAlphabetic c
  | .byte _ => false

/-- A glyph that goes on with a word it cannot begin. -/
def isDigit : Glyph → Bool
  | .char c => Text.isNumeric c
  | .byte _ => false

/-- A digit of a radix. -/
def isDigitOf (radix : Nat) : Glyph → Bool
  | .char c => Text.isDigit radix c
  | .byte _ => false

end Glyph

namespace Cursor

/-- The number of glyphs at the head of a run that go on with a word. -/
def wordRun (glyphs : List Glyph) : Nat :=
  Glyph.countWhile (fun g => g.isLetter || g.isDigit) glyphs

/-- A word begins at the cursor. -/
def atWord (c : Cursor) : Bool := c.rest.head?.any Glyph.isLetter

/-- Read the word at the cursor. -/
def word (c : Cursor) : Cursor × Token :=
  let last := c.advanceBy (wordRun c.rest)
  let literal := c.textTo last
  (last, ⟨Token.Kind.ofWord literal, literal, c.offset, {}⟩)

/-- The mark at the head of a run. A question mark before a number is no selector. -/
def mark? (glyphs : List Glyph) : Option Token.Kind :=
  Token.Kind.marks.find? fun kind =>
    Glyph.startsWith glyphs kind.spelling &&
      !(kind = .nullishSelector && (glyphs.drop 2).head?.any Glyph.isDecimalDigit)

/-- Read the mark at the cursor. Only the semicolon keeps its text. -/
def mark (c : Cursor) (kind : Token.Kind) : Cursor × Token :=
  let last := c.advanceBy kind.spelling.length
  ({ last with nesting := last.nesting.after kind },
    ⟨kind, if kind = .semicolon then ";" else "", c.offset, {}⟩)

end Cursor

end TemplateScript
