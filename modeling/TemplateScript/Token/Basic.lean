import TemplateScript.Source.Place
import TemplateScript.Token.Kind

/-!
# Tokens

A token is a kind, the text it was read from and where that text starts. Operators and marks keep no
text, since their kind spells it. Flags record what a kind cannot say.
-/

namespace TemplateScript

/-- What is to be known about a token besides its kind. -/
structure Token.Flags where
  /-- A semicolon that a line break or the end of the file stands for. -/
  inserted : Bool := false
  /-- The text after this delimiter loses the blanks it begins with. -/
  trimLeft : Bool := false
  /-- The text before this delimiter lost the blanks it ended with. -/
  trimRight : Bool := false
  /-- A text in which a start delimiter stands for itself. -/
  escaped : Bool := false
deriving DecidableEq, Repr, Inhabited

/-- A token of a source. -/
structure Token where
  kind : Token.Kind
  literal : String := ""
  pos : Pos
  flags : Token.Flags := {}
deriving DecidableEq, Repr, Inhabited

namespace Token

/-- The text of a token, or the spelling of its kind if it keeps none. -/
def text (t : Token) : String := if t.literal = "" then t.kind.spelling else t.literal

/-- A semicolon that stands in the source. -/
def isExplicitSemicolon (t : Token) : Bool := t.kind = .semicolon && !t.flags.inserted

/-- A semicolon that a line break or the end of the file stands for. -/
def isInsertedSemicolon (t : Token) : Bool := t.kind = .semicolon && t.flags.inserted

/-- What a message calls a token. -/
def describe (t : Token) : String :=
  if t.isInsertedSemicolon then "newline" else if t.kind = .eof then "EOF" else t.text

/-- The token of a source that begins `base` further on. -/
def shift (base : Nat) (t : Token) : Token := { t with pos := t.pos + base }

end Token

end TemplateScript
