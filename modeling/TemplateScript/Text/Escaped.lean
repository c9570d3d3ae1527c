import TemplateScript.Text.Digit
import TemplateScript.Text.Extending
import TemplateScript.Text.Unprintable

/-!
# Escaped text

How a message names a character or a text that the reader may not be able to see: between quotes,
with a backslash before the quote and before itself, short names for the common controls, and the
code point of anything that cannot be shown alone.
-/

namespace TemplateScript

namespace Text

/-- A character as it stands between two of the given quotes. -/
def escape (quote c : Char) : List Char :=
  if c = '\x00' then ['\\', '0']
  else if c = '\t' then ['\\', 't']
  else if c = '\r' then ['\\', 'r']
  else if c = '\n' then ['\\', 'n']
  else if c = '\\' ∨ c = quote then ['\\', c]
  else if isExtending c ∨ isUnprintable c then ['\\', 'u', '\x7b'] ++ hex 1 c.toNat ++ ['\x7d']
  else [c]

/-- A character named in a message. -/
def showChar (c : Char) : String := String.ofList ('\'' :: escape '\'' c ++ ['\''])

/-- A text named in a message. -/
def showText (text : String) : String :=
  String.ofList ('"' :: text.toList.flatMap (escape '"') ++ ['"'])

end Text

end TemplateScript
