import TemplateScript.Text.Quoted

/-!
# Heredocs

A heredoc holds its text between two equal fences of three or more backquotes, each on a line of its
own. The line breaks next to the fences are not part of the text, and nothing else is left out.
-/

namespace TemplateScript

namespace Text

/-- The longest run of whole characters that covers exactly `size` bytes, or all there are; nothing
if a character crosses the limit. -/
def takeBytes? : Nat → List Char → Option (List Char)
  | _, [] => some []
  | size, c :: rest =>
    if size = 0 then some []
    else if c.utf8Size ≤ size then (takeBytes? (size - c.utf8Size) rest).map (c :: ·)
    else none

/-- A text without the line break it begins with. -/
def dropLeadingBreak : List Char → List Char
  | '\r' :: '\n' :: rest => rest
  | '\n' :: rest => rest
  | text => text

/-- A reversed text without the line break it ends with. -/
def dropTrailingBreak : List Char → List Char
  | '\n' :: '\r' :: rest => rest
  | '\n' :: rest => rest
  | text => text

/-- The text between the fences of a heredoc literal. A literal too short for two fences, or whose
end is no fence and is not cut between characters, has the empty text. -/
def heredocValue (literal : String) : String :=
  let chars := literal.toList
  let fence := (chars.takeWhile (· = backquote)).length
  let size := literal.utf8ByteSize
  let body :=
    if size < 2 * fence then [] else (takeBytes? (size - 2 * fence) (chars.drop fence)).getD []
  String.ofList (dropTrailingBreak (dropLeadingBreak body).reverse).reverse

end Text

end TemplateScript
