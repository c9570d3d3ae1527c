import TemplateScript.Tree.Basic

/-!
# Texts of comments

A comment says what stands behind its mark, or between its two marks, without the blanks around it.
Blanks are the characters with the Unicode property White_Space.
-/

namespace TemplateScript

namespace Text

/-- The blanks past ASCII, as ranges that include both ends, in ascending order. -/
def blankRanges : List (Nat × Nat) := [
  (0x85, 0x85), (0xa0, 0xa0), (0x1680, 0x1680), (0x2000, 0x200a), (0x2028, 0x2029),
  (0x202f, 0x202f), (0x205f, 0x205f), (0x3000, 0x3000)]

/-- A blank. -/
def isBlank (c : Char) : Bool :=
  if c.toNat < 0x80 then c = ' ' || (0x09 ≤ c.toNat && c.toNat ≤ 0x0D)
  else blankRanges.any fun (low, high) => low ≤ c.toNat && c.toNat ≤ high

/-- A text without the blanks at either end. -/
def trim (text : List Char) : List Char :=
  ((text.dropWhile isBlank).reverse.dropWhile isBlank).reverse

end Text

/-- The text behind a mark, if the mark is there. -/
def behind? (mark text : List Char) : Option (List Char) :=
  if mark.isPrefixOf text then some (text.drop mark.length) else none

/-- A text without the closing mark of a block comment. -/
def beforeClosing (text : List Char) : List Char :=
  match text.reverse with
  | '/' :: '*' :: before => before.reverse
  | _ => text

/-- What a comment says. -/
def Comment.content (c : Comment) : String :=
  let text := c.text.toList
  let content :=
    match behind? ['/', '/'] text with
    | some rest => rest
    | none =>
      match behind? ['#'] text with
      | some rest => rest
      | none => ((behind? ['/', '*'] text).map beforeClosing).getD text
  String.ofList (Text.trim content)

/-- What a group of comments says, on a line for each. -/
def CommentGroup.content (group : CommentGroup) : String :=
  "\n".intercalate (group.map Comment.content)

end TemplateScript
