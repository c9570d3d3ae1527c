import TemplateScript.Cursor.Comment
import TemplateScript.Cursor.Pragma

/-!
# Templates

A template is text in which code stands between two delimiters. The opening delimiter may be
followed by `-`, which strips the blanks before it, and by `=`, which makes a value of the code; the
closing one may be preceded by `-`, which strips the blanks after it. A backslash before an opening
delimiter makes text of it.
-/

namespace TemplateScript

namespace Cursor

/-- How far a run of text reaches, and whether an escaped delimiter is in it. The first `skip`
glyphs belong to such a delimiter; `isLineStart` tells whether a pragma line may begin at the next
glyph. -/
def textExtent (pragmas : Bool) (opening : String) : Bool → Nat → List Glyph → Nat × Bool
  | _, _, [] => (0, false)
  | _, skip + 1, g :: rest =>
    let (n, escaped) := textExtent pragmas opening (g = .char '\n') skip rest
    (n + 1, escaped)
  | isLineStart, 0, g :: rest =>
    if pragmas && isLineStart && (pragmaHead? (g :: rest)).isSome then (0, false)
    else if g = .char '\\' ∧ Glyph.startsWith rest opening = true then
      ((textExtent pragmas opening false opening.length rest).1 + 1, true)
    else if Glyph.startsWith (g :: rest) opening then (0, false)
    else
      let (n, escaped) := textExtent pragmas opening (g = .char '\n') 0 rest
      (n + 1, escaped)

/-- A run of glyphs without the blanks it ends with. -/
def dropTrailingSpace (glyphs : List Glyph) : List Glyph :=
  (glyphs.reverse.dropWhile Glyph.isSpace).reverse

/-- The token of a run of text from which the first blanks and the last were removed, unless nothing
is left. -/
def textToken? (start : Nat) (blanks kept : List Glyph) (escaped : Bool) : Option Token :=
  if kept = [] then none
  else some ⟨.text, Glyph.text kept, start + Glyph.widths blanks, { escaped }⟩

/-- The opening delimiter at the cursor with the marks behind it, and its length. -/
def openingDelimiter (c : Cursor) (opening : String) : Nat × Token :=
  let trims := Glyph.startsWith (c.rest.drop opening.length) "-"
  let marked := opening.length + trims.toNat
  let isValue := Glyph.startsWith (c.rest.drop marked) "="
  let length := marked + isValue.toNat
  (length,
    ⟨if isValue then .valueBegin else .codeBegin, Glyph.text (c.rest.take length), c.offset,
      { trimRight := trims }⟩)

/-- Enter the code behind the opening delimiter at the cursor. -/
def enterCode (c : Cursor) (length : Nat) (isValue : Bool) : Cursor :=
  { c.advanceBy length with inText := false, inValue := isValue, pending := false, nesting := {} }

/-- Read text up to the code, the pragma line or the end of the file that follows it. -/
def templateText (c : Cursor) : Cursor × Token × List Token :=
  let opening := c.options.delimiters.opening
  let (size, escaped) :=
    textExtent (!c.options.noPragma) opening (c.offset = c.lineStart) 0 c.rest
  let raw := c.rest.take size
  let blanks := if c.trimNext then raw.takeWhile Glyph.isSpace else []
  let kept := raw.drop blanks.length
  let last := { c.advanceBy size with trimNext := false }
  if Glyph.startsWith last.rest opening && last.pragmaLine?.isNone then
    let (length, delimiter) := last.openingDelimiter opening
    let kept := if delimiter.flags.trimRight then dropTrailingSpace kept else kept
    let entered := last.enterCode length (delimiter.kind = .valueBegin)
    match textToken? c.offset blanks kept escaped with
    | some text => (entered, text, [delimiter])
    | none => (entered, delimiter, [])
  else
    match textToken? c.offset blanks kept escaped with
    | some text => (last, text, [])
    | none =>
      match last.pragmaLine? with
      | some head => last.pragma head
      | none => (last, last.endOfFile, [])

/-- The closing delimiter at the cursor, with the trim mark that may precede it, ends the code. -/
def codeEnd? (c : Cursor) : Option (Cursor × Token) :=
  let closing := c.options.delimiters.closing
  let trims := Glyph.startsWith c.rest "-" && Glyph.startsWith (c.rest.drop 1) closing
  if c.isDelimited && (trims || Glyph.startsWith c.rest closing) then
    let last := c.advanceBy (closing.length + trims.toNat)
    let token : Token :=
      ⟨if c.inValue then .valueEnd else .codeEnd, c.textTo last, c.offset, { trimLeft := trims }⟩
    some ({ last with inText := true, inValue := false, pending := false, trimNext := trims },
      token)
  else none

end Cursor

end TemplateScript
