import TemplateScript.Cursor.Basic

/-!
# Comments

A comment runs from `#` or `//` to the end of the line, or between `/*` and `*/`. In the code of a
template, outside brackets, the closing delimiter ends a line comment too.
-/

namespace TemplateScript

namespace Cursor

/-- A line comment begins a run. -/
def startsLineComment (glyphs : List Glyph) : Bool :=
  Glyph.startsWith glyphs "#" || Glyph.startsWith glyphs "//"

/-- A comment begins at the cursor. -/
def atComment (c : Cursor) : Bool := startsLineComment c.rest || Glyph.startsWith c.rest "/*"

/-- The code at the cursor ends at the closing delimiter of a template. -/
def isDelimited (c : Cursor) : Bool := c.options.mixed && !c.nesting.isOpen

/-- The glyphs end with their line: at a line break, or at a comment that does, or at the end of the
file. -/
def endsHere (glyphs : List Glyph) : Bool :=
  match glyphs.dropWhile Glyph.isInlineSpace with
  | [] => true
  | g :: rest => g = .char '\n' || startsLineComment (g :: rest)

/-- Whether the line ends with the comment at the head of a run, so that a semicolon that a line
break stands for belongs before the comment. A block comment does not end the line if more code
follows it on the line it began on. -/
def commentEndsLine (glyphs : List Glyph) : Bool :=
  if startsLineComment glyphs then true
  else
    let body := glyphs.drop 2
    let inside := Glyph.countUntil (Glyph.startsWith · "*/") body
    if inside = body.length then true
    else if (body.take inside).contains (.char '\n') then true
    else endsHere (body.drop (inside + 2))

/-- Move past a line comment. -/
def lineComment (c : Cursor) : Cursor :=
  let stop (glyphs : List Glyph) : Bool :=
    glyphs.head? = some (.char '\n') ||
      (c.isDelimited && Glyph.startsWith glyphs c.options.delimiters.closing)
  c.advanceBy (Glyph.countUntil stop c.rest.tail + 1)

/-- Move past a block comment. -/
def blockComment (c : Cursor) : Cursor :=
  let inside := Glyph.countUntil (Glyph.startsWith · "*/") (c.rest.drop 2)
  let last := c.advanceBy (inside + 2)
  if last.rest = [] then last.report c.offset .unterminatedComment else last.advanceBy 2

/-- A line comment's text without the carriage return of its break. -/
def withoutReturn (text : String) : String :=
  if text.toList.getLast? = some '\r' then String.ofList text.toList.dropLast else text

/-- Read the comment at the cursor. -/
def comment (c : Cursor) : Cursor × Token :=
  if startsLineComment c.rest then
    let last := c.lineComment
    (last, ⟨.comment, withoutReturn (c.textTo last), c.offset, {}⟩)
  else
    let last := c.blockComment
    (last, ⟨.comment, c.textTo last, c.offset, {}⟩)

theorem comment_length_lt (c : Cursor) (h : c.rest ≠ []) :
    c.comment.1.rest.length < c.rest.length := by
  have hpos : 0 < c.rest.length := List.length_pos_iff.2 h
  unfold comment
  split
  · simp only [lineComment, advanceBy_rest, List.length_drop]
    omega
  · dsimp only [blockComment]
    split
    · simp only [report_rest, advanceBy_rest, List.length_drop]
      omega
    · simp only [advanceBy_rest, List.length_drop]
      omega

end Cursor

end TemplateScript
