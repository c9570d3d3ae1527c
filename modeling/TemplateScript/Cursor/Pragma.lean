import TemplateScript.Cursor.Comment
import TemplateScript.Cursor.Lexeme

/-!
# Pragma lines

A line that begins with `#` and the pragma marker sets options. Its body, up to a semicolon or the
end of the line, is read as code of its own, in which comments and line breaks count for nothing,
and delivered between two tokens that bracket it.
-/

namespace TemplateScript

namespace Cursor

/-- The length of the head of a pragma line, with its marker, if a run begins with one. -/
def pragmaHead? (glyphs : List Glyph) : Option Nat :=
  match glyphs with
  | [] => none
  | g :: rest =>
    let blanks := Glyph.countWhile Glyph.isTabOrSpace rest
    if g = .char '#' ∧ Glyph.startsWith (rest.drop blanks) pragmaMarker = true then
      some (1 + blanks + pragmaMarker.length)
    else none

/-- The length of the head of the pragma line that begins at the cursor, if one does. -/
def pragmaLine? (c : Cursor) : Option Nat :=
  if c.options.noPragma ∨ c.offset ≠ c.lineStart then none else pragmaHead? c.rest

/-- The body of a pragma line ends here. -/
def endsPragma (glyphs : List Glyph) : Bool :=
  glyphs.head? = some (.char '\n') || glyphs.head? = some (.char ';')

theorem skipBlanks_length_le (c : Cursor) : c.skipBlanks.rest.length ≤ c.rest.length := by
  simp only [skipBlanks, advanceBy_rest, List.length_drop]
  omega

/-- Read all tokens of a pragma's body, up to the end of what the cursor sees. -/
def bodyTokens (c : Cursor) : Cursor × List Token :=
  match _h : c.skipBlanks.rest with
  | [] => (c.skipBlanks, [])
  | g :: _ =>
    if c.skipBlanks.atComment then bodyTokens c.skipBlanks.comment.1
    else
      let more := bodyTokens (c.skipBlanks.lexeme g).1
      (more.1, (c.skipBlanks.lexeme g).2 :: more.2)
termination_by c.rest.length
decreasing_by
  · have h1 := skipBlanks_length_le c
    have h2 := comment_length_lt c.skipBlanks (by simp [_h])
    omega
  · have h1 := skipBlanks_length_le c
    have h2 := lexeme_length_lt _h
    omega

/-- The cursor at the start of a pragma's body, which sees nothing but the body. -/
def bodyStart (c : Cursor) (head size : Nat) : Cursor :=
  arrive { c with
    rest := (c.rest.drop head).take size
    offset := c.offset + Glyph.widths (c.rest.take head)
    pending := false
    nesting := {}
    options := { c.options with
      comments := false, noAutoSemicolons := true, mixed := false, noPragma := true } }

/-- Read the pragma line at the cursor, whose head has a known length. -/
def pragma (c : Cursor) (head : Nat) : Cursor × Token × List Token :=
  let size := Glyph.countUntil endsPragma (c.rest.drop head)
  let (body, tokens) := (c.bodyStart head size).bodyTokens
  let last := advanceBy (head + size) { c with errors := body.errors }
  let opening : Token := ⟨.pragmaStart, Glyph.text (c.rest.take head), c.offset, {}⟩
  let closing : Token := ⟨.pragmaEnd, "", last.offset, {}⟩
  ({ last.advance with pending := false }, opening, tokens ++ [closing])

end Cursor

end TemplateScript
