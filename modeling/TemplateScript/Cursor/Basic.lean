import TemplateScript.Diagnostic.Basic
import TemplateScript.Options
import TemplateScript.Source.File
import TemplateScript.Text.Glyph
import TemplateScript.Token.Basic

/-!
# Cursors

A cursor stands at a glyph of a file and knows what has been met so far: where the lines start, what
was wrong, and what the next token depends on. It moves only by `advance`, one glyph at a time.
Leaving a line break records the next line, and arriving at a glyph that no source should hold is
reported at once, so every error is resolved against a line table that already covers it.
-/

namespace TemplateScript

/-- The brackets that are open, by sort. A closing bracket that closes nothing is ignored. -/
structure Nesting where
  parens : Nat := 0
  brackets : Nat := 0
  braces : Nat := 0
deriving DecidableEq, Repr, Inhabited

namespace Nesting

/-- Some bracket is open. -/
def isOpen (n : Nesting) : Bool := 0 < n.parens + n.brackets + n.braces

/-- The open brackets after one more mark. -/
def after (n : Nesting) : Token.Kind → Nesting
  | .lparen => { n with parens := n.parens + 1 }
  | .rparen => { n with parens := n.parens - 1 }
  | .lbrack => { n with brackets := n.brackets + 1 }
  | .rbrack => { n with brackets := n.brackets - 1 }
  | .lbrace => { n with braces := n.braces + 1 }
  | .rbrace => { n with braces := n.braces - 1 }
  | _ => n

end Nesting

/-- A point in a file that is being read. Offsets, and the positions of tokens, count from the start
of the file. -/
structure Cursor where
  file : SourceFile
  options : ScanOptions
  /-- The glyphs from the cursor on. -/
  rest : List Glyph
  offset : Nat := 0
  /-- The offset at which the current line starts. -/
  lineStart : Nat := 0
  /-- The token before the cursor ends a statement if a line break follows. -/
  pending : Bool := false
  /-- The cursor is in the text of a template, not in its code. -/
  inText : Bool := false
  /-- The code around the cursor is a value to emit. -/
  inValue : Bool := false
  /-- The text that follows loses the blanks it begins with. -/
  trimNext : Bool := false
  nesting : Nesting := {}
  /-- Tokens that have been read but not handed out. -/
  pool : List Token := []
  /-- Everything found wrong, in order. -/
  errors : List ScanError := []
  /-- How many of the errors have been handed out. -/
  taken : Nat := 0
deriving Inhabited

namespace Cursor

/-- The mark that may stand at the start of a file and nowhere else. -/
def byteOrderMark : Char := '\uFEFF'

/-- Report something wrong at an offset. -/
def report (c : Cursor) (offset : Nat) (cause : ScanCause) : Cursor :=
  { c with errors := c.errors ++ [⟨c.file.place offset, cause⟩] }

/-- Report the glyph at the cursor if no source should hold it there. -/
def arrive (c : Cursor) : Cursor :=
  match c.rest with
  | .byte _ :: _ => c.report c.offset .illegalEncoding
  | .char ch :: _ =>
    if ch = byteOrderMark ∧ 0 < c.offset then c.report c.offset .illegalByteOrderMark else c
  | [] => c

/-- Record the line after a line break. -/
def leave (c : Cursor) (g : Glyph) : Cursor :=
  if g = .char '\n' then
    { c with lineStart := c.offset + 1, file := c.file.addLine (c.offset + 1) }
  else c

/-- Move past one glyph. -/
def advance (c : Cursor) : Cursor :=
  match c.rest with
  | [] => c
  | g :: rest => arrive { c.leave g with rest, offset := c.offset + g.width }

/-- Move past a number of glyphs. -/
def advanceBy : Nat → Cursor → Cursor
  | 0, c => c
  | n + 1, c => advanceBy n c.advance

@[simp] theorem arrive_rest (c : Cursor) : c.arrive.rest = c.rest := by
  unfold arrive
  split <;> try rfl
  split <;> rfl

@[simp] theorem report_rest (c : Cursor) (offset : Nat) (cause : ScanCause) :
    (c.report offset cause).rest = c.rest := rfl

@[simp] theorem advance_rest (c : Cursor) : c.advance.rest = c.rest.tail := by
  unfold advance
  split <;> rename_i h <;> simp [h]

@[simp] theorem advanceBy_rest (n : Nat) (c : Cursor) : (c.advanceBy n).rest = c.rest.drop n := by
  induction n generalizing c with
  | zero => rfl
  | succ n ih => rw [advanceBy, ih, advance_rest, List.drop_tail]

/-- The text between an earlier cursor and a later one. -/
def textTo (c later : Cursor) : String :=
  Glyph.text (c.rest.take (c.rest.length - later.rest.length))

/-- A cursor at the start of a file, past a byte order mark. -/
def start (file : SourceFile) (options : ScanOptions) (glyphs : List Glyph) : Cursor :=
  let c := arrive { file, options, rest := glyphs, inText := options.mixed }
  if c.rest.head? = some (.char byteOrderMark) then
    let c := c.advance
    { c with lineStart := c.offset }
  else c

/-- A cursor at the start of a file whose content has the file's size. -/
def start? (file : SourceFile) (options : ScanOptions) (glyphs : List Glyph) :
    Except Fault Cursor :=
  if file.size = Glyph.widths glyphs then .ok (start file options glyphs) else .error .sizeMismatch

/-- Move past the blanks that separate tokens. A line break is one of them unless it ends a
statement. -/
def skipBlanks (c : Cursor) : Cursor :=
  c.advanceBy (Glyph.countWhile (fun g => g.isInlineSpace || (g = .char '\n' && !c.pending)) c.rest)

/-- The semicolon that a line break or the end of the file stands for. -/
def insertedSemicolon (c : Cursor) : Token := ⟨.semicolon, "\n", c.offset, { inserted := true }⟩

/-- The end of the file. -/
def endOfFile (c : Cursor) : Token := ⟨.eof, "", c.offset, {}⟩

end Cursor

end TemplateScript
