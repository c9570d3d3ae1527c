/-!
# Glyphs

A source is read one glyph at a time: a character where the bytes encode one, and otherwise a single
byte that begins no character. Reading never fails and never loses a byte. Text cut from a source
shows each broken sequence as one replacement character.
-/

namespace TemplateScript

/-- One step through a source. -/
inductive Glyph where
  | char (c : Char)
  /-- A byte that begins no well-formed character. -/
  | byte (b : UInt8)
deriving DecidableEq, Repr, Inhabited

/-- What a lead byte promises: how many continuation bytes follow, the range of the first of them,
and the bits it contributes itself. -/
structure Lead where
  owed : Nat
  low : UInt8
  high : UInt8
  bits : Nat
deriving DecidableEq, Repr

/-- Overlong forms, surrogates and code points past the last plane are shut out by the range of the
second byte. -/
def Lead.of? (b : UInt8) : Option Lead :=
  if b < 0x80 then some ⟨0, 0x80, 0xBF, b.toNat⟩
  else if b < 0xC2 then none
  else if b < 0xE0 then some ⟨1, 0x80, 0xBF, b.toNat - 0xC0⟩
  else if b < 0xF0 then
    some ⟨2, if b = 0xE0 then 0xA0 else 0x80, if b = 0xED then 0x9F else 0xBF, b.toNat - 0xE0⟩
  else if b < 0xF5 then
    some ⟨3, if b = 0xF0 then 0x90 else 0x80, if b = 0xF4 then 0x8F else 0xBF, b.toNat - 0xF0⟩
  else none

/-- The continuation bytes, at most `owed`, that are really there. Only the first has a range of its
own. -/
def continuations (owed : Nat) (low high : UInt8) : List UInt8 → List UInt8
  | [] => []
  | b :: rest =>
    match owed with
    | 0 => []
    | n + 1 => if low ≤ b ∧ b ≤ high then b :: continuations n 0x80 0xBF rest else []

namespace Glyph

/-- The character encoded at the head of some bytes. -/
def head? : List UInt8 → Option Char
  | [] => none
  | a :: rest =>
    match Lead.of? a with
    | none => none
    | some lead =>
      let tail := continuations lead.owed lead.low lead.high rest
      if tail.length = lead.owed then
        some (Char.ofNat (tail.foldl (fun bits b => bits * 64 + (b.toNat - 0x80)) lead.bits))
      else none

/-- The glyphs of some bytes after the first `skip` of them, which belong to a glyph already read.
-/
def ofBytesAfter : Nat → List UInt8 → List Glyph
  | _, [] => []
  | skip + 1, _ :: rest => ofBytesAfter skip rest
  | 0, a :: rest =>
    match head? (a :: rest) with
    | some c => .char c :: ofBytesAfter (c.utf8Size - 1) rest
    | none => .byte a :: ofBytesAfter 0 rest

/-- The glyphs of a source. -/
def ofBytes (bytes : List UInt8) : List Glyph := ofBytesAfter 0 bytes

/-- The glyphs of a text: its characters. -/
def ofText (text : String) : List Glyph := text.toList.map .char

/-- The number of bytes a glyph covers. -/
def width : Glyph → Nat
  | .char c => c.utf8Size
  | .byte _ => 1

/-- The number of bytes a run of glyphs covers. -/
def widths : List Glyph → Nat
  | [] => 0
  | g :: rest => g.width + widths rest

/-- The character that stands for a glyph in a message. -/
def shown : Glyph → Char
  | .char c => c
  | .byte _ => '\uFFFD'

/-- The bytes at the head of a run of glyphs that are no characters. -/
def leadingBytes : List Glyph → List UInt8
  | .byte b :: rest => b :: leadingBytes rest
  | _ => []

/-- The characters of a run of glyphs after the first `skip` of them. A byte and the continuation
bytes it goes with, too few to make a character, count as one. -/
def charsAfter : Nat → List Glyph → List Char
  | _, [] => []
  | skip + 1, _ :: rest => charsAfter skip rest
  | 0, .char c :: rest => c :: charsAfter 0 rest
  | 0, .byte a :: rest =>
    let part := match Lead.of? a with
      | none => []
      | some lead => continuations lead.owed lead.low lead.high (leadingBytes rest)
    '\uFFFD' :: charsAfter part.length rest

/-- The text of a run of glyphs. -/
def text (glyphs : List Glyph) : String := String.ofList (charsAfter 0 glyphs)

/-- Whether a run of glyphs begins with a word. No run begins with the empty word. -/
def startsWith (glyphs : List Glyph) (word : String) : Bool :=
  word ≠ "" && (ofText word).isPrefixOf glyphs

/-- The number of glyphs before the first point of a run where `stop` holds of what remains. -/
def countUntil (stop : List Glyph → Bool) : List Glyph → Nat
  | [] => 0
  | g :: rest => if stop (g :: rest) then 0 else countUntil stop rest + 1

/-- The number of glyphs at the head of a run that satisfy `p`. -/
def countWhile (p : Glyph → Bool) (glyphs : List Glyph) : Nat := (glyphs.takeWhile p).length

/-- The five blanks that trimming removes next to a delimiter. -/
def isSpace (g : Glyph) : Bool :=
  g = .char ' ' || g = .char '\t' || g = .char '\n' || g = .char '\r' || g = .char '\x0c'

/-- A blank that cannot end a line. -/
def isInlineSpace (g : Glyph) : Bool := g = .char ' ' || g = .char '\t' || g = .char '\r'

/-- The separators allowed between the `#` of a pragma line and its marker. -/
def isTabOrSpace (g : Glyph) : Bool := g = .char ' ' || g = .char '\t'

/-- An ASCII decimal digit. -/
def isDecimalDigit : Glyph → Bool
  | .char c => c.isDigit
  | .byte _ => false

end Glyph

end TemplateScript
