import TemplateScript.Cursor.Basic
import TemplateScript.Text.Quoted

/-!
# Quoted tokens

Strings and characters end at their quote, or unterminated at the end of the line; raw text ends at
its backquotes, or unterminated at the end of the file. What is wrong with an escape is reported,
and reading goes on behind it.
-/

namespace TemplateScript

namespace Cursor

/-- Read digits of an escape that began at `start`, and their value after the digits already read.
-/
def escapeDigits (radix start : Nat) : Nat → Nat → Cursor → Cursor × Option Nat
  | 0, value, c => (c, some value)
  | count + 1, value, c =>
    match c.rest with
    | [] => (c.report start .unterminatedString, none)
    | g :: _ =>
      match Text.digit? radix g.shown with
      | none => (c.report c.offset (.illegalEscapeDigit g.shown), none)
      | some d => escapeDigits radix start count (value * radix + d) c.advance

/-- The greatest code point that an escape in a radix with a number of digits may name. -/
def escapeLimit (count : Nat) : Nat := if count ≤ 3 then 0xFF else 0x10FFFF

/-- Read the escape behind a backslash, and tell whether it is well formed. -/
def escape (quote : Char) (c : Cursor) : Cursor × Bool :=
  match c.rest with
  | [] => (c.report c.offset .unterminatedString, false)
  | g :: _ =>
    let ch := g.shown
    let isOtherQuote := (ch = '"' || ch = '\'') && ch ≠ quote
    if (Text.namedEscape? ch).isSome && !isOtherQuote then (c.advance, true)
    else
      match Text.numberEscape? ch with
      | none => (c.report c.offset (.unknownEscape ch), false)
      | some (radix, count) =>
        let digits := if radix = 8 then c else c.advance
        match escapeDigits radix c.offset count 0 digits with
        | (last, none) => (last, false)
        | (last, some value) =>
          if escapeLimit count < value ∨ (0xD800 ≤ value ∧ value < 0xE000) then
            (last.report c.offset .invalidCodePoint, false)
          else (last, true)

theorem escapeDigits_length_le (radix start count value : Nat) (c : Cursor) :
    (escapeDigits radix start count value c).1.rest.length ≤ c.rest.length := by
  induction count generalizing value c with
  | zero => exact Nat.le_refl _
  | succ count ih =>
    rw [escapeDigits]
    split
    · exact Nat.le_refl _
    · split
      · exact Nat.le_refl _
      · exact Nat.le_trans (ih _ _) (by simp)

theorem escape_length_le (quote : Char) (c : Cursor) :
    (c.escape quote).1.rest.length ≤ c.rest.length := by
  rw [escape]
  split
  · exact Nat.le_refl _
  · dsimp only
    split
    · simp
    · split
      · exact Nat.le_refl _
      · rename_i radix count _
        have h : (if radix = 8 then c else c.advance).rest.length ≤ c.rest.length := by
          split <;> simp
        have hd := Nat.le_trans (escapeDigits_length_le radix c.offset count 0 _) h
        split <;> rename_i heq <;> rw [heq] at hd
        · exact hd
        · split <;> exact hd

/-- Move past the rest of a string whose opening quote stands at `start`. -/
def quotedRest (start : Nat) (quote : Char) (c : Cursor) : Cursor :=
  match _h : c.rest with
  | [] => c.report start .unterminatedString
  | g :: _ =>
    if g = .char '\n' then c.report start .unterminatedString
    else if g = .char '\\' then quotedRest start quote (c.advance.escape quote).1
    else if g = .char quote then c.advance
    else quotedRest start quote c.advance
termination_by c.rest.length
decreasing_by
  · have h := escape_length_le quote c.advance
    rw [advance_rest, _h] at h
    rw [_h]
    exact Nat.lt_succ_of_le h
  · rw [advance_rest, _h]
    exact Nat.lt_succ_self _

/-- A count after one more character, unless a malformed one spoils it. -/
def counted (isValid : Bool) (count : Option Nat) : Option Nat :=
  if isValid then count.map (· + 1) else none

/-- Move past the rest of a character literal whose opening quote stands at `start`. Also told is
how many characters it holds, unless one is malformed or the literal does not end. -/
def charRest (start : Nat) (count : Option Nat) (c : Cursor) : Cursor × Option Nat :=
  match _h : c.rest with
  | [] => (c.report start .unterminatedChar, none)
  | g :: _ =>
    if g = .char '\n' then (c.report start .unterminatedChar, none)
    else if g = .char '\'' then (c.advance, count)
    else if g = .char '\\' then
      let step := c.advance.escape '\''
      charRest start (counted step.2 count) step.1
    else charRest start (counted true count) c.advance
termination_by c.rest.length
decreasing_by
  · have h := escape_length_le '\'' c.advance
    rw [advance_rest, _h] at h
    rw [_h]
    exact Nat.lt_succ_of_le h
  · rw [advance_rest, _h]
    exact Nat.lt_succ_self _

/-- Read the string at the cursor. -/
def quoted (quote : Char) (c : Cursor) : Cursor × Token :=
  let last := c.advance.quotedRest c.offset quote
  (last, ⟨.string, c.textTo last, c.offset, {}⟩)

/-- Read the character literal at the cursor, or the string that it is if options say so. -/
def char (c : Cursor) : Cursor × Token :=
  if c.options.charAsString then c.quoted '\''
  else
    let (last, count) := c.advance.charRest c.offset (some 0)
    let reported :=
      if count.all (· = 1) then last else last.report c.offset .illegalCharLiteral
    (reported, ⟨.char, c.textTo last, c.offset, {}⟩)

/-- A backquote. -/
def fenceGlyph : Glyph := .char Text.backquote

/-- Move past the next fence of so many backquotes, or to the end of the file if there is none. -/
def pastFence (start fence : Nat) (cause : ScanCause) (c : Cursor) : Cursor :=
  let inside := Glyph.countUntil (List.replicate fence fenceGlyph).isPrefixOf c.rest
  if inside < c.rest.length then c.advanceBy (inside + fence)
  else (c.advanceBy inside).report start cause

/-- Read the raw text at the cursor: a raw string, or a heredoc if three or more backquotes open it.
Two backquotes are the empty raw string. -/
def raw (c : Cursor) : Cursor × Token :=
  let fence := Glyph.countWhile (· = fenceGlyph) c.rest
  let opened := c.advanceBy fence
  let (kind, last) :=
    if fence = 1 then (Token.Kind.rawString, opened.pastFence c.offset 1 .unterminatedRawString)
    else if fence = 2 then (Token.Kind.rawString, opened)
    else (Token.Kind.rawHeredoc, opened.pastFence c.offset fence .unterminatedHeredoc)
  (last, ⟨kind, c.textTo last, c.offset, {}⟩)

end Cursor

end TemplateScript
