import TemplateScript.Cursor.Word

/-!
# Number tokens

A number is a run of digits with underscores among them, in base ten or after one of the radix
marks. In base ten a fraction and an exponent may follow. A last letter makes a decimal or an
unsigned integer of it, and any letter or digit after that spoils it.
-/

namespace TemplateScript

namespace Number

/-- The number of digits and underscores at the head of a run. -/
def digitRun (radix : Nat) (glyphs : List Glyph) : Nat :=
  Glyph.countWhile (fun g => g = .char '_' || g.isDigitOf radix) glyphs

/-- Whether a digit is at the head of a run. -/
def startsWithDigit (glyphs : List Glyph) : Bool := glyphs.head?.any Glyph.isDecimalDigit

/-- The length of an exponent with at least one digit, or zero. -/
def exponentRun : List Glyph → Nat
  | .char e :: rest =>
    if e ≠ 'e' ∧ e ≠ 'E' then 0
    else
      match rest with
      | .char s :: rest' =>
        if s = '+' ∨ s = '-' then
          if startsWithDigit rest' then 2 + digitRun 10 rest' else 0
        else if startsWithDigit rest then 1 + digitRun 10 rest
        else 0
      | _ => 0
  | _ => 0

/-- Whether a point after digits, with these glyphs behind it, is a decimal point and not a
selector, a pipe or an ellipsis. -/
def isDecimalPoint : List Glyph → Bool
  | [] => true
  | .byte _ :: _ => false
  | .char c :: rest =>
    if c.isDigit then true
    else if c = 'e' ∨ c = 'E' then 0 < exponentRun (.char c :: rest)
    else if c = '|' ∨ c = '.' ∨ c = '(' ∨ c = '_' then false
    else c.toNat < 0x80 && !c.isAlpha

/-- The length of a fraction with its point, or zero. Digits must follow a point that none precede.
-/
def fractionRun (whole : Nat) : List Glyph → Nat
  | .char '.' :: rest => if whole = 0 ∨ isDecimalPoint rest then 1 + digitRun 10 rest else 0
  | _ => 0

/-- What is found of a number before its last letter. -/
structure Body where
  length : Nat
  /-- The kind, if no letter changes it. -/
  kind : Token.Kind
  /-- A radix mark began the number. -/
  isPrefixed : Bool
  /-- The radix mark has digits after it. -/
  hasDigits : Bool
deriving DecidableEq, Repr

/-- The radix mark at the head of a run. -/
def radixMark? : List Glyph → Option Nat
  | .char '0' :: .char c :: _ => radix? c
  | _ => none

/-- The number at the head of a run, up to its last letter. -/
def body (floatKind : Token.Kind) (glyphs : List Glyph) : Body :=
  match radixMark? glyphs with
  | some radix =>
    let digits := (glyphs.drop 2).take (digitRun radix (glyphs.drop 2))
    ⟨2 + digits.length, .int, true, digits.any (·.isDigitOf radix)⟩
  | none =>
    let whole := digitRun 10 glyphs
    let fraction := fractionRun whole (glyphs.drop whole)
    let exponent := exponentRun (glyphs.drop (whole + fraction))
    ⟨whole + fraction + exponent, if fraction + exponent = 0 then .int else floatKind, false, true⟩

/-- The kind that a last letter gives to a number. -/
def suffixKind? (b : Body) : List Glyph → Option Token.Kind
  | .char 'd' :: _ => if b.isPrefixed then none else some .decimal
  | .char 'u' :: _ => if b.kind = .int then some .uint else none
  | _ => none

end Number

namespace Cursor

/-- A number begins at the cursor. -/
def atNumber (c : Cursor) : Bool :=
  Number.startsWithDigit c.rest ||
    (c.rest.head? = some (.char '.') && Number.startsWithDigit (c.rest.drop 1))

/-- Read the number at the cursor. -/
def number (c : Cursor) : Cursor × Token :=
  let body := Number.body (if c.options.floatsAsDecimal then .decimal else .float) c.rest
  let digits := c.advanceBy body.length
  let digits :=
    if body.hasDigits then digits else digits.report c.offset (.illegalNumber (c.textTo digits))
  let (last, kind) :=
    match Number.suffixKind? body digits.rest with
    | some kind => (digits.advance, kind)
    | none => (digits, body.kind)
  let extra := wordRun last.rest
  if extra = 0 then (last, ⟨kind, c.textTo last, c.offset, {}⟩)
  else
    let last := last.advanceBy extra
    let literal := c.textTo last
    (last.report c.offset (.illegalNumber literal), ⟨.illegal, literal, c.offset, {}⟩)

end Cursor

end TemplateScript
