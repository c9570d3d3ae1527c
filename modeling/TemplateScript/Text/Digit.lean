/-!
# Digits

The value of digits in a radix of at most sixteen, and back. Digits past nine are the letters from
`a`, in either case when read and small when written.
-/

namespace TemplateScript

namespace Text

/-- The value of a digit in a radix. -/
def digit? (radix : Nat) (c : Char) : Option Nat :=
  let value :=
    if '0' ≤ c ∧ c ≤ '9' then some (c.toNat - '0'.toNat)
    else if 'a' ≤ c ∧ c ≤ 'f' then some (c.toNat - 'a'.toNat + 10)
    else if 'A' ≤ c ∧ c ≤ 'F' then some (c.toNat - 'A'.toNat + 10)
    else none
  value.filter (· < radix)

/-- A digit of a radix. -/
def isDigit (radix : Nat) (c : Char) : Bool := (digit? radix c).isSome

/-- The value of digits that continue a number already read. -/
def valueFrom? (radix : Nat) : Nat → List Char → Option Nat
  | acc, [] => some acc
  | acc, c :: rest => (digit? radix c).bind fun d => valueFrom? radix (acc * radix + d) rest

/-- The value of a run of digits; a character that is no digit spoils it. -/
def value? (radix : Nat) (digits : List Char) : Option Nat := valueFrom? radix 0 digits

/-- The digits of a number in base sixteen, at least `least` of them. -/
def hex (least n : Nat) : List Char :=
  let digits := Nat.toDigits 16 n
  List.replicate (least - digits.length) '0' ++ digits

/-- The decimal digits of a number. -/
def decimal (n : Nat) : List Char := Nat.toDigits 10 n

/-- The character of a code point, unless it is a surrogate or past the last plane. -/
def scalar? (n : Nat) : Option Char := if n.isValidChar then some (Char.ofNat n) else none

end Text

end TemplateScript
