import TemplateScript.Text.Digit

/-!
# Binary64 values

A float literal denotes the double-precision number nearest to its decimal value, an exact tie going
to the even neighbour. A number is kept as its 64 bits, and all arithmetic is exact arithmetic on
naturals. Past the greatest finite number lies infinity.
-/

namespace TemplateScript

/-- A double-precision number: one sign bit, eleven exponent bits, fifty-two fraction bits. -/
structure Binary64 where
  bits : UInt64
deriving DecidableEq, Repr, Inhabited

namespace Binary64

/-- The quotient rounded to the nearest natural, a tie to the even one. -/
def roundEven (num den : Nat) : Nat :=
  let q := num / den
  let r := num % den
  if den < 2 * r ∨ (den = 2 * r ∧ q % 2 = 1) then q + 1 else q

/-- The bits of infinity, which lie right above those of the greatest finite number. -/
def infinityBits : Nat := 0x7FF0000000000000

/-- The least exponent of a unit in the last place. -/
def minExponent : Int := -1074

/-- The exponent of the unit in the last place of the numbers around `num / den`: fifty-three
significant bits, unless that exponent would be too small. -/
def unitExponent (num den : Nat) : Int :=
  let guess : Int := (num.log2 : Int) - den.log2 - 52
  let fits : Bool :=
    if guess ≥ 0 then den * Nat.pow 2 (guess.toNat + 52) ≤ num
    else den * Nat.pow 2 52 ≤ num * Nat.pow 2 (-guess).toNat
  max minExponent (if fits then guess else guess - 1)

/-- The bits of the number nearest to a positive quotient. The fraction's carry runs into the
exponent, where it belongs. -/
def ofQuotient (num den : Nat) : Nat :=
  let e := unitExponent num den
  let significand :=
    if e ≥ 0 then roundEven num (den * Nat.pow 2 e.toNat)
    else roundEven (num * Nat.pow 2 (-e).toNat) den
  min infinityBits ((e - minExponent).toNat * Nat.pow 2 52 + significand)

/-- The number nearest to `significand * 10 ^ exponent`. Powers that leave the range by far are
settled by size alone. -/
def ofDecimal (significand : Nat) (exponent : Int) : Binary64 :=
  let size : Int := (Text.decimal significand).length + exponent
  let bits :=
    if significand = 0 then 0
    else if size > 400 then infinityBits
    else if size < -400 then 0
    else if exponent ≥ 0 then ofQuotient (significand * Nat.pow 10 exponent.toNat) 1
    else ofQuotient significand (Nat.pow 10 (-exponent).toNat)
  ⟨bits.toUInt64⟩

/-- A power of ten written after `e`: digits, with at most one sign before them. -/
def exponent? (text : List Char) : Option Int :=
  let magnitude (digits : List Char) : Option Nat :=
    if digits = [] then none else Text.value? 10 digits
  match text with
  | '-' :: digits => (magnitude digits).map fun n => -(n : Int)
  | '+' :: digits => (magnitude digits).map Int.ofNat
  | digits => (magnitude digits).map Int.ofNat

/-- The number nearest to the value of a decimal text: digits, a point and more digits, and an
exponent, where the point and the exponent may be missing and one of the two runs of digits may be
empty. -/
def ofText? (text : String) : Option Binary64 := do
  let (mantissa, after) := text.toList.span fun c => c ≠ 'e' ∧ c ≠ 'E'
  let (whole, point) := mantissa.span (· ≠ '.')
  let fraction := point.drop 1
  if whole = [] ∧ fraction = [] then none
  else
    let significand ← Text.value? 10 (whole ++ fraction)
    let exponent ← if after = [] then some 0 else exponent? (after.drop 1)
    return ofDecimal significand (exponent - fraction.length)

/-- The sign bit. -/
def isNegative (x : Binary64) : Bool := Nat.pow 2 63 ≤ x.bits.toNat

/-- The exponent bits. -/
def exponentField (x : Binary64) : Nat := x.bits.toNat / Nat.pow 2 52 % Nat.pow 2 11

/-- The fraction bits. -/
def fractionField (x : Binary64) : Nat := x.bits.toNat % Nat.pow 2 52

end Binary64

end TemplateScript
