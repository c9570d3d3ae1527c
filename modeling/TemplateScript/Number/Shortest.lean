import TemplateScript.Number.Binary64

/-!
# Shortest decimals

A float is written with the fewest significant digits that read back as the same number; of several
such digit strings the one nearest to the number is taken, and of two equally near the greater.
-/

namespace TemplateScript

/-- A positive decimal `0.digits * 10 ^ point`, where the first digit is not zero. -/
structure Decimal where
  digits : List Char
  point : Int
deriving DecidableEq, Repr

/-- A positive finite number as `significand * 2 ^ exponent`, where its neighbours lie one and,
below a power of two, half a unit away. -/
structure Dyadic where
  significand : Nat
  exponent : Int
  /-- The lower neighbour is only half as far as the upper one. -/
  atPower : Bool
deriving DecidableEq, Repr

namespace Dyadic

/-- The magnitude of a finite number. -/
def ofBinary64 (x : Binary64) : Dyadic :=
  if x.exponentField = 0 then ⟨x.fractionField, Binary64.minExponent, false⟩
  else
    ⟨Nat.pow 2 52 + x.fractionField, x.exponentField - 1 + Binary64.minExponent,
      x.fractionField = 0 ∧ 1 < x.exponentField⟩

/-- The numbers that round to `d` as numerators over one denominator: the number itself, and the
ends of the interval. A unit of the significand is four. -/
def scale (d : Dyadic) (grid : Int) : Nat × Nat × Nat × Nat :=
  let two := if d.exponent ≥ 0 then Nat.pow 2 d.exponent.toNat else 1
  let halves := if d.exponent ≥ 0 then 1 else Nat.pow 2 (-d.exponent).toNat
  let tens := if grid ≥ 0 then 1 else Nat.pow 10 (-grid).toNat
  let tenths := if grid ≥ 0 then Nat.pow 10 grid.toNat else 1
  let unit := two * tens
  (4 * d.significand * unit, (4 * d.significand - if d.atPower then 1 else 2) * unit,
    (4 * d.significand + 2) * unit, 4 * halves * tenths)

/-- The multiple of `10 ^ grid` nearest to `d` among those that round to `d`. The ends of the
interval belong to it if the significand is even. -/
def onGrid? (d : Dyadic) (grid : Int) : Option Nat :=
  let (value, low, high, den) := d.scale grid
  let inside (n : Nat) : Bool :=
    if d.significand % 2 = 0 then low ≤ n * den && n * den ≤ high
    else low < n * den && n * den < high
  let below := value / den
  let above := below + 1
  if inside below && inside above then
    if value - below * den < above * den - value then some below else some above
  else if inside below then some below
  else if inside above then some above
  else none

/-- An exponent `k` with `10 ^ (k - 1) ≤ d < 10 ^ (k + 1)`, from the number of bits. -/
def magnitude (d : Dyadic) : Int :=
  let bits : Int := d.significand.log2 + d.exponent
  (bits * 30103).fdiv 100000

/-- The grids from coarse to fine, of which the first that holds a decimal for `d` is taken. -/
def search (d : Dyadic) (grid : Int) : Nat → Option (Nat × Int)
  | 0 => none
  | tries + 1 =>
    match d.onGrid? grid with
    | some n => some (n, grid)
    | none => search d (grid - 1) tries

/-- The shortest decimal of a positive number. -/
def shortest (d : Dyadic) : Decimal :=
  match search d (d.magnitude + 2) 24 with
  | some (n, grid) =>
    let digits := Text.decimal n
    ⟨(digits.reverse.dropWhile (· = '0')).reverse, digits.length + grid⟩
  | none => ⟨['0'], 0⟩

end Dyadic

/-- How a decimal is laid out: between which powers of ten it is written without an exponent. -/
structure FloatLayout where
  /-- The least power of ten of a leading digit written without an exponent. -/
  least : Int
  /-- The first power of ten that needs an exponent. -/
  bound : Int

namespace FloatLayout

/-- Float literals run from one ten-thousandth to below ten quadrillion without an exponent. -/
def literal : FloatLayout := ⟨-4, 16⟩

/-- A decimal without an exponent, with at least one digit on either side of the point. -/
def positional (d : Decimal) : List Char :=
  let size : Int := d.digits.length
  if d.point ≤ 0 then ['0', '.'] ++ List.replicate (-d.point).toNat '0' ++ d.digits
  else if size ≤ d.point then d.digits ++ List.replicate (d.point - size).toNat '0' ++ ['.', '0']
  else d.digits.take d.point.toNat ++ '.' :: d.digits.drop d.point.toNat

/-- A decimal with one digit before the point and an exponent. -/
def exponential (d : Decimal) : List Char :=
  let fraction := d.digits.drop 1
  let exponent := d.point - 1
  d.digits.take 1 ++ (if fraction = [] then [] else '.' :: fraction) ++
    ['e'] ++ (if exponent < 0 then ['-'] else []) ++ Text.decimal exponent.natAbs

/-- The text of a number. Zero keeps its sign, and what is no number has none. -/
def text (layout : FloatLayout) (x : Binary64) : String :=
  if x.exponentField = 0x7FF ∧ x.fractionField ≠ 0 then "NaN"
  else
    let magnitude :=
      if x.exponentField = 0x7FF then ['i', 'n', 'f']
      else if x.exponentField = 0 ∧ x.fractionField = 0 then ['0', '.', '0']
      else
        let d := (Dyadic.ofBinary64 x).shortest
        if layout.least < d.point ∧ d.point ≤ layout.bound then positional d else exponential d
    String.ofList ((if x.isNegative then ['-'] else []) ++ magnitude)

end FloatLayout

end TemplateScript
