import TemplateScript.Text.Digit

/-!
# Integer literals

An integer is written in base ten, or in base sixteen, eight or two after `0x`, `0o` or `0b` in
either case. Underscores among the digits do not count.
-/

namespace TemplateScript

namespace Number

/-- The radix that the letter after a leading zero announces. -/
def radix? (c : Char) : Option Nat :=
  match c with
  | 'x' | 'X' => some 16
  | 'o' | 'O' => some 8
  | 'b' | 'B' => some 2
  | _ => none

/-- The value of at least one digit. -/
def positional? (radix : Nat) (digits : List Char) : Option Nat :=
  if digits = [] then none else Text.value? radix digits

/-- The value of an integer literal without its suffix, of any size. -/
def integer? (literal : String) : Option Nat :=
  let digits := literal.toList.filter (· ≠ '_')
  match digits with
  | '0' :: c :: rest =>
    match radix? c with
    | some radix => positional? radix rest
    | none => positional? 10 digits
  | _ => positional? 10 digits

/-- The greatest signed value a literal may have. -/
def maxInt : Nat := 0x7FFFFFFFFFFFFFFF

/-- The greatest unsigned value a literal may have. -/
def maxUint : Nat := 0xFFFFFFFFFFFFFFFF

end Number

end TemplateScript
