import TemplateScript.Proofs.Cursor.Lexes
import TemplateScript.Proofs.Grammar.Operand
import TemplateScript.Proofs.Source.Integer
import TemplateScript.Tree.Build

/-!
# Names and integers

Names and integers are the operands that are one token. Each has a text and a tree. The text is what
the tree is printed as, it is read as the one token before whatever may stand behind a number, and
the token is read as the tree before whatever ends an expression.
-/

namespace TemplateScript

/-- An integer that its kind holds. -/
structure Integer where
  radix : Nat
  digits : List Char
  body : List Char
  isInteger : Number.IsInteger radix digits body
  isUnsigned : Bool
  fits : Number.positional radix digits ≤ Number.greatest isUnsigned

namespace Integer

/-- The integer without its last letter. -/
def numeral (n : Integer) : Numeral := ⟨String.ofList n.body, n.isInteger.isNumeral⟩

def text (n : Integer) : String := n.numeral.literal n.isUnsigned

def value (n : Integer) : Value := .ofNat n.isUnsigned (Number.positional n.radix n.digits)

theorem ofToken?_eq (n : Integer) :
    Value.ofToken? (integerKind n.isUnsigned) n.text = some n.value :=
  (n.isInteger.ofToken?_eq n.isUnsigned).trans (if_pos n.fits)

/-- A number as an integer in base ten. -/
def ofNat (isUnsigned : Bool) (n : Nat) (h : n ≤ Number.greatest isUnsigned) : Integer where
  radix := 10
  digits := Nat.toDigits 10 n
  body := Nat.toDigits 10 n
  isInteger := Number.isInteger_toDigits n
  isUnsigned := isUnsigned
  fits := (Number.positional_toDigits n).symm ▸ h

end Integer

/-- A name or an integer. -/
inductive Atom where
  | name (x : Template.Name)
  | integer (n : Integer)

namespace Atom

/-- The text of an atom. -/
def text : Atom → String
  | name x => x.text
  | integer n => n.text

/-- The token of an atom. -/
def face : Atom → Token.Face
  | name x => x.face
  | integer n => ⟨integerKind n.isUnsigned, n.text⟩

/-- The tree of an atom. -/
def tree : Atom → Expr
  | name x => Build.ident x.text
  | integer n => Build.literal n.value n.text

/-- The atom of a number is what is built of it. -/
theorem tree_ofNat (n : Nat) (h : n ≤ Number.maxInt) :
    (integer (.ofNat false n h)).tree = Build.int n := by
  have htext : (Integer.ofNat false n h).text = toString (n : Int) :=
    (Integer.ofNat false n h).numeral.literal_signed
  have hvalue : (Integer.ofNat false n h).value = .int n :=
    congrArg (Value.ofNat false) (Number.positional_toDigits n)
  rw [tree, htext, hvalue, Build.int]

theorem tree_ofNat_unsigned (n : Nat) (h : n ≤ Number.maxUint) :
    (integer (.ofNat true n h)).tree = Build.uint n := by
  have hvalue : (Integer.ofNat true n h).value = .uint n :=
    congrArg (Value.ofNat true) (Number.positional_toDigits n)
  rw [tree, hvalue]
  rfl

theorem print_tree (a : Atom) : a.tree.print = a.text := by cases a <;> rfl

theorem unplaced_tree (a : Atom) : a.tree.unplaced = a.tree := by cases a <;> rfl

theorem endsStatement (a : Atom) : EndsStatement [a.face] := by
  refine .singleton ?_
  cases a with
  | name x => rfl
  | integer n =>
    obtain ⟨_, _, _, _, isUnsigned, _⟩ := n
    cases isUnsigned <;> rfl

theorem oneLine (a : Atom) : OneLine a.text := by
  cases a with
  | name x => exact x.oneLine
  | integer n =>
    have hsuffix : OneLine (integerSuffix n.isUnsigned) := by cases n.isUnsigned <;> decide
    exact n.numeral.oneLine.append hsuffix

/-- The text of an atom is read as its token. -/
theorem lexes {options : ScanOptions} {pending : Bool} {rest : List Glyph} (a : Atom)
    (hmixed : options.mixed = false) (hend : Cursor.EndsNumber rest) :
    Lexes options pending a.text rest [a.face] := by
  cases a with
  | name x => exact .name hmixed x hend.isLetter_eq
  | integer n => exact .integer hmixed n.numeral n.isUnsigned hend

/-- The token of an atom is read as its tree. -/
theorem reads {deep : Nested} {K : Token.Outlook} {m : Nat} (a : Atom) :
    (Grammar.expr deep).ReadsAs K m [a.face] a.tree := by
  intro g rest hg
  cases a with
  | name x =>
    refine (Grammar.expr_ident hg).mono ?_
    rintro e ⟨pos, rfl⟩
    rfl
  | integer n =>
    have hkind : integerKind n.isUnsigned ∈ Grammar.literalKinds := by
      cases n.isUnsigned <;> decide
    refine (Grammar.expr_literal hkind n.ofToken?_eq hg).mono ?_
    rintro e ⟨pos, rfl⟩
    rfl

end Atom

end TemplateScript
