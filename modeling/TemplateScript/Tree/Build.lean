import TemplateScript.Number.Shortest
import TemplateScript.Source.File
import TemplateScript.Text.Quoted
import TemplateScript.Tree.Basic

/-!
# Built trees

Trees made by hand rather than read from a source. They have no positions, and their literals have
the texts that printing needs, so that the canonical text of a built tree can be read.
-/

namespace TemplateScript

namespace Build

/-! ### Expressions -/

/-- A name. -/
def name (text : String) : Ident := ⟨text, 0⟩

/-- A name as an expression. -/
def ident (text : String) : Expr := .ident (name text)

/-- A literal with its text. -/
def literal (value : Value) (text : String) : Expr := .literal ⟨value, text, 0⟩

/-- A signed integer. A negative one is read back as an operation. -/
def int (n : Int) : Expr := literal (.int n) (toString n)

/-- An unsigned integer. -/
def uint (n : Nat) : Expr := literal (.uint n) (toString n ++ "u")

/-- A float, in its shortest text. -/
def float (x : Binary64) : Expr := literal (.float x) (FloatLayout.literal.text x)

/-- A decimal, from its digits. -/
def decimal (text : String) : Expr := literal (.decimal text) (text ++ "d")

/-- A string. -/
def string (text : String) : Expr := literal (.string text) (Text.quote text)

/-- A character. -/
def char (c : Char) : Expr := literal (.char c) (Text.quoteChar c)

/-- A truth value. -/
def bool (b : Bool) : Expr := literal (.bool b) (if b then "true" else "false")

/-- A flag. -/
def flag (b : Bool) : Expr := literal (.flag b) (if b then "yes" else "no")

/-- The absent value. -/
def nil : Expr := .word .nil 0

/-- An array. -/
def array (elements : List Expr) : Expr := .array 0 elements 0

/-- A dict. -/
def dict (entries : List (String × Expr)) : Expr :=
  .dict 0 (entries.map fun (key, value) => ⟨key, 0, value⟩) 0

/-- A binary operation. -/
def binary (lhs : Expr) (op : Token.Kind) (rhs : Expr) : Expr := .binary lhs op 0 rhs

/-- An operation on one operand. -/
def unary (op : UnaryOp) (operand : Expr) : Expr := .unary op 0 operand

/-- A conditional. -/
def cond (test yes no : Expr) : Expr := .cond test 0 yes 0 no

/-- A call. -/
def call (func : Expr) (args : Args Expr) : Expr := .call func 0 args 0 false

/-- A call whose first argument is written before the function. -/
def pipe (first func : Expr) (args : Args Expr) : Expr :=
  .call func 0 { args with positional := first :: args.positional } 0 true

/-- An index. -/
def index (base index : Expr) : Expr := .index base 0 index 0

/-- A selection by name. -/
def selector (base : Expr) (text : String) : Expr := .selector base (string text) false

/-- A selection by name from what may be absent. -/
def nullishSelector (base : Expr) (text : String) : Expr := .selector base (string text) true

/-- An expression between parentheses. -/
def paren (inner : Expr) : Expr := .paren 0 inner 0

/-- A tuple. -/
def tuple (args : Args Expr) : Expr := .tuple 0 args 0

/-- Keys with values, or without. -/
def keyValues (entries : List (String × Option Expr)) : Expr :=
  .keyValues 0 (entries.map fun (key, value) => ⟨ident key, value⟩) 0

end Build

/-! ### Arguments -/

namespace Args

/-- One more positional argument. -/
def withArg (args : Args Expr) (e : Expr) : Args Expr :=
  { args with positional := args.positional ++ [e] }

/-- A list whose elements follow the positional arguments. -/
def withSpread (args : Args Expr) (e : Expr) : Args Expr := { args with spread := some e }

/-- One more named argument. -/
def withNamed (args : Args Expr) (name : String) (value : Expr) : Args Expr :=
  { args with named := args.named ++ [(Build.ident name, value)] }

/-- A dict whose entries follow the named arguments. -/
def withNamedSpread (args : Args Expr) (e : Expr) : Args Expr :=
  { args with namedSpread := some e }

end Args

namespace Build

/-! ### Statements -/

/-- A block. -/
def block (stmts : List Stmt) : Block Stmt := ⟨0, stmts, 0⟩

/-- A statement of one expression. -/
def expr (e : Expr) : Stmt := .expr e

/-- An assignment of one value to one target. -/
def assign (target : Expr) (op : Token.Kind) (value : Expr) : Stmt :=
  .assign [target] op 0 [value]

/-- A definition. -/
def define (text : String) (value : Expr) : Stmt := assign (ident text) .define value

/-- A branch. -/
def ifElse (test : Expr) (body : List Stmt) (otherwise : Option (List Stmt)) : Stmt :=
  .ifElse 0 none test (block body) (otherwise.map fun stmts => .block (block stmts))

/-- A loop over the elements of a collection. -/
def forIn (key : String) (value : Option String) (iterable : Expr) (body : List Stmt) : Stmt :=
  .forIn 0 (name key) (value.map name) iterable (block body) none

/-- A statement that returns. -/
def ret (result : Option Expr) : Stmt := .ret 0 result

/-- A statement that is a block. -/
def blockStmt (stmts : List Stmt) : Stmt := .block (block stmts)

/-- A declaration. -/
def decl (kind : Token.Kind) (specs : List (Spec Expr)) : Stmt := .decl kind 0 none specs none

/-- A declared name. -/
def valueSpec (text : String) (value : Option Expr) : Spec Expr := .value (name text) value

/-- A declared positional parameter. -/
def paramSpec (text : String) (variadic : Bool) : Spec Expr := .param ⟨name text, []⟩ variadic

/-- A declared named parameter; without a default it takes all remaining named arguments. -/
def namedSpec (text : String) (value : Option Expr) : Spec Expr :=
  .named ⟨name text, []⟩ value value.isNone

/-- A document. -/
def document (stmts : List Stmt) : Document := { stmts }

/-- The empty file that a built document is said to come from. -/
def source : SourceFile := { name := "<built>", base := 1, size := 0 }

end Build

end TemplateScript
