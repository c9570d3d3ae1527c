import TemplateScript.Number.Binary64
import TemplateScript.Token.Basic

/-!
# Syntax trees

The tree of a script or template. Every node keeps the positions that its extent and its diagnostics
need; literals keep the text they were read from, which is what printing writes. A tree that no
source was read for has no positions, which is to say zeros.
-/

namespace TemplateScript

/-- A name and where it stands. -/
structure Ident where
  name : String
  pos : Pos
deriving DecidableEq, Repr, Inhabited

/-- A name with the types it may have, if any are given. -/
structure TypedIdent where
  ident : Ident
  types : List Ident := []
deriving DecidableEq, Repr, Inhabited

/-- An operator with one operand: those written before it, and the two tests for nil written after
it. -/
inductive UnaryOp where
  | neg
  | plus
  | not
  | bitNot
  | isNil
  | notNil
deriving DecidableEq, Repr, Inhabited

namespace UnaryOp

/-- The text of an operator. -/
def spelling : UnaryOp → String
  | neg => "-"
  | plus => "+"
  | not => "!"
  | bitNot => "^"
  | isNil => "== nil"
  | notNil => "!= nil"

/-- The operator is written after its operand. -/
def isTest (op : UnaryOp) : Bool := op = isNil || op = notNil

end UnaryOp

/-- The value of a literal. -/
inductive Value where
  | int (n : Int)
  | uint (n : Nat)
  | float (x : Binary64)
  /-- An exact decimal number, kept as its text. -/
  | decimal (text : String)
  | char (c : Char)
  | string (text : String)
  | rawString (text : String)
  | heredoc (text : String)
  | bool (b : Bool)
  /-- `yes` or `no`. -/
  | flag (b : Bool)
deriving DecidableEq, Repr, Inhabited

/-- A value, the text it was read from and where that text starts. -/
structure Literal where
  value : Value
  text : String
  pos : Pos
deriving DecidableEq, Repr, Inhabited

/-- A keyword that is an expression of its own. -/
inductive Word where
  | nil
  | callee
  | args
  | namedArgs
deriving DecidableEq, Repr, Inhabited

/-- The text of a keyword expression. -/
def Word.spelling : Word → String
  | .nil => Token.Kind.nilWord.spelling
  | .callee => Token.Kind.calleeWord.spelling
  | .args => Token.Kind.argsWord.spelling
  | .namedArgs => Token.Kind.namedArgsWord.spelling

/-- One entry of a dict. Entries with equal keys are all kept. -/
structure DictEntry (α : Type) where
  key : String
  keyPos : Pos
  value : α

/-- A key, a name or a string, with a value or without one. -/
structure KeyValue (α : Type) where
  key : α
  value : Option α

/-- The arguments of a call, or the parts of a tuple: `a, *b; c=d, **e`. -/
structure Args (α : Type) where
  positional : List α := []
  /-- The list whose elements follow the positional arguments. -/
  spread : Option α := none
  named : List (α × α) := []
  /-- The dict whose entries follow the named arguments. -/
  namedSpread : Option α := none
deriving Inhabited

namespace Args

variable {α : Type}

/-- There are named arguments, or a dict of them. -/
def hasNamed (args : Args α) : Bool := !args.named.isEmpty || args.namedSpread.isSome

/-- There are no arguments at all. -/
def isEmpty (args : Args α) : Bool :=
  args.positional.isEmpty && args.spread.isNone && !args.hasNamed

/-- There is one positional argument and nothing else. -/
def single? (args : Args α) : Option α :=
  match args with
  | ⟨[a], none, [], none⟩ => some a
  | _ => none

end Args

/-- The parameters of a function: `(a, *b; c=d, **e)`. -/
structure Params (α : Type) where
  lparen : Pos
  positional : List TypedIdent := []
  /-- The parameter that takes the remaining positional arguments. -/
  variadic : Option TypedIdent := none
  /-- The parameters with defaults. -/
  named : List (TypedIdent × α) := []
  /-- The parameter that takes the remaining named arguments. -/
  namedVariadic : Option TypedIdent := none
  rparen : Pos

/-- There are named parameters, or one that takes them all. -/
def Params.hasNamed {α : Type} (params : Params α) : Bool :=
  !params.named.isEmpty || params.namedVariadic.isSome

/-- Statements between braces, or between the words that stand for them. -/
structure Block (α : Type) where
  lbrace : Pos
  stmts : List α
  rbrace : Pos

/-- One entry of a declaration. -/
inductive Spec (α : Type) where
  /-- `a`, or `*a` if variadic. -/
  | param (ident : TypedIdent) (variadic : Bool)
  /-- `a=b`, or `**a` if variadic. -/
  | named (ident : TypedIdent) (value : Option α) (variadic : Bool)
  /-- `a` or `a = b`. -/
  | value (ident : Ident) (value : Option α)

/-- What is done with what a block throws. -/
structure CatchClause (α : Type) where
  pos : Pos
  ident : Option Ident
  body : Block α

/-- What is done whether or not a block throws. -/
structure FinallyClause (α : Type) where
  pos : Pos
  body : Block α

/-- Which of the two ways to load something a name stands for. -/
inductive LoadKind where
  | imported
  | embedded
deriving DecidableEq, Repr, Inhabited

/-- A run of text in a template. -/
structure MixedText where
  pos : Pos
  /-- The text as it stands in the source. -/
  literal : String
  /-- The text without the backslashes before delimiters. -/
  value : String
  flags : Token.Flags
deriving DecidableEq, Repr, Inhabited

/-- A delimiter of a template. -/
structure Delimiter where
  pos : Pos
  literal : String
  flags : Token.Flags
deriving DecidableEq, Repr, Inhabited

/-- The options that a pragma line sets. -/
structure PragmaOptions where
  mixed : Option Bool := none
  opening : Option String := none
  closing : Option String := none
  floatsAsDecimal : Option Bool := none
  charAsString : Option Bool := none
  valueSugar : Option Bool := none
deriving DecidableEq, Repr, Inhabited

mutual

/-- An expression. -/
inductive Expr where
  | ident (id : Ident)
  | literal (lit : Literal)
  | word (word : Word) (pos : Pos)
  | array (lbrack : Pos) (elements : List Expr) (rbrack : Pos)
  | dict (lbrace : Pos) (entries : List (DictEntry Expr)) (rbrace : Pos)
  | binary (lhs : Expr) (op : Token.Kind) (opPos : Pos) (rhs : Expr)
  | unary (op : UnaryOp) (opPos : Pos) (operand : Expr)
  | cond (test : Expr) (question : Pos) (yes : Expr) (colon : Pos) (no : Expr)
  /-- A call. If it is piped, its first argument is written before the function. -/
  | call (func : Expr) (lparen : Pos) (args : Args Expr) (rparen : Pos) (piped : Bool)
  | index (base : Expr) (lbrack : Pos) (index : Expr) (rbrack : Pos)
  | slice (base : Expr) (lbrack : Pos) (low high : Option Expr) (rbrack : Pos)
  /-- A selection by a string, which is written as a bare name, or by the value of an expression. -/
  | selector (base : Expr) (name : Expr) (nullish : Bool)
  | paren (lparen : Pos) (inner : Expr) (rparen : Pos)
  | tuple (lparen : Pos) (args : Args Expr) (rparen : Pos)
  | keyValues (lparen : Pos) (entries : List (KeyValue Expr)) (rparen : Pos)
  | func (pos : Pos) (name : Option Ident) (params : Params Expr) (body : Block Stmt)
  /-- A function whose body is an expression. -/
  | closure (pos : Pos) (params : Params Expr) (arrow : Pos) (body : Expr)
  | load (kind : LoadKind) (pos : Pos) (path : String) (rparen : Pos)
  | ret (pos : Pos) (result : Option Expr)
  /-- A literal without a value. -/
  | bad (first last : Pos)

/-- A statement. -/
inductive Stmt where
  | expr (e : Expr)
  /-- A semicolon on its own, which a line break may stand for. -/
  | empty (pos : Pos) (isImplicit : Bool)
  | block (body : Block Stmt)
  | assign (targets : List Expr) (op : Token.Kind) (opPos : Pos) (values : List Expr)
  /-- A declaration of parameters, globals, variables or constants, with the parentheses around its
  entries if there are any. -/
  | decl (kind : Token.Kind) (pos : Pos) (lparen : Option Pos) (specs : List (Spec Expr))
      (rparen : Option Pos)
  | ifElse (pos : Pos) (init : Option Stmt) (test : Expr) (body : Block Stmt)
      (otherwise : Option Stmt)
  | forLoop (pos : Pos) (init : Option Stmt) (test : Option Expr) (post : Option Stmt)
      (body : Block Stmt) (otherwise : Option (Block Stmt))
  | forIn (pos : Pos) (key : Ident) (value : Option Ident) (iterable : Expr)
      (body : Block Stmt) (otherwise : Option (Block Stmt))
  /-- `break` or `continue`. -/
  | branch (kind : Token.Kind) (pos : Pos)
  | ret (pos : Pos) (result : Option Expr)
  /-- `target++` or `target--`. -/
  | incDec (target : Expr) (op : Token.Kind) (opPos : Pos)
  | tryCatch (pos : Pos) (body : Block Stmt) (handler : Option (CatchClause Stmt))
      (finalizer : Option (FinallyClause Stmt))
  | throw (pos : Pos) (e : Expr)
  | mixedText (text : MixedText)
  | codeBegin (d : Delimiter)
  | codeEnd (d : Delimiter)
  /-- An expression between delimiters, whose value is emitted. -/
  | mixedValue (opening : Delimiter) (e : Expr) (closing : Delimiter)
  | pragma (pos : Pos) (entries : List (KeyValue Expr)) (options : PragmaOptions) (last : Pos)
  /-- What was skipped because it is no statement. -/
  | bad (first last : Pos)

end

instance : Inhabited Expr := ⟨.bad 0 0⟩

instance : Inhabited Stmt := ⟨.bad 0 0⟩

namespace Expr

/-- Only a name, an index or a selection can be assigned to. -/
def isAssignable : Expr → Bool
  | ident _ | index .. | selector .. => true
  | _ => false

/-- The expression is a name. -/
def ident? : Expr → Option Ident
  | ident id => some id
  | _ => none

/-- The expression may stand before the `=` of a named argument. -/
def isArgName : Expr → Bool
  | ident _ => true
  | literal ⟨.string _, _, _⟩ | literal ⟨.rawString _, _, _⟩ => true
  | _ => false

end Expr

namespace Stmt

/-- The statement is a part of a template outside its code, or changes how what follows is read. -/
def isMixedBoundary : Stmt → Bool
  | mixedText _ | codeBegin _ | codeEnd _ | mixedValue .. | pragma .. => true
  | _ => false

/-- The statement is a semicolon on its own. -/
def isEmpty : Stmt → Bool
  | empty .. => true
  | _ => false

/-- The statement is a pragma line. -/
def isPragma : Stmt → Bool
  | pragma .. => true
  | _ => false

end Stmt

/-- A comment and where it stands. -/
structure Comment where
  pos : Pos
  text : String
deriving DecidableEq, Repr, Inhabited

/-- Comments on adjacent lines with nothing in between. -/
abbrev CommentGroup := List Comment

/-- The tree of a source, and the comments in it. -/
structure Document where
  stmts : List Stmt
  comments : List CommentGroup := []

end TemplateScript
