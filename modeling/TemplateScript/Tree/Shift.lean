import TemplateScript.Tree.Basic

/-!
# Shifted trees

A tree read from a source that begins further on is the same tree with all positions moved by the
same distance.
-/

namespace TemplateScript

/-- A name further on. -/
def Ident.shift (n : Nat) (i : Ident) : Ident := { i with pos := i.pos + n }

/-- A typed name further on. -/
def TypedIdent.shift (n : Nat) (t : TypedIdent) : TypedIdent :=
  ⟨t.ident.shift n, t.types.map (·.shift n)⟩

/-- A literal further on. -/
def Literal.shift (n : Nat) (l : Literal) : Literal := { l with pos := l.pos + n }

/-- A delimiter further on. -/
def Delimiter.shift (n : Nat) (d : Delimiter) : Delimiter := { d with pos := d.pos + n }

/-- A run of text further on. -/
def MixedText.shift (n : Nat) (t : MixedText) : MixedText := { t with pos := t.pos + n }

/-- A comment further on. -/
def Comment.shift (n : Nat) (c : Comment) : Comment := { c with pos := c.pos + n }

mutual

/-- An expression further on. -/
def Expr.shift (n : Nat) : Expr → Expr
  | .ident id => .ident (id.shift n)
  | .literal lit => .literal (lit.shift n)
  | .word word pos => .word word (pos + n)
  | .array lbrack elements rbrack => .array (lbrack + n) (shiftExprs n elements) (rbrack + n)
  | .dict lbrace entries rbrace => .dict (lbrace + n) (shiftEntries n entries) (rbrace + n)
  | .binary lhs op opPos rhs => .binary (lhs.shift n) op (opPos + n) (rhs.shift n)
  | .unary op opPos operand => .unary op (opPos + n) (operand.shift n)
  | .cond test question yes colon no =>
    .cond (test.shift n) (question + n) (yes.shift n) (colon + n) (no.shift n)
  | .call func lparen args rparen piped =>
    .call (func.shift n) (lparen + n) (shiftArgs n args) (rparen + n) piped
  | .index base lbrack index rbrack =>
    .index (base.shift n) (lbrack + n) (index.shift n) (rbrack + n)
  | .slice base lbrack low high rbrack =>
    .slice (base.shift n) (lbrack + n) (shiftExpr? n low) (shiftExpr? n high) (rbrack + n)
  | .selector base name nullish => .selector (base.shift n) (name.shift n) nullish
  | .paren lparen inner rparen => .paren (lparen + n) (inner.shift n) (rparen + n)
  | .tuple lparen args rparen => .tuple (lparen + n) (shiftArgs n args) (rparen + n)
  | .keyValues lparen entries rparen =>
    .keyValues (lparen + n) (shiftKeyValues n entries) (rparen + n)
  | .func pos name params body =>
    .func (pos + n) (name.map (·.shift n)) (shiftParams n params) (shiftBlock n body)
  | .closure pos params arrow body =>
    .closure (pos + n) (shiftParams n params) (arrow + n) (body.shift n)
  | .load kind pos path rparen => .load kind (pos + n) path (rparen + n)
  | .ret pos result => .ret (pos + n) (shiftExpr? n result)
  | .bad first last => .bad (first + n) (last + n)

/-- Expressions further on. -/
def shiftExprs (n : Nat) : List Expr → List Expr
  | [] => []
  | e :: rest => e.shift n :: shiftExprs n rest

/-- An expression further on, if there is one. -/
def shiftExpr? (n : Nat) : Option Expr → Option Expr
  | none => none
  | some e => some (e.shift n)

/-- Dict entries further on. -/
def shiftEntries (n : Nat) : List (DictEntry Expr) → List (DictEntry Expr)
  | [] => []
  | ⟨key, keyPos, value⟩ :: rest => ⟨key, keyPos + n, value.shift n⟩ :: shiftEntries n rest

/-- Keys with their values further on. -/
def shiftKeyValues (n : Nat) : List (KeyValue Expr) → List (KeyValue Expr)
  | [] => []
  | ⟨key, value⟩ :: rest => ⟨key.shift n, shiftExpr? n value⟩ :: shiftKeyValues n rest

/-- Named arguments further on. -/
def shiftNamed (n : Nat) : List (Expr × Expr) → List (Expr × Expr)
  | [] => []
  | (name, value) :: rest => (name.shift n, value.shift n) :: shiftNamed n rest

/-- Arguments further on. -/
def shiftArgs (n : Nat) : Args Expr → Args Expr
  | ⟨positional, spread, named, namedSpread⟩ =>
    ⟨shiftExprs n positional, shiftExpr? n spread, shiftNamed n named, shiftExpr? n namedSpread⟩

/-- Parameters with defaults further on. -/
def shiftDefaults (n : Nat) : List (TypedIdent × Expr) → List (TypedIdent × Expr)
  | [] => []
  | (ident, value) :: rest => (ident.shift n, value.shift n) :: shiftDefaults n rest

/-- Parameters further on. -/
def shiftParams (n : Nat) : Params Expr → Params Expr
  | ⟨lparen, positional, variadic, named, namedVariadic, rparen⟩ =>
    ⟨lparen + n, positional.map (·.shift n), variadic.map (·.shift n), shiftDefaults n named,
      namedVariadic.map (·.shift n), rparen + n⟩

/-- Entries of a declaration further on. -/
def shiftSpecs (n : Nat) : List (Spec Expr) → List (Spec Expr)
  | [] => []
  | .param ident variadic :: rest => .param (ident.shift n) variadic :: shiftSpecs n rest
  | .named ident value variadic :: rest =>
    .named (ident.shift n) (shiftExpr? n value) variadic :: shiftSpecs n rest
  | .value ident value :: rest =>
    .value (ident.shift n) (shiftExpr? n value) :: shiftSpecs n rest

/-- A block further on. -/
def shiftBlock (n : Nat) : Block Stmt → Block Stmt
  | ⟨lbrace, stmts, rbrace⟩ => ⟨lbrace + n, shiftStmts n stmts, rbrace + n⟩

/-- A block further on, if there is one. -/
def shiftBlock? (n : Nat) : Option (Block Stmt) → Option (Block Stmt)
  | none => none
  | some body => some (shiftBlock n body)

/-- A clause that handles what is thrown further on, if there is one. -/
def shiftCatch? (n : Nat) : Option (CatchClause Stmt) → Option (CatchClause Stmt)
  | none => none
  | some ⟨pos, ident, body⟩ => some ⟨pos + n, ident.map (·.shift n), shiftBlock n body⟩

/-- A clause that is always run further on, if there is one. -/
def shiftFinally? (n : Nat) : Option (FinallyClause Stmt) → Option (FinallyClause Stmt)
  | none => none
  | some ⟨pos, body⟩ => some ⟨pos + n, shiftBlock n body⟩

/-- Statements further on. -/
def shiftStmts (n : Nat) : List Stmt → List Stmt
  | [] => []
  | s :: rest => s.shift n :: shiftStmts n rest

/-- A statement further on, if there is one. -/
def shiftStmt? (n : Nat) : Option Stmt → Option Stmt
  | none => none
  | some s => some (s.shift n)

/-- A statement further on. -/
def Stmt.shift (n : Nat) : Stmt → Stmt
  | .expr e => .expr (e.shift n)
  | .empty pos isImplicit => .empty (pos + n) isImplicit
  | .block body => .block (shiftBlock n body)
  | .assign targets op opPos values =>
    .assign (shiftExprs n targets) op (opPos + n) (shiftExprs n values)
  | .decl kind pos lparen specs rparen =>
    .decl kind (pos + n) (lparen.map (· + n)) (shiftSpecs n specs) (rparen.map (· + n))
  | .ifElse pos init test body otherwise =>
    .ifElse (pos + n) (shiftStmt? n init) (test.shift n) (shiftBlock n body)
      (shiftStmt? n otherwise)
  | .forLoop pos init test post body otherwise =>
    .forLoop (pos + n) (shiftStmt? n init) (shiftExpr? n test) (shiftStmt? n post)
      (shiftBlock n body) (shiftBlock? n otherwise)
  | .forIn pos key value iterable body otherwise =>
    .forIn (pos + n) (key.shift n) (value.map (·.shift n)) (iterable.shift n)
      (shiftBlock n body) (shiftBlock? n otherwise)
  | .branch kind pos => .branch kind (pos + n)
  | .ret pos result => .ret (pos + n) (shiftExpr? n result)
  | .incDec target op opPos => .incDec (target.shift n) op (opPos + n)
  | .tryCatch pos body handler finalizer =>
    .tryCatch (pos + n) (shiftBlock n body) (shiftCatch? n handler) (shiftFinally? n finalizer)
  | .throw pos e => .throw (pos + n) (e.shift n)
  | .mixedText text => .mixedText (text.shift n)
  | .codeBegin d => .codeBegin (d.shift n)
  | .codeEnd d => .codeEnd (d.shift n)
  | .mixedValue opening e closing => .mixedValue (opening.shift n) (e.shift n) (closing.shift n)
  | .pragma pos entries options last =>
    .pragma (pos + n) (shiftKeyValues n entries) options (last + n)
  | .bad first last => .bad (first + n) (last + n)

end

/-- A document further on. -/
def Document.shift (n : Nat) (d : Document) : Document :=
  ⟨shiftStmts n d.stmts, d.comments.map fun group => group.map (·.shift n)⟩

end TemplateScript
