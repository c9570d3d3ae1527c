import TemplateScript.Grammar.Expression

/-!
# Trees without parentheses

Printing puts operations between parentheses, and a comparison with nil is read as a test. So a tree
is bare if there are no parentheses in it and every comparison with nil is a test. Two trees mean
the same if they are the same bare tree.
-/

namespace TemplateScript

mutual

/-- An expression without parentheses, in which comparisons with nil are tests. -/
def Expr.bare : Expr → Expr
  | .ident id => .ident id
  | .literal lit => .literal lit
  | .word word pos => .word word pos
  | .array lbrack elements rbrack => .array lbrack (bareExprs elements) rbrack
  | .dict lbrace entries rbrace => .dict lbrace (bareEntries entries) rbrace
  | .binary lhs op opPos rhs => Grammar.operation lhs.bare op opPos rhs.bare
  | .unary op opPos operand => .unary op opPos operand.bare
  | .cond test question yes colon no => .cond test.bare question yes.bare colon no.bare
  | .call callee lparen args rparen piped =>
    .call callee.bare lparen (bareArgs args) rparen piped
  | .index base lbrack key rbrack => .index base.bare lbrack key.bare rbrack
  | .slice base lbrack low high rbrack =>
    .slice base.bare lbrack (bareExpr? low) (bareExpr? high) rbrack
  | .selector base name nullish => .selector base.bare name.bare nullish
  | .paren _ inner _ => inner.bare
  | .tuple lparen args rparen => .tuple lparen (bareArgs args) rparen
  | .keyValues lparen entries rparen => .keyValues lparen (bareKeyValues entries) rparen
  | .func pos name params body => .func pos name (bareParams params) (bareBlock body)
  | .closure pos params arrow body => .closure pos (bareParams params) arrow body.bare
  | .load kind pos path rparen => .load kind pos path rparen
  | .ret pos result => .ret pos (bareExpr? result)
  | .bad first last => .bad first last

/-- Expressions without parentheses. -/
def bareExprs : List Expr → List Expr
  | [] => []
  | e :: rest => e.bare :: bareExprs rest

/-- An expression without parentheses, if there is one. -/
def bareExpr? : Option Expr → Option Expr
  | none => none
  | some e => some e.bare

/-- Dict entries without parentheses. -/
def bareEntries : List (DictEntry Expr) → List (DictEntry Expr)
  | [] => []
  | ⟨key, keyPos, value⟩ :: rest => ⟨key, keyPos, value.bare⟩ :: bareEntries rest

/-- Keys with their values without parentheses. -/
def bareKeyValues : List (KeyValue Expr) → List (KeyValue Expr)
  | [] => []
  | ⟨key, value⟩ :: rest => ⟨key.bare, bareExpr? value⟩ :: bareKeyValues rest

/-- Named arguments without parentheses. -/
def bareNamed : List (Expr × Expr) → List (Expr × Expr)
  | [] => []
  | (name, value) :: rest => (name.bare, value.bare) :: bareNamed rest

/-- Arguments without parentheses. -/
def bareArgs : Args Expr → Args Expr
  | ⟨positional, spread, named, namedSpread⟩ =>
    ⟨bareExprs positional, bareExpr? spread, bareNamed named, bareExpr? namedSpread⟩

/-- Parameters with defaults without parentheses. -/
def bareDefaults : List (TypedIdent × Expr) → List (TypedIdent × Expr)
  | [] => []
  | (ident, value) :: rest => (ident, value.bare) :: bareDefaults rest

/-- Parameters without parentheses in their defaults. -/
def bareParams : Params Expr → Params Expr
  | ⟨lparen, positional, variadic, named, namedVariadic, rparen⟩ =>
    ⟨lparen, positional, variadic, bareDefaults named, namedVariadic, rparen⟩

/-- Entries of a declaration without parentheses. -/
def bareSpecs : List (Spec Expr) → List (Spec Expr)
  | [] => []
  | .param ident variadic :: rest => .param ident variadic :: bareSpecs rest
  | .named ident value variadic :: rest => .named ident (bareExpr? value) variadic :: bareSpecs rest
  | .value ident value :: rest => .value ident (bareExpr? value) :: bareSpecs rest

/-- A block without parentheses. -/
def bareBlock : Block Stmt → Block Stmt
  | ⟨lbrace, stmts, rbrace⟩ => ⟨lbrace, bareStmts stmts, rbrace⟩

/-- A block without parentheses, if there is one. -/
def bareBlock? : Option (Block Stmt) → Option (Block Stmt)
  | none => none
  | some body => some (bareBlock body)

/-- A clause that handles what is thrown without parentheses, if there is one. -/
def bareCatch? : Option (CatchClause Stmt) → Option (CatchClause Stmt)
  | none => none
  | some ⟨pos, ident, body⟩ => some ⟨pos, ident, bareBlock body⟩

/-- A clause that is always run without parentheses, if there is one. -/
def bareFinally? : Option (FinallyClause Stmt) → Option (FinallyClause Stmt)
  | none => none
  | some ⟨pos, body⟩ => some ⟨pos, bareBlock body⟩

/-- Statements without parentheses. -/
def bareStmts : List Stmt → List Stmt
  | [] => []
  | s :: rest => s.bare :: bareStmts rest

/-- A statement without parentheses, if there is one. -/
def bareStmt? : Option Stmt → Option Stmt
  | none => none
  | some s => some s.bare

/-- A statement without parentheses, in which comparisons with nil are tests. -/
def Stmt.bare : Stmt → Stmt
  | .expr e => .expr e.bare
  | .empty pos isImplicit => .empty pos isImplicit
  | .block body => .block (bareBlock body)
  | .assign targets op opPos values => .assign (bareExprs targets) op opPos (bareExprs values)
  | .decl kind pos lparen specs rparen => .decl kind pos lparen (bareSpecs specs) rparen
  | .ifElse pos init test body otherwise =>
    .ifElse pos (bareStmt? init) test.bare (bareBlock body) (bareStmt? otherwise)
  | .forLoop pos init test post body otherwise =>
    .forLoop pos (bareStmt? init) (bareExpr? test) (bareStmt? post) (bareBlock body)
      (bareBlock? otherwise)
  | .forIn pos key value iterable body otherwise =>
    .forIn pos key value iterable.bare (bareBlock body) (bareBlock? otherwise)
  | .branch kind pos => .branch kind pos
  | .ret pos result => .ret pos (bareExpr? result)
  | .incDec target op opPos => .incDec target.bare op opPos
  | .tryCatch pos body handler finalizer =>
    .tryCatch pos (bareBlock body) (bareCatch? handler) (bareFinally? finalizer)
  | .throw pos e => .throw pos e.bare
  | .mixedText text => .mixedText text
  | .codeBegin d => .codeBegin d
  | .codeEnd d => .codeEnd d
  | .mixedValue opening e closing => .mixedValue opening e.bare closing
  | .pragma pos entries options last => .pragma pos (bareKeyValues entries) options last
  | .bad first last => .bad first last

end

variable {α β : Type}

theorem bareExprs_eq_map (list : List Expr) : bareExprs list = list.map Expr.bare := by
  induction list with
  | nil => rfl
  | cons e list ih => rw [bareExprs, ih, List.map_cons]

theorem bareExpr?_eq_map (e : Option Expr) : bareExpr? e = e.map Expr.bare := by cases e <;> rfl

theorem bareNamed_eq_map (named : List (Expr × Expr)) :
    bareNamed named = named.map fun (name, value) => (name.bare, value.bare) := by
  induction named with
  | nil => rfl
  | cons first named ih => rw [bareNamed, ih, List.map_cons]

theorem bareEntries_eq_map (entries : List (DictEntry Expr)) :
    bareEntries entries = entries.map fun ⟨key, pos, value⟩ => ⟨key, pos, value.bare⟩ := by
  induction entries with
  | nil => rfl
  | cons entry entries ih => rw [bareEntries, ih, List.map_cons]

theorem bareKeyValues_eq_map (entries : List (KeyValue Expr)) :
    bareKeyValues entries = entries.map fun ⟨key, value⟩ => ⟨key.bare, bareExpr? value⟩ := by
  induction entries with
  | nil => rfl
  | cons entry entries ih => rw [bareKeyValues, ih, List.map_cons]

/-- What an operation is read as is the operation. -/
@[simp] theorem Expr.bare_operation (lhs : Expr) (op : Token.Kind) (opPos : Pos) (rhs : Expr) :
    (Grammar.operation lhs op opPos rhs).bare = (Expr.binary lhs op opPos rhs).bare := by
  unfold Grammar.operation
  split <;> rfl

end TemplateScript
