import TemplateScript.Tree.Shift

/-!
# Trees moved twice

Moving a tree twice is moving it once by the sum of the distances, so it does not matter in which
order a tree is moved to the place of its source in a longer one and to that of its file in a set.
-/

namespace TemplateScript

variable (m n : Nat)

@[simp] theorem Ident.shift_shift (i : Ident) : (i.shift m).shift n = i.shift (m + n) := by
  simp only [Ident.shift, Nat.add_assoc]

@[simp] theorem TypedIdent.shift_shift (t : TypedIdent) :
    (t.shift m).shift n = t.shift (m + n) := by
  simp [TypedIdent.shift]

@[simp] theorem Literal.shift_shift (l : Literal) : (l.shift m).shift n = l.shift (m + n) := by
  simp only [Literal.shift, Nat.add_assoc]

@[simp] theorem Delimiter.shift_shift (d : Delimiter) :
    (d.shift m).shift n = d.shift (m + n) := by
  simp only [Delimiter.shift, Nat.add_assoc]

@[simp] theorem MixedText.shift_shift (t : MixedText) :
    (t.shift m).shift n = t.shift (m + n) := by
  simp only [MixedText.shift, Nat.add_assoc]

mutual

theorem Expr.shift_shift : ∀ e : Expr, (e.shift m).shift n = e.shift (m + n)
  | .ident _ | .literal _ | .word .. | .load .. | .bad .. => by simp [Expr.shift, Nat.add_assoc]
  | .array _ elements _ => by simp [Expr.shift, Nat.add_assoc, shiftExprs_shift elements]
  | .dict _ entries _ => by simp [Expr.shift, Nat.add_assoc, shiftEntries_shift entries]
  | .binary lhs _ _ rhs => by
    simp [Expr.shift, Nat.add_assoc, lhs.shift_shift, rhs.shift_shift]
  | .unary _ _ operand => by simp [Expr.shift, Nat.add_assoc, operand.shift_shift]
  | .cond test _ yes _ no => by
    simp [Expr.shift, Nat.add_assoc, test.shift_shift, yes.shift_shift, no.shift_shift]
  | .call func _ args _ _ => by
    simp [Expr.shift, Nat.add_assoc, func.shift_shift, shiftArgs_shift args]
  | .index base _ index _ => by
    simp [Expr.shift, Nat.add_assoc, base.shift_shift, index.shift_shift]
  | .slice base _ low high _ => by
    simp [Expr.shift, Nat.add_assoc, base.shift_shift, shiftExpr?_shift low, shiftExpr?_shift high]
  | .selector base name _ => by simp [Expr.shift, base.shift_shift, name.shift_shift]
  | .paren _ inner _ => by simp [Expr.shift, Nat.add_assoc, inner.shift_shift]
  | .tuple _ args _ => by simp [Expr.shift, Nat.add_assoc, shiftArgs_shift args]
  | .keyValues _ entries _ => by simp [Expr.shift, Nat.add_assoc, shiftKeyValues_shift entries]
  | .func _ _ params body => by
    simp [Expr.shift, Nat.add_assoc, Function.comp_def, shiftParams_shift params,
      shiftBlock_shift body]
  | .closure _ params _ body => by
    simp [Expr.shift, Nat.add_assoc, shiftParams_shift params, body.shift_shift]
  | .ret _ result => by simp [Expr.shift, Nat.add_assoc, shiftExpr?_shift result]

theorem shiftExprs_shift : ∀ list : List Expr,
    shiftExprs n (shiftExprs m list) = shiftExprs (m + n) list
  | [] => rfl
  | e :: rest => by simp only [shiftExprs, e.shift_shift, shiftExprs_shift rest]

theorem shiftExpr?_shift : ∀ e : Option Expr,
    shiftExpr? n (shiftExpr? m e) = shiftExpr? (m + n) e
  | none => rfl
  | some e => by simp only [shiftExpr?, e.shift_shift]

theorem shiftEntries_shift : ∀ entries : List (DictEntry Expr),
    shiftEntries n (shiftEntries m entries) = shiftEntries (m + n) entries
  | [] => rfl
  | ⟨_, _, value⟩ :: rest => by
    simp only [shiftEntries, Nat.add_assoc, value.shift_shift, shiftEntries_shift rest]

theorem shiftKeyValues_shift : ∀ entries : List (KeyValue Expr),
    shiftKeyValues n (shiftKeyValues m entries) = shiftKeyValues (m + n) entries
  | [] => rfl
  | ⟨key, value⟩ :: rest => by
    simp only [shiftKeyValues, key.shift_shift, shiftExpr?_shift value, shiftKeyValues_shift rest]

theorem shiftNamed_shift : ∀ named : List (Expr × Expr),
    shiftNamed n (shiftNamed m named) = shiftNamed (m + n) named
  | [] => rfl
  | (name, value) :: rest => by
    simp only [shiftNamed, name.shift_shift, value.shift_shift, shiftNamed_shift rest]

theorem shiftArgs_shift : ∀ args : Args Expr,
    shiftArgs n (shiftArgs m args) = shiftArgs (m + n) args
  | ⟨positional, spread, named, namedSpread⟩ => by
    simp only [shiftArgs, shiftExprs_shift positional, shiftExpr?_shift spread,
      shiftNamed_shift named, shiftExpr?_shift namedSpread]

theorem shiftDefaults_shift : ∀ named : List (TypedIdent × Expr),
    shiftDefaults n (shiftDefaults m named) = shiftDefaults (m + n) named
  | [] => rfl
  | (ident, value) :: rest => by
    simp only [shiftDefaults, ident.shift_shift, value.shift_shift, shiftDefaults_shift rest]

theorem shiftParams_shift : ∀ params : Params Expr,
    shiftParams n (shiftParams m params) = shiftParams (m + n) params
  | ⟨_, positional, variadic, named, namedVariadic, _⟩ => by
    simp [shiftParams, Nat.add_assoc, Function.comp_def, shiftDefaults_shift named]

theorem shiftSpecs_shift : ∀ specs : List (Spec Expr),
    shiftSpecs n (shiftSpecs m specs) = shiftSpecs (m + n) specs
  | [] => rfl
  | .param ident _ :: rest => by
    simp only [shiftSpecs, ident.shift_shift, shiftSpecs_shift rest]
  | .named ident value _ :: rest => by
    simp only [shiftSpecs, ident.shift_shift, shiftExpr?_shift value, shiftSpecs_shift rest]
  | .value ident value :: rest => by
    simp only [shiftSpecs, ident.shift_shift, shiftExpr?_shift value, shiftSpecs_shift rest]

theorem shiftBlock_shift : ∀ body : Block Stmt,
    shiftBlock n (shiftBlock m body) = shiftBlock (m + n) body
  | ⟨_, stmts, _⟩ => by simp only [shiftBlock, Nat.add_assoc, shiftStmts_shift stmts]

theorem shiftBlock?_shift : ∀ body : Option (Block Stmt),
    shiftBlock? n (shiftBlock? m body) = shiftBlock? (m + n) body
  | none => rfl
  | some body => by simp only [shiftBlock?, shiftBlock_shift body]

theorem shiftCatch?_shift : ∀ handler : Option (CatchClause Stmt),
    shiftCatch? n (shiftCatch? m handler) = shiftCatch? (m + n) handler
  | none => rfl
  | some ⟨_, ident, body⟩ => by
    simp [shiftCatch?, Nat.add_assoc, Function.comp_def, shiftBlock_shift body]

theorem shiftFinally?_shift : ∀ finalizer : Option (FinallyClause Stmt),
    shiftFinally? n (shiftFinally? m finalizer) = shiftFinally? (m + n) finalizer
  | none => rfl
  | some ⟨_, body⟩ => by simp only [shiftFinally?, Nat.add_assoc, shiftBlock_shift body]

theorem shiftStmts_shift : ∀ list : List Stmt,
    shiftStmts n (shiftStmts m list) = shiftStmts (m + n) list
  | [] => rfl
  | s :: rest => by simp only [shiftStmts, s.shift_shift, shiftStmts_shift rest]

theorem shiftStmt?_shift : ∀ s : Option Stmt,
    shiftStmt? n (shiftStmt? m s) = shiftStmt? (m + n) s
  | none => rfl
  | some s => by simp only [shiftStmt?, s.shift_shift]

theorem Stmt.shift_shift : ∀ s : Stmt, (s.shift m).shift n = s.shift (m + n)
  | .empty .. | .branch .. | .mixedText _ | .codeBegin _ | .codeEnd _ | .bad .. => by
    simp [Stmt.shift, Nat.add_assoc]
  | .expr e => by simp only [Stmt.shift, e.shift_shift]
  | .block body => by simp only [Stmt.shift, shiftBlock_shift body]
  | .assign targets _ _ values => by
    simp only [Stmt.shift, Nat.add_assoc, shiftExprs_shift targets, shiftExprs_shift values]
  | .decl _ _ _ specs _ => by
    simp [Stmt.shift, Nat.add_assoc, Function.comp_def, shiftSpecs_shift specs]
  | .ifElse _ init test body otherwise => by
    simp only [Stmt.shift, Nat.add_assoc, shiftStmt?_shift init, test.shift_shift,
      shiftBlock_shift body, shiftStmt?_shift otherwise]
  | .forLoop _ init test post body otherwise => by
    simp only [Stmt.shift, Nat.add_assoc, shiftStmt?_shift init, shiftExpr?_shift test,
      shiftStmt?_shift post, shiftBlock_shift body, shiftBlock?_shift otherwise]
  | .forIn _ key value iterable body otherwise => by
    simp [Stmt.shift, Nat.add_assoc, Function.comp_def, iterable.shift_shift,
      shiftBlock_shift body, shiftBlock?_shift otherwise]
  | .ret _ result => by simp only [Stmt.shift, Nat.add_assoc, shiftExpr?_shift result]
  | .incDec target _ _ => by simp only [Stmt.shift, Nat.add_assoc, target.shift_shift]
  | .tryCatch _ body handler finalizer => by
    simp only [Stmt.shift, Nat.add_assoc, shiftBlock_shift body, shiftCatch?_shift handler,
      shiftFinally?_shift finalizer]
  | .throw _ e => by simp only [Stmt.shift, Nat.add_assoc, e.shift_shift]
  | .mixedValue _ e _ => by simp only [Stmt.shift, Delimiter.shift_shift, e.shift_shift]
  | .pragma _ entries _ _ => by
    simp only [Stmt.shift, Nat.add_assoc, shiftKeyValues_shift entries]

end

@[simp] theorem Comment.shift_shift (c : Comment) : (c.shift m).shift n = c.shift (m + n) := by
  simp only [Comment.shift, Nat.add_assoc]

theorem Document.shift_shift (d : Document) : (d.shift m).shift n = d.shift (m + n) := by
  simp [Document.shift, shiftStmts_shift, Function.comp_def]

end TemplateScript
