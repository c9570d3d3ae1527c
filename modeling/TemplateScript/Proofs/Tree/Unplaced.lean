import TemplateScript.Proofs.Tree.Shift
import TemplateScript.Tree.Printed

/-!
# Trees without positions

A tree without positions is what a built tree is, and all that is left of a tree that was read once
it no longer counts where it stood. Two trees are the same up to positions if they are the same tree
without positions. Further on in a source, that tree is the same. It has the text of the tree, so
the text of a tree is the same wherever it was read.
-/

namespace TemplateScript

/-- A name without a position. -/
def Ident.unplaced (i : Ident) : Ident := { i with pos := 0 }

/-- A typed name without positions. -/
def TypedIdent.unplaced (t : TypedIdent) : TypedIdent :=
  ⟨t.ident.unplaced, t.types.map (·.unplaced)⟩

/-- A literal without a position. -/
def Literal.unplaced (l : Literal) : Literal := { l with pos := 0 }

/-- A delimiter without a position. -/
def Delimiter.unplaced (d : Delimiter) : Delimiter := { d with pos := 0 }

/-- A run of text without a position. -/
def MixedText.unplaced (t : MixedText) : MixedText := { t with pos := 0 }

mutual

/-- An expression without positions. -/
def Expr.unplaced : Expr → Expr
  | .ident id => .ident id.unplaced
  | .literal lit => .literal lit.unplaced
  | .word word _ => .word word 0
  | .array _ elements _ => .array 0 (unplacedExprs elements) 0
  | .dict _ entries _ => .dict 0 (unplacedEntries entries) 0
  | .binary lhs op _ rhs => .binary lhs.unplaced op 0 rhs.unplaced
  | .unary op _ operand => .unary op 0 operand.unplaced
  | .cond test _ yes _ no => .cond test.unplaced 0 yes.unplaced 0 no.unplaced
  | .call callee _ args _ piped => .call callee.unplaced 0 (unplacedArgs args) 0 piped
  | .index base _ key _ => .index base.unplaced 0 key.unplaced 0
  | .slice base _ low high _ =>
    .slice base.unplaced 0 (unplacedExpr? low) (unplacedExpr? high) 0
  | .selector base name nullish => .selector base.unplaced name.unplaced nullish
  | .paren _ inner _ => .paren 0 inner.unplaced 0
  | .tuple _ args _ => .tuple 0 (unplacedArgs args) 0
  | .keyValues _ entries _ => .keyValues 0 (unplacedKeyValues entries) 0
  | .func _ name params body =>
    .func 0 (name.map (·.unplaced)) (unplacedParams params) (unplacedBlock body)
  | .closure _ params _ body => .closure 0 (unplacedParams params) 0 body.unplaced
  | .load kind _ path _ => .load kind 0 path 0
  | .ret _ result => .ret 0 (unplacedExpr? result)
  | .bad .. => .bad 0 0

/-- Expressions without positions. -/
def unplacedExprs : List Expr → List Expr
  | [] => []
  | e :: rest => e.unplaced :: unplacedExprs rest

/-- An expression without positions, if there is one. -/
def unplacedExpr? : Option Expr → Option Expr
  | none => none
  | some e => some e.unplaced

/-- Dict entries without positions. -/
def unplacedEntries : List (DictEntry Expr) → List (DictEntry Expr)
  | [] => []
  | ⟨key, _, value⟩ :: rest => ⟨key, 0, value.unplaced⟩ :: unplacedEntries rest

/-- Keys with their values without positions. -/
def unplacedKeyValues : List (KeyValue Expr) → List (KeyValue Expr)
  | [] => []
  | ⟨key, value⟩ :: rest => ⟨key.unplaced, unplacedExpr? value⟩ :: unplacedKeyValues rest

/-- Named arguments without positions. -/
def unplacedNamed : List (Expr × Expr) → List (Expr × Expr)
  | [] => []
  | (name, value) :: rest => (name.unplaced, value.unplaced) :: unplacedNamed rest

/-- Arguments without positions. -/
def unplacedArgs : Args Expr → Args Expr
  | ⟨positional, spread, named, namedSpread⟩ =>
    ⟨unplacedExprs positional, unplacedExpr? spread, unplacedNamed named,
      unplacedExpr? namedSpread⟩

/-- Parameters with defaults without positions. -/
def unplacedDefaults : List (TypedIdent × Expr) → List (TypedIdent × Expr)
  | [] => []
  | (ident, value) :: rest => (ident.unplaced, value.unplaced) :: unplacedDefaults rest

/-- Parameters without positions. -/
def unplacedParams : Params Expr → Params Expr
  | ⟨_, positional, variadic, named, namedVariadic, _⟩ =>
    ⟨0, positional.map (·.unplaced), variadic.map (·.unplaced), unplacedDefaults named,
      namedVariadic.map (·.unplaced), 0⟩

/-- Entries of a declaration without positions. -/
def unplacedSpecs : List (Spec Expr) → List (Spec Expr)
  | [] => []
  | .param ident variadic :: rest => .param ident.unplaced variadic :: unplacedSpecs rest
  | .named ident value variadic :: rest =>
    .named ident.unplaced (unplacedExpr? value) variadic :: unplacedSpecs rest
  | .value ident value :: rest => .value ident.unplaced (unplacedExpr? value) :: unplacedSpecs rest

/-- A block without positions. -/
def unplacedBlock : Block Stmt → Block Stmt
  | ⟨_, stmts, _⟩ => ⟨0, unplacedStmts stmts, 0⟩

/-- A block without positions, if there is one. -/
def unplacedBlock? : Option (Block Stmt) → Option (Block Stmt)
  | none => none
  | some body => some (unplacedBlock body)

/-- A clause that handles what is thrown without positions, if there is one. -/
def unplacedCatch? : Option (CatchClause Stmt) → Option (CatchClause Stmt)
  | none => none
  | some ⟨_, ident, body⟩ => some ⟨0, ident.map (·.unplaced), unplacedBlock body⟩

/-- A clause that is always run without positions, if there is one. -/
def unplacedFinally? : Option (FinallyClause Stmt) → Option (FinallyClause Stmt)
  | none => none
  | some ⟨_, body⟩ => some ⟨0, unplacedBlock body⟩

/-- Statements without positions. -/
def unplacedStmts : List Stmt → List Stmt
  | [] => []
  | s :: rest => s.unplaced :: unplacedStmts rest

/-- A statement without positions, if there is one. -/
def unplacedStmt? : Option Stmt → Option Stmt
  | none => none
  | some s => some s.unplaced

/-- A statement without positions. -/
def Stmt.unplaced : Stmt → Stmt
  | .expr e => .expr e.unplaced
  | .empty _ isImplicit => .empty 0 isImplicit
  | .block body => .block (unplacedBlock body)
  | .assign targets op _ values => .assign (unplacedExprs targets) op 0 (unplacedExprs values)
  | .decl kind _ lparen specs rparen =>
    .decl kind 0 (lparen.map fun _ => 0) (unplacedSpecs specs) (rparen.map fun _ => 0)
  | .ifElse _ init test body otherwise =>
    .ifElse 0 (unplacedStmt? init) test.unplaced (unplacedBlock body) (unplacedStmt? otherwise)
  | .forLoop _ init test post body otherwise =>
    .forLoop 0 (unplacedStmt? init) (unplacedExpr? test) (unplacedStmt? post)
      (unplacedBlock body) (unplacedBlock? otherwise)
  | .forIn _ key value iterable body otherwise =>
    .forIn 0 key.unplaced (value.map (·.unplaced)) iterable.unplaced (unplacedBlock body)
      (unplacedBlock? otherwise)
  | .branch kind _ => .branch kind 0
  | .ret _ result => .ret 0 (unplacedExpr? result)
  | .incDec target op _ => .incDec target.unplaced op 0
  | .tryCatch _ body handler finalizer =>
    .tryCatch 0 (unplacedBlock body) (unplacedCatch? handler) (unplacedFinally? finalizer)
  | .throw _ e => .throw 0 e.unplaced
  | .mixedText text => .mixedText text.unplaced
  | .codeBegin d => .codeBegin d.unplaced
  | .codeEnd d => .codeEnd d.unplaced
  | .mixedValue opening e closing => .mixedValue opening.unplaced e.unplaced closing.unplaced
  | .pragma _ entries options _ => .pragma 0 (unplacedKeyValues entries) options 0
  | .bad .. => .bad 0 0

end

theorem TypedIdent.unplaced_shift (n : Nat) (t : TypedIdent) :
    (t.shift n).unplaced = t.unplaced := by
  simp only [TypedIdent.shift, TypedIdent.unplaced, Ident.shift, Ident.unplaced, List.map_map,
    Function.comp_def]

mutual

/-- Without positions, a tree is the same wherever it was read. -/
theorem Expr.unplaced_shift (n : Nat) : ∀ e : Expr, (e.shift n).unplaced = e.unplaced
  | .ident _ | .literal _ | .word .. | .load .. | .bad .. => rfl
  | .array _ elements _ => by simp only [Expr.shift, Expr.unplaced, unplacedExprs_shift n elements]
  | .dict _ entries _ => by simp only [Expr.shift, Expr.unplaced, unplacedEntries_shift n entries]
  | .binary lhs _ _ rhs => by
    simp only [Expr.shift, Expr.unplaced, lhs.unplaced_shift n, rhs.unplaced_shift n]
  | .unary _ _ operand => by simp only [Expr.shift, Expr.unplaced, operand.unplaced_shift n]
  | .cond test _ yes _ no => by
    simp only [Expr.shift, Expr.unplaced, test.unplaced_shift n, yes.unplaced_shift n,
      no.unplaced_shift n]
  | .call callee _ args _ _ => by
    simp only [Expr.shift, Expr.unplaced, callee.unplaced_shift n, unplacedArgs_shift n args]
  | .index base _ key _ => by
    simp only [Expr.shift, Expr.unplaced, base.unplaced_shift n, key.unplaced_shift n]
  | .slice base _ low high _ => by
    simp only [Expr.shift, Expr.unplaced, base.unplaced_shift n, unplacedExpr?_shift n low,
      unplacedExpr?_shift n high]
  | .selector base name _ => by
    simp only [Expr.shift, Expr.unplaced, base.unplaced_shift n, name.unplaced_shift n]
  | .paren _ inner _ => by simp only [Expr.shift, Expr.unplaced, inner.unplaced_shift n]
  | .tuple _ args _ => by simp only [Expr.shift, Expr.unplaced, unplacedArgs_shift n args]
  | .keyValues _ entries _ => by
    simp only [Expr.shift, Expr.unplaced, unplacedKeyValues_shift n entries]
  | .func _ name params body => by
    simp only [Expr.shift, Expr.unplaced, unplacedParams_shift n params, unplacedBlock_shift n body,
      Option.map_map, Function.comp_def, Ident.shift, Ident.unplaced]
  | .closure _ params _ body => by
    simp only [Expr.shift, Expr.unplaced, unplacedParams_shift n params, body.unplaced_shift n]
  | .ret _ result => by simp only [Expr.shift, Expr.unplaced, unplacedExpr?_shift n result]

theorem unplacedExprs_shift (n : Nat) : ∀ list : List Expr,
    unplacedExprs (shiftExprs n list) = unplacedExprs list
  | [] => rfl
  | e :: rest => by
    simp only [shiftExprs, unplacedExprs, e.unplaced_shift n, unplacedExprs_shift n rest]

theorem unplacedExpr?_shift (n : Nat) : ∀ e : Option Expr,
    unplacedExpr? (shiftExpr? n e) = unplacedExpr? e
  | none => rfl
  | some e => by simp only [shiftExpr?, unplacedExpr?, e.unplaced_shift n]

theorem unplacedEntries_shift (n : Nat) : ∀ entries : List (DictEntry Expr),
    unplacedEntries (shiftEntries n entries) = unplacedEntries entries
  | [] => rfl
  | ⟨_, _, value⟩ :: rest => by
    simp only [shiftEntries, unplacedEntries, value.unplaced_shift n, unplacedEntries_shift n rest]

theorem unplacedKeyValues_shift (n : Nat) : ∀ entries : List (KeyValue Expr),
    unplacedKeyValues (shiftKeyValues n entries) = unplacedKeyValues entries
  | [] => rfl
  | ⟨key, value⟩ :: rest => by
    simp only [shiftKeyValues, unplacedKeyValues, key.unplaced_shift n, unplacedExpr?_shift n value,
      unplacedKeyValues_shift n rest]

theorem unplacedNamed_shift (n : Nat) : ∀ named : List (Expr × Expr),
    unplacedNamed (shiftNamed n named) = unplacedNamed named
  | [] => rfl
  | (name, value) :: rest => by
    simp only [shiftNamed, unplacedNamed, name.unplaced_shift n, value.unplaced_shift n,
      unplacedNamed_shift n rest]

theorem unplacedArgs_shift (n : Nat) : ∀ args : Args Expr,
    unplacedArgs (shiftArgs n args) = unplacedArgs args
  | ⟨positional, spread, named, namedSpread⟩ => by
    simp only [shiftArgs, unplacedArgs, unplacedExprs_shift n positional,
      unplacedExpr?_shift n spread, unplacedNamed_shift n named, unplacedExpr?_shift n namedSpread]

theorem unplacedDefaults_shift (n : Nat) : ∀ named : List (TypedIdent × Expr),
    unplacedDefaults (shiftDefaults n named) = unplacedDefaults named
  | [] => rfl
  | (ident, value) :: rest => by
    simp only [shiftDefaults, unplacedDefaults, TypedIdent.unplaced_shift, value.unplaced_shift n,
      unplacedDefaults_shift n rest]

theorem unplacedParams_shift (n : Nat) : ∀ params : Params Expr,
    unplacedParams (shiftParams n params) = unplacedParams params
  | ⟨_, positional, variadic, named, namedVariadic, _⟩ => by
    simp only [shiftParams, unplacedParams, List.map_map, Option.map_map, Function.comp_def,
      TypedIdent.unplaced_shift, unplacedDefaults_shift n named]

theorem unplacedSpecs_shift (n : Nat) : ∀ specs : List (Spec Expr),
    unplacedSpecs (shiftSpecs n specs) = unplacedSpecs specs
  | [] => rfl
  | .param ident _ :: rest => by
    simp only [shiftSpecs, unplacedSpecs, TypedIdent.unplaced_shift, unplacedSpecs_shift n rest]
  | .named ident value _ :: rest => by
    simp only [shiftSpecs, unplacedSpecs, TypedIdent.unplaced_shift, unplacedExpr?_shift n value,
      unplacedSpecs_shift n rest]
  | .value ident value :: rest => by
    simp only [shiftSpecs, unplacedSpecs, Ident.shift, Ident.unplaced, unplacedExpr?_shift n value,
      unplacedSpecs_shift n rest]

theorem unplacedBlock_shift (n : Nat) : ∀ body : Block Stmt,
    unplacedBlock (shiftBlock n body) = unplacedBlock body
  | ⟨_, stmts, _⟩ => by simp only [shiftBlock, unplacedBlock, unplacedStmts_shift n stmts]

theorem unplacedBlock?_shift (n : Nat) : ∀ body : Option (Block Stmt),
    unplacedBlock? (shiftBlock? n body) = unplacedBlock? body
  | none => rfl
  | some body => by simp only [shiftBlock?, unplacedBlock?, unplacedBlock_shift n body]

theorem unplacedCatch?_shift (n : Nat) : ∀ handler : Option (CatchClause Stmt),
    unplacedCatch? (shiftCatch? n handler) = unplacedCatch? handler
  | none => rfl
  | some ⟨_, ident, body⟩ => by
    simp only [shiftCatch?, unplacedCatch?, unplacedBlock_shift n body, Option.map_map,
      Function.comp_def, Ident.shift, Ident.unplaced]

theorem unplacedFinally?_shift (n : Nat) : ∀ finalizer : Option (FinallyClause Stmt),
    unplacedFinally? (shiftFinally? n finalizer) = unplacedFinally? finalizer
  | none => rfl
  | some ⟨_, body⟩ => by simp only [shiftFinally?, unplacedFinally?, unplacedBlock_shift n body]

theorem unplacedStmts_shift (n : Nat) : ∀ list : List Stmt,
    unplacedStmts (shiftStmts n list) = unplacedStmts list
  | [] => rfl
  | s :: rest => by
    simp only [shiftStmts, unplacedStmts, s.unplaced_shift n, unplacedStmts_shift n rest]

theorem unplacedStmt?_shift (n : Nat) : ∀ s : Option Stmt,
    unplacedStmt? (shiftStmt? n s) = unplacedStmt? s
  | none => rfl
  | some s => by simp only [shiftStmt?, unplacedStmt?, s.unplaced_shift n]

theorem Stmt.unplaced_shift (n : Nat) : ∀ s : Stmt, (s.shift n).unplaced = s.unplaced
  | .expr e => by simp only [Stmt.shift, Stmt.unplaced, e.unplaced_shift n]
  | .empty .. | .branch .. | .mixedText _ | .codeBegin _ | .codeEnd _ | .bad .. => rfl
  | .block body => by simp only [Stmt.shift, Stmt.unplaced, unplacedBlock_shift n body]
  | .assign targets _ _ values => by
    simp only [Stmt.shift, Stmt.unplaced, unplacedExprs_shift n targets,
      unplacedExprs_shift n values]
  | .decl _ _ lparen specs _ => by
    simp only [Stmt.shift, Stmt.unplaced, unplacedSpecs_shift n specs, Option.map_map,
      Function.comp_def]
  | .ifElse _ init test body otherwise => by
    simp only [Stmt.shift, Stmt.unplaced, unplacedStmt?_shift n init, test.unplaced_shift n,
      unplacedBlock_shift n body, unplacedStmt?_shift n otherwise]
  | .forLoop _ init test post body otherwise => by
    simp only [Stmt.shift, Stmt.unplaced, unplacedStmt?_shift n init, unplacedExpr?_shift n test,
      unplacedStmt?_shift n post, unplacedBlock_shift n body, unplacedBlock?_shift n otherwise]
  | .forIn _ key value iterable body otherwise => by
    simp only [Stmt.shift, Stmt.unplaced, Ident.shift, Ident.unplaced, Option.map_map,
      Function.comp_def, iterable.unplaced_shift n, unplacedBlock_shift n body,
      unplacedBlock?_shift n otherwise]
  | .ret _ result => by simp only [Stmt.shift, Stmt.unplaced, unplacedExpr?_shift n result]
  | .incDec target _ _ => by simp only [Stmt.shift, Stmt.unplaced, target.unplaced_shift n]
  | .tryCatch _ body handler finalizer => by
    simp only [Stmt.shift, Stmt.unplaced, unplacedBlock_shift n body,
      unplacedCatch?_shift n handler, unplacedFinally?_shift n finalizer]
  | .throw _ e => by simp only [Stmt.shift, Stmt.unplaced, e.unplaced_shift n]
  | .mixedValue _ e _ => by
    simp only [Stmt.shift, Stmt.unplaced, e.unplaced_shift n, Delimiter.shift, Delimiter.unplaced]
  | .pragma _ entries _ _ => by
    simp only [Stmt.shift, Stmt.unplaced, unplacedKeyValues_shift n entries]

end

/-! ### Lists without positions -/

theorem unplacedExprs_eq_map (list : List Expr) : unplacedExprs list = list.map (·.unplaced) := by
  induction list with
  | nil => rfl
  | cons e list ih => rw [unplacedExprs, ih, List.map_cons]

theorem unplacedExpr?_eq_map (e : Option Expr) : unplacedExpr? e = e.map (·.unplaced) := by
  cases e <;> rfl

theorem unplacedEntries_eq_map (entries : List (DictEntry Expr)) :
    unplacedEntries entries =
      entries.map fun ⟨key, _, value⟩ => ⟨key, 0, value.unplaced⟩ := by
  induction entries with
  | nil => rfl
  | cons entry entries ih => rw [unplacedEntries, ih, List.map_cons]

theorem unplacedKeyValues_eq_map (entries : List (KeyValue Expr)) :
    unplacedKeyValues entries =
      entries.map fun ⟨key, value⟩ => ⟨key.unplaced, unplacedExpr? value⟩ := by
  induction entries with
  | nil => rfl
  | cons entry entries ih => rw [unplacedKeyValues, ih, List.map_cons]

/-! ### The text of a tree -/

theorem Args.single?_unplacedArgs (args : Args Expr) :
    (unplacedArgs args).single? = args.single?.map (·.unplaced) := by
  obtain ⟨positional, spread, named, namedSpread⟩ := args
  rcases positional with - | ⟨e, - | ⟨second, more⟩⟩ <;> cases spread <;> cases named <;>
    cases namedSpread <;> rfl

theorem unplacedSpecs_length (specs : List (Spec Expr)) :
    (unplacedSpecs specs).length = specs.length := by
  induction specs with
  | nil => rfl
  | cons spec rest ih => cases spec <;> simp only [unplacedSpecs, List.length_cons, ih]

theorem TypedIdent.print_unplaced (t : TypedIdent) : t.unplaced.print = t.print := by
  obtain ⟨ident, types⟩ := t
  cases types with
  | nil => rfl
  | cons first rest =>
    simp only [TypedIdent.unplaced, TypedIdent.print, Ident.unplaced, List.map_cons, List.map_map,
      Function.comp_def]

theorem Stmt.isEmpty_unplaced (s : Stmt) : s.unplaced.isEmpty = s.isEmpty := by
  cases s <;> rfl

theorem Stmt.isPragma_unplaced (s : Stmt) : s.unplaced.isPragma = s.isPragma := by
  cases s <;> rfl

theorem Stmt.isMixedBoundary_unplaced (s : Stmt) :
    s.unplaced.isMixedBoundary = s.isMixedBoundary := by
  cases s <;> rfl

theorem separator_unplaced (between text : String) (before after : Stmt) :
    separator between before.unplaced text after.unplaced =
      separator between before text after := by
  unfold separator
  rw [Stmt.isPragma_unplaced]
  cases before <;> cases after <;> rfl

theorem joinStmts_unplaced (between : String) (parts : List (Stmt × String)) :
    joinStmts between (parts.map fun part => (part.1.unplaced, part.2)) =
      joinStmts between parts := by
  fun_induction joinStmts between parts with
  | case1 => rfl
  | case2 => rfl
  | case3 before text after next rest ih =>
    simp only [List.map_cons, joinStmts, separator_unplaced] at ih ⊢
    rw [ih]

theorem printBlock_unplaced (parts : List (Stmt × String)) :
    printBlock (parts.map fun part => (part.1.unplaced, part.2)) = printBlock parts := by
  have hany : (parts.map fun part => (part.1.unplaced, part.2)).any (·.1.isMixedBoundary) =
      parts.any (·.1.isMixedBoundary) := by
    simp only [List.any_map, Function.comp_def, Stmt.isMixedBoundary_unplaced]
  have hhead : ((parts.map fun part => (part.1.unplaced, part.2)).head?.map (·.1)).any
      Stmt.isPragma = (parts.head?.map (·.1)).any Stmt.isPragma := by
    cases parts with
    | nil => rfl
    | cons part rest => exact part.1.isPragma_unplaced
  simp only [printBlock, joinStmts_unplaced, hany, hhead]

theorem selected_unplaced (name : Expr) (text : String) :
    selected name.unplaced text = selected name text := by
  cases name with
  | literal lit =>
    obtain ⟨value, literal, pos⟩ := lit
    cases value <;> rfl
  | _ => rfl

theorem Expr.isOperation_unplaced (e : Expr) : e.unplaced.isOperation = e.isOperation := by
  cases e <;> rfl

mutual

/-- The text of a tree does not tell where the tree stands. -/
theorem Expr.print_unplaced : ∀ e : Expr, e.unplaced.print = e.print
  | .ident _ | .literal _ | .word .. | .bad .. => rfl
  | .array _ elements _ => by simp only [Expr.unplaced, Expr.print, printExprs_unplaced elements]
  | .dict _ entries _ => by simp only [Expr.unplaced, Expr.print, printEntries_unplaced entries]
  | .binary lhs _ _ rhs => by
    simp only [Expr.unplaced, Expr.print, lhs.print_unplaced, rhs.print_unplaced]
  | .unary _ _ operand => by simp only [Expr.unplaced, Expr.print, operand.print_unplaced]
  | .cond test _ yes _ no => by
    simp only [Expr.unplaced, Expr.print, test.print_unplaced, yes.print_unplaced,
      no.print_unplaced]
  | .call callee _ args _ _ => by
    simp only [Expr.unplaced, Expr.print, callee.print_unplaced, printArgs_unplaced args]
  | .index base _ key _ => by
    simp only [Expr.unplaced, Expr.print, base.print_unplaced, key.print_unplaced]
  | .slice base _ low high _ => by
    simp only [Expr.unplaced, Expr.print, base.print_unplaced, printExpr?_unplaced low,
      printExpr?_unplaced high]
  | .selector base name _ => by
    simp only [Expr.unplaced, Expr.print, base.print_unplaced, name.print_unplaced,
      selected_unplaced]
  | .paren _ inner _ => by
    simp only [Expr.unplaced, Expr.print, inner.print_unplaced, Expr.isOperation_unplaced]
  | .tuple _ args _ => by
    simp only [Expr.unplaced, Expr.print, printArgs_unplaced args, Args.single?_unplacedArgs,
      Option.isSome_map]
  | .keyValues _ entries _ => by
    simp only [Expr.unplaced, Expr.print, printKeyValues_unplaced entries]
  | .func _ name params ⟨_, stmts, _⟩ => by
    simp only [Expr.unplaced, Expr.print, printParams_unplaced params, unplacedBlock, printBody,
      printStmts_unplaced stmts, printBlock_unplaced, Option.map_map, Function.comp_def,
      Ident.unplaced]
  | .closure _ params _ body => by
    simp only [Expr.unplaced, Expr.print, printParams_unplaced params, body.print_unplaced]
  | .load .. => rfl
  | .ret _ result => by simp only [Expr.unplaced, Expr.print, printExpr?_unplaced result]

theorem printExprs_unplaced : ∀ list : List Expr,
    printExprs (unplacedExprs list) = printExprs list
  | [] => rfl
  | e :: rest => by
    simp only [unplacedExprs, printExprs, e.print_unplaced, printExprs_unplaced rest]

theorem printExpr?_unplaced : ∀ e : Option Expr, printExpr? (unplacedExpr? e) = printExpr? e
  | none => rfl
  | some e => by simp only [unplacedExpr?, printExpr?, e.print_unplaced]

theorem printEntries_unplaced : ∀ entries : List (DictEntry Expr),
    printEntries (unplacedEntries entries) = printEntries entries
  | [] => rfl
  | ⟨_, _, value⟩ :: rest => by
    simp only [unplacedEntries, printEntries, value.print_unplaced, printEntries_unplaced rest]

theorem printKeyValues_unplaced : ∀ entries : List (KeyValue Expr),
    printKeyValues (unplacedKeyValues entries) = printKeyValues entries
  | [] => rfl
  | ⟨key, value⟩ :: rest => by
    simp only [unplacedKeyValues, printKeyValues, key.print_unplaced, printExpr?_unplaced value,
      printKeyValues_unplaced rest]

theorem printNamed_unplaced : ∀ named : List (Expr × Expr),
    printNamed (unplacedNamed named) = printNamed named
  | [] => rfl
  | (name, value) :: rest => by
    simp only [unplacedNamed, printNamed, name.print_unplaced, value.print_unplaced,
      printNamed_unplaced rest]

theorem printArgs_unplaced : ∀ args : Args Expr, printArgs (unplacedArgs args) = printArgs args
  | ⟨positional, spread, named, namedSpread⟩ => by
    simp only [unplacedArgs, printArgs, printExprs_unplaced positional, printExpr?_unplaced spread,
      printNamed_unplaced named, printExpr?_unplaced namedSpread]

theorem printDefaults_unplaced : ∀ named : List (TypedIdent × Expr),
    printDefaults (unplacedDefaults named) = printDefaults named
  | [] => rfl
  | (ident, value) :: rest => by
    simp only [unplacedDefaults, printDefaults, TypedIdent.print_unplaced, value.print_unplaced,
      printDefaults_unplaced rest]

theorem printParams_unplaced : ∀ params : Params Expr,
    printParams (unplacedParams params) = printParams params
  | ⟨_, positional, variadic, named, namedVariadic, _⟩ => by
    simp only [unplacedParams, printParams, List.map_map, Option.map_map, Function.comp_def,
      TypedIdent.print_unplaced, printDefaults_unplaced named]

theorem printSpecs_unplaced : ∀ specs : List (Spec Expr),
    printSpecs (unplacedSpecs specs) = printSpecs specs
  | [] => rfl
  | .param ident _ :: rest => by
    simp only [unplacedSpecs, printSpecs, TypedIdent.print_unplaced, printSpecs_unplaced rest]
  | .named ident value _ :: rest => by
    simp only [unplacedSpecs, printSpecs, TypedIdent.print_unplaced, printExpr?_unplaced value,
      printSpecs_unplaced rest]
  | .value ident value :: rest => by
    simp only [unplacedSpecs, printSpecs, Ident.unplaced, printExpr?_unplaced value,
      printSpecs_unplaced rest]

theorem printBody?_unplaced : ∀ body : Option (Block Stmt),
    printBody? (unplacedBlock? body) = printBody? body
  | none => rfl
  | some ⟨_, stmts, _⟩ => by
    simp only [unplacedBlock?, unplacedBlock, printBody?, printBody, printStmts_unplaced stmts,
      printBlock_unplaced]

theorem printCatch?_unplaced : ∀ handler : Option (CatchClause Stmt),
    printCatch? (unplacedCatch? handler) = printCatch? handler
  | none => rfl
  | some ⟨_, ident, ⟨_, stmts, _⟩⟩ => by
    simp only [unplacedCatch?, unplacedBlock, printCatch?, printBody, printStmts_unplaced stmts,
      printBlock_unplaced, Option.map_map, Function.comp_def, Ident.unplaced]

theorem printFinally?_unplaced : ∀ finalizer : Option (FinallyClause Stmt),
    printFinally? (unplacedFinally? finalizer) = printFinally? finalizer
  | none => rfl
  | some ⟨_, ⟨_, stmts, _⟩⟩ => by
    simp only [unplacedFinally?, unplacedBlock, printFinally?, printBody, printStmts_unplaced stmts,
      printBlock_unplaced]

theorem printStmts_unplaced : ∀ list : List Stmt, printStmts (unplacedStmts list) =
      (printStmts list).map fun part => (part.1.unplaced, part.2)
  | [] => rfl
  | s :: rest => by
    simp only [unplacedStmts, printStmts, Stmt.isEmpty_unplaced, s.print_unplaced,
      printStmts_unplaced rest]
    split <;> rfl

theorem printStmt?_unplaced : ∀ s : Option Stmt, printStmt? (unplacedStmt? s) = printStmt? s
  | none => rfl
  | some s => by simp only [unplacedStmt?, printStmt?, s.print_unplaced]

theorem Stmt.print_unplaced : ∀ s : Stmt, s.unplaced.print = s.print
  | .expr e => by simp only [Stmt.unplaced, Stmt.print, e.print_unplaced]
  | .empty .. | .branch .. | .mixedText _ | .codeBegin _ | .codeEnd _ | .bad .. => rfl
  | .block ⟨_, stmts, _⟩ => by
    simp only [Stmt.unplaced, Stmt.print, unplacedBlock, printBody, printStmts_unplaced stmts,
      printBlock_unplaced]
  | .assign targets _ _ values => by
    simp only [Stmt.unplaced, Stmt.print, printExprs_unplaced targets, printExprs_unplaced values]
  | .decl _ _ lparen specs _ => by
    simp only [Stmt.unplaced, Stmt.print, printSpecs_unplaced specs, Option.isSome_map,
      unplacedSpecs_length]
  | .ifElse _ init test ⟨_, stmts, _⟩ otherwise => by
    simp only [Stmt.unplaced, Stmt.print, printStmt?_unplaced init, test.print_unplaced,
      unplacedBlock, printBody, printStmts_unplaced stmts, printBlock_unplaced,
      printStmt?_unplaced otherwise]
  | .forLoop _ init test post ⟨_, stmts, _⟩ otherwise => by
    simp only [Stmt.unplaced, Stmt.print, printStmt?_unplaced init, printExpr?_unplaced test,
      printStmt?_unplaced post, unplacedBlock, printBody, printStmts_unplaced stmts,
      printBlock_unplaced, printBody?_unplaced otherwise]
  | .forIn _ key value iterable ⟨_, stmts, _⟩ otherwise => by
    simp only [Stmt.unplaced, Stmt.print, Ident.unplaced, Option.map_map, Function.comp_def,
      iterable.print_unplaced, unplacedBlock, printBody, printStmts_unplaced stmts,
      printBlock_unplaced, printBody?_unplaced otherwise]
  | .ret _ result => by simp only [Stmt.unplaced, Stmt.print, printExpr?_unplaced result]
  | .incDec target _ _ => by simp only [Stmt.unplaced, Stmt.print, target.print_unplaced]
  | .tryCatch _ ⟨_, stmts, _⟩ handler finalizer => by
    simp only [Stmt.unplaced, Stmt.print, unplacedBlock, printBody, printStmts_unplaced stmts,
      printBlock_unplaced, printCatch?_unplaced handler, printFinally?_unplaced finalizer]
  | .throw _ e => by simp only [Stmt.unplaced, Stmt.print, e.print_unplaced]
  | .mixedValue _ e _ => by
    simp only [Stmt.unplaced, Stmt.print, e.print_unplaced, Delimiter.unplaced]
  | .pragma _ entries _ _ => by
    simp only [Stmt.unplaced, Stmt.print, printKeyValues_unplaced entries]

end

theorem printFile_unplaced (stmts : List Stmt) :
    printFile (unplacedStmts stmts) = printFile stmts := by
  simp only [printFile, printStmts_unplaced, joinStmts_unplaced, List.getLast?_map]
  cases (printStmts stmts).getLast? with
  | none => rfl
  | some part => simp only [Option.map_some, Option.any_some, Stmt.isMixedBoundary_unplaced]

/-! ### The text of a tree further on -/

theorem Expr.print_shift (n : Nat) (e : Expr) : (e.shift n).print = e.print := by
  rw [← Expr.print_unplaced, Expr.unplaced_shift, Expr.print_unplaced]

theorem Stmt.print_shift (n : Nat) (s : Stmt) : (s.shift n).print = s.print := by
  rw [← Stmt.print_unplaced, Stmt.unplaced_shift, Stmt.print_unplaced]

theorem printFile_shift (n : Nat) (stmts : List Stmt) :
    printFile (shiftStmts n stmts) = printFile stmts := by
  rw [← printFile_unplaced, unplacedStmts_shift, printFile_unplaced]

end TemplateScript
