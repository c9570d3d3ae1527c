import TemplateScript.Tree.Printed
import TemplateScript.Tree.Span

/-!
# Values unfolded

A value between delimiters may have been written as one, or it may have been made of a block of code
with one expression in it. Unfolding turns every value into such a block, wherever in a tree it
stands. It leaves the text of the tree as it is, and all that is asked of a tree while it is read.
-/

namespace TemplateScript

/-- The statements that a statement is made of: three for a value, itself for any other. -/
def Stmt.spread : Stmt → List Stmt
  | .mixedValue opening e closing => [.codeBegin opening, .expr e, .codeEnd closing]
  | s => [s]

mutual

/-- An expression with the values in it unfolded. -/
def Expr.unfolded : Expr → Expr
  | .ident id => .ident id
  | .literal lit => .literal lit
  | .word word pos => .word word pos
  | .array lbrack elements rbrack => .array lbrack (unfoldExprs elements) rbrack
  | .dict lbrace entries rbrace => .dict lbrace (unfoldEntries entries) rbrace
  | .binary lhs op opPos rhs => .binary lhs.unfolded op opPos rhs.unfolded
  | .unary op opPos operand => .unary op opPos operand.unfolded
  | .cond test question yes colon no => .cond test.unfolded question yes.unfolded colon no.unfolded
  | .call func lparen args rparen piped => .call func.unfolded lparen (unfoldArgs args) rparen piped
  | .index base lbrack index rbrack => .index base.unfolded lbrack index.unfolded rbrack
  | .slice base lbrack low high rbrack =>
    .slice base.unfolded lbrack (unfoldExpr? low) (unfoldExpr? high) rbrack
  | .selector base name nullish => .selector base.unfolded name.unfolded nullish
  | .paren lparen inner rparen => .paren lparen inner.unfolded rparen
  | .tuple lparen args rparen => .tuple lparen (unfoldArgs args) rparen
  | .keyValues lparen entries rparen => .keyValues lparen (unfoldKeyValues entries) rparen
  | .func pos name params body => .func pos name (unfoldParams params) (unfoldBlock body)
  | .closure pos params arrow body => .closure pos (unfoldParams params) arrow body.unfolded
  | .load kind pos path rparen => .load kind pos path rparen
  | .ret pos result => .ret pos (unfoldExpr? result)
  | .bad first last => .bad first last

/-- Expressions with the values in them unfolded. -/
def unfoldExprs : List Expr → List Expr
  | [] => []
  | e :: rest => e.unfolded :: unfoldExprs rest

/-- An expression with the values in it unfolded, if there is one. -/
def unfoldExpr? : Option Expr → Option Expr
  | none => none
  | some e => some e.unfolded

/-- Dict entries with the values in them unfolded. -/
def unfoldEntries : List (DictEntry Expr) → List (DictEntry Expr)
  | [] => []
  | ⟨key, keyPos, value⟩ :: rest => ⟨key, keyPos, value.unfolded⟩ :: unfoldEntries rest

/-- Keys with the values in them unfolded. -/
def unfoldKeyValues : List (KeyValue Expr) → List (KeyValue Expr)
  | [] => []
  | ⟨key, value⟩ :: rest => ⟨key.unfolded, unfoldExpr? value⟩ :: unfoldKeyValues rest

/-- Named arguments with the values in them unfolded. -/
def unfoldNamed : List (Expr × Expr) → List (Expr × Expr)
  | [] => []
  | (name, value) :: rest => (name.unfolded, value.unfolded) :: unfoldNamed rest

/-- Arguments with the values in them unfolded. -/
def unfoldArgs : Args Expr → Args Expr
  | ⟨positional, spread, named, namedSpread⟩ =>
    ⟨unfoldExprs positional, unfoldExpr? spread, unfoldNamed named, unfoldExpr? namedSpread⟩

/-- Defaults with the values in them unfolded. -/
def unfoldDefaults : List (TypedIdent × Expr) → List (TypedIdent × Expr)
  | [] => []
  | (ident, value) :: rest => (ident, value.unfolded) :: unfoldDefaults rest

/-- Parameters with the values in them unfolded. -/
def unfoldParams : Params Expr → Params Expr
  | ⟨lparen, positional, variadic, named, namedVariadic, rparen⟩ =>
    ⟨lparen, positional, variadic, unfoldDefaults named, namedVariadic, rparen⟩

/-- Entries of a declaration with the values in them unfolded. -/
def unfoldSpecs : List (Spec Expr) → List (Spec Expr)
  | [] => []
  | .param ident variadic :: rest => .param ident variadic :: unfoldSpecs rest
  | .named ident value variadic :: rest =>
    .named ident (unfoldExpr? value) variadic :: unfoldSpecs rest
  | .value ident value :: rest => .value ident (unfoldExpr? value) :: unfoldSpecs rest

/-- A block with the values in it unfolded. -/
def unfoldBlock : Block Stmt → Block Stmt
  | ⟨lbrace, stmts, rbrace⟩ => ⟨lbrace, unfoldStmts stmts, rbrace⟩

/-- A block with the values in it unfolded, if there is one. -/
def unfoldBlock? : Option (Block Stmt) → Option (Block Stmt)
  | none => none
  | some body => some (unfoldBlock body)

/-- A clause that handles what is thrown with the values in it unfolded, if there is one. -/
def unfoldCatch? : Option (CatchClause Stmt) → Option (CatchClause Stmt)
  | none => none
  | some ⟨pos, ident, body⟩ => some ⟨pos, ident, unfoldBlock body⟩

/-- A clause that is always run with the values in it unfolded, if there is one. -/
def unfoldFinally? : Option (FinallyClause Stmt) → Option (FinallyClause Stmt)
  | none => none
  | some ⟨pos, body⟩ => some ⟨pos, unfoldBlock body⟩

/-- Statements with all values unfolded, those among them too. -/
def unfoldStmts : List Stmt → List Stmt
  | [] => []
  | s :: rest => s.unfolded.spread ++ unfoldStmts rest

/-- A statement with the values in it unfolded, if there is one. -/
def unfoldStmt? : Option Stmt → Option Stmt
  | none => none
  | some s => some s.unfolded

/-- A statement with the values in it unfolded. -/
def Stmt.unfolded : Stmt → Stmt
  | .expr e => .expr e.unfolded
  | .empty pos isImplicit => .empty pos isImplicit
  | .block body => .block (unfoldBlock body)
  | .assign targets op opPos values =>
    .assign (unfoldExprs targets) op opPos (unfoldExprs values)
  | .decl kind pos lparen specs rparen => .decl kind pos lparen (unfoldSpecs specs) rparen
  | .ifElse pos init test body otherwise =>
    .ifElse pos (unfoldStmt? init) test.unfolded (unfoldBlock body) (unfoldStmt? otherwise)
  | .forLoop pos init test post body otherwise =>
    .forLoop pos (unfoldStmt? init) (unfoldExpr? test) (unfoldStmt? post) (unfoldBlock body)
      (unfoldBlock? otherwise)
  | .forIn pos key value iterable body otherwise =>
    .forIn pos key value iterable.unfolded (unfoldBlock body) (unfoldBlock? otherwise)
  | .branch kind pos => .branch kind pos
  | .ret pos result => .ret pos (unfoldExpr? result)
  | .incDec target op opPos => .incDec target.unfolded op opPos
  | .tryCatch pos body handler finalizer =>
    .tryCatch pos (unfoldBlock body) (unfoldCatch? handler) (unfoldFinally? finalizer)
  | .throw pos e => .throw pos e.unfolded
  | .mixedText text => .mixedText text
  | .codeBegin d => .codeBegin d
  | .codeEnd d => .codeEnd d
  | .mixedValue opening e closing => .mixedValue opening e.unfolded closing
  | .pragma pos entries options last => .pragma pos (unfoldKeyValues entries) options last
  | .bad first last => .bad first last

end

/-! ### Lists -/

theorem unfoldExprs_eq_map (list : List Expr) : unfoldExprs list = list.map Expr.unfolded := by
  induction list with
  | nil => rfl
  | cons e rest ih => rw [unfoldExprs, ih, List.map_cons]

theorem unfoldExprs_append (a b : List Expr) :
    unfoldExprs (a ++ b) = unfoldExprs a ++ unfoldExprs b := by
  simp only [unfoldExprs_eq_map, List.map_append]

/-- An entry of a dict with the values in it unfolded. -/
def DictEntry.unfolded (entry : DictEntry Expr) : DictEntry Expr :=
  ⟨entry.key, entry.keyPos, entry.value.unfolded⟩

theorem unfoldEntries_eq_map (entries : List (DictEntry Expr)) :
    unfoldEntries entries = entries.map DictEntry.unfolded := by
  induction entries with
  | nil => rfl
  | cons entry rest ih => rw [unfoldEntries, ih, List.map_cons, DictEntry.unfolded]

/-- A key with the values in it unfolded. -/
def KeyValue.unfolded (entry : KeyValue Expr) : KeyValue Expr :=
  ⟨entry.key.unfolded, unfoldExpr? entry.value⟩

theorem unfoldKeyValues_eq_map (entries : List (KeyValue Expr)) :
    unfoldKeyValues entries = entries.map KeyValue.unfolded := by
  induction entries with
  | nil => rfl
  | cons entry rest ih => rw [unfoldKeyValues, ih, List.map_cons, KeyValue.unfolded]

theorem unfoldNamed_append (a b : List (Expr × Expr)) :
    unfoldNamed (a ++ b) = unfoldNamed a ++ unfoldNamed b := by
  induction a with
  | nil => rfl
  | cons arg rest ih => rw [List.cons_append, unfoldNamed, ih, unfoldNamed, List.cons_append]

theorem unfoldDefaults_append (a b : List (TypedIdent × Expr)) :
    unfoldDefaults (a ++ b) = unfoldDefaults a ++ unfoldDefaults b := by
  induction a with
  | nil => rfl
  | cons param rest ih =>
    rw [List.cons_append, unfoldDefaults, ih, unfoldDefaults, List.cons_append]

theorem unfoldSpecs_append (a b : List (Spec Expr)) :
    unfoldSpecs (a ++ b) = unfoldSpecs a ++ unfoldSpecs b := by
  induction a with
  | nil => rfl
  | cons spec rest ih =>
    cases spec <;> rw [List.cons_append, unfoldSpecs, ih, unfoldSpecs, List.cons_append]

theorem unfoldStmts_append (a b : List Stmt) :
    unfoldStmts (a ++ b) = unfoldStmts a ++ unfoldStmts b := by
  induction a with
  | nil => rfl
  | cons s rest ih => rw [List.cons_append, unfoldStmts, ih, unfoldStmts, List.append_assoc]

/-! ### What is asked of a tree -/

section

variable (e : Expr) (s : Stmt)

theorem Expr.ident?_unfolded : e.unfolded.ident? = e.ident? := by
  cases e <;> rfl

theorem Expr.isAssignable_unfolded : e.unfolded.isAssignable = e.isAssignable := by
  cases e <;> rfl

theorem Expr.isArgName_unfolded : e.unfolded.isArgName = e.isArgName := by
  cases e <;> rfl

theorem Expr.isOperation_unfolded : e.unfolded.isOperation = e.isOperation := by
  cases e <;> rfl

theorem selected_unfolded (text : String) : selected e.unfolded text = selected e text := by
  cases e <;> rfl

theorem Stmt.isPragma_unfolded : s.unfolded.isPragma = s.isPragma := by
  cases s <;> rfl

theorem Stmt.isMixedBoundary_unfolded : s.unfolded.isMixedBoundary = s.isMixedBoundary := by
  cases s <;> rfl

end

theorem unfoldArgs_single? (args : Args Expr) :
    (unfoldArgs args).single? = args.single?.map Expr.unfolded := by
  obtain ⟨positional, spread, named, namedSpread⟩ := args
  match positional, spread, named, namedSpread with
  | [], _, _, _ => rfl
  | [e], none, [], none => rfl
  | [e], some _, _, _ => rfl
  | [e], none, _ :: _, _ => rfl
  | [e], none, [], some _ => rfl
  | _ :: _ :: _, _, _, _ => rfl

theorem unfoldSpecs_length (specs : List (Spec Expr)) :
    (unfoldSpecs specs).length = specs.length := by
  induction specs with
  | nil => rfl
  | cons spec rest ih => cases spec <;> simp only [unfoldSpecs, List.length_cons, ih]

theorem Expr.pos_unfolded : ∀ e : Expr, e.unfolded.pos = e.pos
  | .ident _ | .literal _ | .word .. | .array .. | .dict .. | .paren .. | .tuple ..
  | .keyValues .. | .func .. | .closure .. | .load .. | .ret .. | .bad .. => rfl
  | .binary lhs _ _ _ => lhs.pos_unfolded
  | .unary op _ operand => by
    simp only [Expr.unfolded, Expr.pos]
    split
    · exact operand.pos_unfolded
    · rfl
  | .cond test _ _ _ _ => test.pos_unfolded
  | .call _ _ ⟨first :: _, _, _, _⟩ _ true => first.pos_unfolded
  | .call callee _ ⟨[], _, _, _⟩ _ true => callee.pos_unfolded
  | .call callee _ ⟨[], _, _, _⟩ _ false => callee.pos_unfolded
  | .call callee _ ⟨_ :: _, _, _, _⟩ _ false => callee.pos_unfolded
  | .index base _ _ _ => base.pos_unfolded
  | .slice base _ _ _ _ => base.pos_unfolded
  | .selector base _ _ => base.pos_unfolded

theorem Expr.stop_unfolded : ∀ e : Expr, e.unfolded.stop = e.stop
  | .ident _ | .literal _ | .word .. | .array .. | .dict .. | .call .. | .index .. | .slice ..
  | .paren .. | .tuple .. | .keyValues .. | .func _ _ _ ⟨_, _, _⟩ | .load .. | .ret _ none
  | .bad .. => rfl
  | .binary _ _ _ rhs => rhs.stop_unfolded
  | .unary op opPos operand => by
    simp only [Expr.unfolded, Expr.stop]
    split
    · rfl
    · exact operand.stop_unfolded
  | .cond _ _ _ _ no => no.stop_unfolded
  | .selector _ name _ => name.stop_unfolded
  | .closure _ _ _ body => body.stop_unfolded
  | .ret _ (some e) => e.stop_unfolded

theorem Stmt.pos_unfolded (s : Stmt) : s.unfolded.pos = s.pos := by
  cases s with
  | expr e => exact e.pos_unfolded
  | incDec target op opPos => exact target.pos_unfolded
  | block body =>
    obtain ⟨lbrace, stmts, rbrace⟩ := body
    rfl
  | assign targets op opPos values =>
    cases targets with
    | nil => rfl
    | cons e rest => exact e.pos_unfolded
  | _ => rfl

/-! ### Statements with their texts -/

/-- Statements with their texts, and the same ones with all values unfolded. -/
inductive Spread : List (Stmt × String) → List (Stmt × String) → Prop
  | nil : Spread [] []
  | keep {parts parts' : List (Stmt × String)} (s : Stmt) (text : String)
    (h : Spread parts parts') : Spread ((s, text) :: parts) ((s.unfolded, text) :: parts')
  | value {parts parts' : List (Stmt × String)} (opening closing : Delimiter) (e : Expr)
    (text : String) (h : Spread parts parts') :
    Spread
      ((.mixedValue opening e closing, opening.literal ++ " " ++ text ++ " " ++ closing.literal) ::
        parts)
      ((.codeBegin opening, opening.literal) :: (.expr e.unfolded, text) ::
        (.codeEnd closing, closing.literal) :: parts')

section

variable {between text : String} {before after : Stmt} {opening closing : Delimiter} {e : Expr}
  {parts parts' : List (Stmt × String)}

theorem separator_unfolded :
    separator between before.unfolded text after.unfolded =
      separator between before text after := by
  unfold separator
  rw [Stmt.isPragma_unfolded]
  cases before <;> cases after <;> rfl

/-- A value begins as its block of code does. -/
theorem separator_codeBegin :
    separator between before text (.codeBegin opening) =
      separator between before text (.mixedValue opening e closing) := by
  cases before <;> rfl

/-- A value ends as its block of code does. -/
theorem separator_codeEnd :
    separator between (.codeEnd closing) closing.literal after =
      separator between (.mixedValue opening e closing)
        (opening.literal ++ " " ++ text ++ " " ++ closing.literal) after := by
  have hlast : closing.literal.toList.getLast? = some '\n' ↔
      (opening.literal ++ " " ++ text ++ " " ++ closing.literal).toList.getLast? = some '\n' := by
    rw [String.toList_append, List.getLast?_append, String.toList_append, List.getLast?_append]
    cases closing.literal.toList.getLast? with
    | none => simp
    | some ch => rfl
  unfold separator
  split
  · simp only [hlast]
  · rfl

/-- What stands between a statement and those behind it. -/
def lead (between : String) (before : Stmt) (text : String) : List (Stmt × String) → String
  | [] => ""
  | (after, _) :: _ => separator between before text after

theorem joinStmts_cons (between : String) (s : Stmt) (text : String)
    (parts : List (Stmt × String)) :
    joinStmts between ((s, text) :: parts) =
      text ++ lead between s text parts ++ joinStmts between parts := by
  cases parts with
  | nil => simp [joinStmts, lead]
  | cons part rest => rfl

theorem Spread.lead_eq (h : Spread parts parts') :
    lead between before.unfolded text parts' = lead between before text parts := by
  cases h with
  | nil => rfl
  | keep s => exact separator_unfolded
  | value opening closing e =>
    exact separator_codeBegin.trans
      (@separator_unfolded between _ before (.mixedValue opening e closing))

/-- Values and their blocks of code are joined to the same text. -/
theorem Spread.joinStmts_eq (h : Spread parts parts') :
    joinStmts between parts' = joinStmts between parts := by
  induction h with
  | nil => rfl
  | keep s text h ih => rw [joinStmts_cons, joinStmts_cons, h.lead_eq, ih]
  | @value parts parts' opening closing e text h ih =>
    have hlead : lead between (.codeEnd closing) closing.literal parts' =
        lead between (.mixedValue opening e closing)
          (opening.literal ++ " " ++ text ++ " " ++ closing.literal) parts := by
      rw [← h.lead_eq]
      cases parts' with
      | nil => rfl
      | cons part rest => exact @separator_codeEnd between text part.1 opening closing e.unfolded
    rw [joinStmts_cons, joinStmts_cons, joinStmts_cons, joinStmts_cons, hlead, ih]
    simp only [lead, separator, Stmt.isPragma, String.append_assoc]
    simp

theorem Spread.printBlock_eq (h : Spread parts parts') : printBlock parts' = printBlock parts := by
  have hany : parts'.any (·.1.isMixedBoundary) = parts.any (·.1.isMixedBoundary) := by
    induction h with
    | nil => rfl
    | keep s text h ih => rw [List.any_cons, List.any_cons, ih, Stmt.isMixedBoundary_unfolded]
    | value opening closing e text h ih => rfl
  have hhead : (parts'.head?.map (·.1)).any Stmt.isPragma =
      (parts.head?.map (·.1)).any Stmt.isPragma := by
    cases h with
    | nil => rfl
    | keep s text h => exact s.isPragma_unfolded
    | value opening closing e text h => rfl
  simp only [printBlock, h.joinStmts_eq, hany, hhead]

/-- The text of a file ends with a line break for its unfolded statements if it does for them. -/
theorem Spread.last_eq (h : Spread parts parts') :
    (parts'.getLast?.map (·.1)).any (!·.isMixedBoundary) =
      (parts.getLast?.map (·.1)).any (!·.isMixedBoundary) := by
  induction h with
  | nil => rfl
  | keep s text h ih =>
    cases h with
    | nil => simp [Stmt.isMixedBoundary_unfolded]
    | keep s' text' h => simpa [List.getLast?_cons_cons] using ih
    | value opening closing e text' h => simpa [List.getLast?_cons_cons] using ih
  | value opening closing e text h ih =>
    cases h with
    | nil => rfl
    | keep s' text' h => simpa [List.getLast?_cons_cons] using ih
    | value opening closing e text' h => simpa [List.getLast?_cons_cons] using ih

end

/-- A statement is spread before others if its text stays as it is. -/
theorem Spread.cons {s : Stmt} {rest : List Stmt}
    (h : Spread (printStmts rest) (printStmts (unfoldStmts rest)))
    (hs : s.unfolded.print = s.print) :
    Spread (printStmts (s :: rest)) (printStmts (unfoldStmts (s :: rest))) := by
  cases s with
  | empty pos isImplicit => exact h
  | mixedValue opening e closing =>
    change Spread ((_, Stmt.print _) :: printStmts rest)
      ((_, _) :: (_, _) :: (_, _) :: printStmts (unfoldStmts rest))
    rw [← hs]
    exact .value opening closing e e.unfolded.print h
  | _ =>
    change Spread ((_, Stmt.print _) :: printStmts rest)
      ((_, Stmt.print _) :: printStmts (unfoldStmts rest))
    rw [hs]
    exact .keep _ _ h

/-! ### The text of a tree -/

mutual

/-- Unfolding the values of a tree leaves its text as it is. -/
theorem Expr.print_unfolded : ∀ e : Expr, e.unfolded.print = e.print
  | .ident _ | .literal _ | .word .. | .bad .. | .load .. => rfl
  | .array _ elements _ => by
    simp only [Expr.unfolded, Expr.print, printExprs_unfolded elements]
  | .dict _ entries _ => by
    simp only [Expr.unfolded, Expr.print, printEntries_unfolded entries]
  | .binary lhs _ _ rhs => by
    simp only [Expr.unfolded, Expr.print, lhs.print_unfolded, rhs.print_unfolded]
  | .unary _ _ operand => by simp only [Expr.unfolded, Expr.print, operand.print_unfolded]
  | .cond test _ yes _ no => by
    simp only [Expr.unfolded, Expr.print, test.print_unfolded, yes.print_unfolded,
      no.print_unfolded]
  | .call callee _ args _ _ => by
    simp only [Expr.unfolded, Expr.print, callee.print_unfolded, printArgs_unfolded args]
  | .index base _ key _ => by
    simp only [Expr.unfolded, Expr.print, base.print_unfolded, key.print_unfolded]
  | .slice base _ low high _ => by
    simp only [Expr.unfolded, Expr.print, base.print_unfolded, printExpr?_unfolded low,
      printExpr?_unfolded high]
  | .selector base name _ => by
    simp only [Expr.unfolded, Expr.print, base.print_unfolded, name.print_unfolded,
      selected_unfolded]
  | .paren _ inner _ => by
    simp only [Expr.unfolded, Expr.print, inner.print_unfolded, Expr.isOperation_unfolded]
  | .tuple _ args _ => by
    simp only [Expr.unfolded, Expr.print, printArgs_unfolded args, unfoldArgs_single?,
      Option.isSome_map]
  | .keyValues _ entries _ => by
    simp only [Expr.unfolded, Expr.print, printKeyValues_unfolded entries]
  | .func _ name params ⟨_, stmts, _⟩ => by
    simp only [Expr.unfolded, Expr.print, printParams_unfolded params, unfoldBlock, printBody,
      (spread_printStmts stmts).printBlock_eq]
  | .closure _ params _ body => by
    simp only [Expr.unfolded, Expr.print, printParams_unfolded params, body.print_unfolded]
  | .ret _ result => by simp only [Expr.unfolded, Expr.print, printExpr?_unfolded result]

theorem printExprs_unfolded : ∀ list : List Expr, printExprs (unfoldExprs list) = printExprs list
  | [] => rfl
  | e :: rest => by
    simp only [unfoldExprs, printExprs, e.print_unfolded, printExprs_unfolded rest]

theorem printExpr?_unfolded : ∀ e : Option Expr, printExpr? (unfoldExpr? e) = printExpr? e
  | none => rfl
  | some e => by simp only [unfoldExpr?, printExpr?, e.print_unfolded]

theorem printEntries_unfolded : ∀ entries : List (DictEntry Expr),
    printEntries (unfoldEntries entries) = printEntries entries
  | [] => rfl
  | ⟨_, _, value⟩ :: rest => by
    simp only [unfoldEntries, printEntries, value.print_unfolded, printEntries_unfolded rest]

theorem printKeyValues_unfolded : ∀ entries : List (KeyValue Expr),
    printKeyValues (unfoldKeyValues entries) = printKeyValues entries
  | [] => rfl
  | ⟨key, value⟩ :: rest => by
    simp only [unfoldKeyValues, printKeyValues, key.print_unfolded, printExpr?_unfolded value,
      printKeyValues_unfolded rest]

theorem printNamed_unfolded : ∀ named : List (Expr × Expr),
    printNamed (unfoldNamed named) = printNamed named
  | [] => rfl
  | (name, value) :: rest => by
    simp only [unfoldNamed, printNamed, name.print_unfolded, value.print_unfolded,
      printNamed_unfolded rest]

theorem printArgs_unfolded : ∀ args : Args Expr, printArgs (unfoldArgs args) = printArgs args
  | ⟨positional, spread, named, namedSpread⟩ => by
    simp only [unfoldArgs, printArgs, printExprs_unfolded positional, printExpr?_unfolded spread,
      printNamed_unfolded named, printExpr?_unfolded namedSpread]

theorem printDefaults_unfolded : ∀ named : List (TypedIdent × Expr),
    printDefaults (unfoldDefaults named) = printDefaults named
  | [] => rfl
  | (ident, value) :: rest => by
    simp only [unfoldDefaults, printDefaults, value.print_unfolded, printDefaults_unfolded rest]

theorem printParams_unfolded : ∀ params : Params Expr,
    printParams (unfoldParams params) = printParams params
  | ⟨_, positional, variadic, named, namedVariadic, _⟩ => by
    simp only [unfoldParams, printParams, printDefaults_unfolded named]

theorem printSpecs_unfolded : ∀ specs : List (Spec Expr),
    printSpecs (unfoldSpecs specs) = printSpecs specs
  | [] => rfl
  | .param ident _ :: rest => by simp only [unfoldSpecs, printSpecs, printSpecs_unfolded rest]
  | .named ident value _ :: rest => by
    simp only [unfoldSpecs, printSpecs, printExpr?_unfolded value, printSpecs_unfolded rest]
  | .value ident value :: rest => by
    simp only [unfoldSpecs, printSpecs, printExpr?_unfolded value, printSpecs_unfolded rest]

theorem printBody?_unfolded : ∀ body : Option (Block Stmt),
    printBody? (unfoldBlock? body) = printBody? body
  | none => rfl
  | some ⟨_, stmts, _⟩ => by
    simp only [unfoldBlock?, unfoldBlock, printBody?, printBody,
      (spread_printStmts stmts).printBlock_eq]

theorem printCatch?_unfolded : ∀ handler : Option (CatchClause Stmt),
    printCatch? (unfoldCatch? handler) = printCatch? handler
  | none => rfl
  | some ⟨_, ident, ⟨_, stmts, _⟩⟩ => by
    simp only [unfoldCatch?, unfoldBlock, printCatch?, printBody,
      (spread_printStmts stmts).printBlock_eq]

theorem printFinally?_unfolded : ∀ finalizer : Option (FinallyClause Stmt),
    printFinally? (unfoldFinally? finalizer) = printFinally? finalizer
  | none => rfl
  | some ⟨_, ⟨_, stmts, _⟩⟩ => by
    simp only [unfoldFinally?, unfoldBlock, printFinally?, printBody,
      (spread_printStmts stmts).printBlock_eq]

theorem spread_printStmts : ∀ list : List Stmt,
    Spread (printStmts list) (printStmts (unfoldStmts list))
  | [] => .nil
  | s :: rest => (spread_printStmts rest).cons s.print_unfolded

theorem printStmt?_unfolded : ∀ s : Option Stmt, printStmt? (unfoldStmt? s) = printStmt? s
  | none => rfl
  | some s => by simp only [unfoldStmt?, printStmt?, s.print_unfolded]

theorem Stmt.print_unfolded : ∀ s : Stmt, s.unfolded.print = s.print
  | .expr e => by simp only [Stmt.unfolded, Stmt.print, e.print_unfolded]
  | .empty .. | .branch .. | .mixedText _ | .codeBegin _ | .codeEnd _ | .bad .. => rfl
  | .block ⟨_, stmts, _⟩ => by
    simp only [Stmt.unfolded, Stmt.print, unfoldBlock, printBody,
      (spread_printStmts stmts).printBlock_eq]
  | .assign targets _ _ values => by
    simp only [Stmt.unfolded, Stmt.print, printExprs_unfolded targets, printExprs_unfolded values]
  | .decl _ _ lparen specs _ => by
    simp only [Stmt.unfolded, Stmt.print, printSpecs_unfolded specs, unfoldSpecs_length]
  | .ifElse _ init test ⟨_, stmts, _⟩ otherwise => by
    simp only [Stmt.unfolded, Stmt.print, printStmt?_unfolded init, test.print_unfolded,
      unfoldBlock, printBody, (spread_printStmts stmts).printBlock_eq,
      printStmt?_unfolded otherwise]
  | .forLoop _ init test post ⟨_, stmts, _⟩ otherwise => by
    simp only [Stmt.unfolded, Stmt.print, printStmt?_unfolded init, printExpr?_unfolded test,
      printStmt?_unfolded post, unfoldBlock, printBody, (spread_printStmts stmts).printBlock_eq,
      printBody?_unfolded otherwise]
  | .forIn _ key value iterable ⟨_, stmts, _⟩ otherwise => by
    simp only [Stmt.unfolded, Stmt.print, iterable.print_unfolded, unfoldBlock, printBody,
      (spread_printStmts stmts).printBlock_eq, printBody?_unfolded otherwise]
  | .ret _ result => by simp only [Stmt.unfolded, Stmt.print, printExpr?_unfolded result]
  | .incDec target _ _ => by simp only [Stmt.unfolded, Stmt.print, target.print_unfolded]
  | .tryCatch _ ⟨_, stmts, _⟩ handler finalizer => by
    simp only [Stmt.unfolded, Stmt.print, unfoldBlock, printBody,
      (spread_printStmts stmts).printBlock_eq, printCatch?_unfolded handler,
      printFinally?_unfolded finalizer]
  | .throw _ e => by simp only [Stmt.unfolded, Stmt.print, e.print_unfolded]
  | .mixedValue _ e _ => by simp only [Stmt.unfolded, Stmt.print, e.print_unfolded]
  | .pragma _ entries _ _ => by
    simp only [Stmt.unfolded, Stmt.print, printKeyValues_unfolded entries]

end

/-- Files with the same unfolded statements have the same text. -/
theorem printFile_unfolded (stmts : List Stmt) :
    printFile (unfoldStmts stmts) = printFile stmts := by
  have h := spread_printStmts stmts
  simp only [printFile, h.joinStmts_eq, h.last_eq]

end TemplateScript
