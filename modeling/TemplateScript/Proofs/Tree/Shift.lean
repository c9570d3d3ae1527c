import TemplateScript.Tree.Shift
import TemplateScript.Tree.Span

/-!
# Trees further on

Moving a tree moves where it begins and ends by the same distance, and changes nothing else that can
be asked of it.
-/

namespace TemplateScript

section Lists

variable (n : Nat)

theorem shiftExprs_eq_map (list : List Expr) : shiftExprs n list = list.map (·.shift n) := by
  induction list with
  | nil => rfl
  | cons e rest ih => rw [shiftExprs, ih, List.map_cons]

theorem shiftStmts_eq_map (list : List Stmt) : shiftStmts n list = list.map (·.shift n) := by
  induction list with
  | nil => rfl
  | cons s rest ih => rw [shiftStmts, ih, List.map_cons]

theorem shiftStmts_append (a b : List Stmt) :
    shiftStmts n (a ++ b) = shiftStmts n a ++ shiftStmts n b := by
  rw [shiftStmts_eq_map, List.map_append, ← shiftStmts_eq_map, ← shiftStmts_eq_map]

theorem shiftStmts_flatten (parts : List (List Stmt)) :
    shiftStmts n parts.flatten = (parts.map (shiftStmts n)).flatten := by
  rw [shiftStmts_eq_map, List.map_flatten]
  exact congrArg List.flatten (List.map_congr_left fun part _ => (shiftStmts_eq_map n part).symm)

theorem shiftExpr?_eq_map (e : Option Expr) : shiftExpr? n e = e.map (·.shift n) := by
  cases e <;> rfl

theorem shiftStmt?_eq_map (s : Option Stmt) : shiftStmt? n s = s.map (·.shift n) := by
  cases s <;> rfl

/-- An entry of a dict further on. -/
def DictEntry.shift (entry : DictEntry Expr) : DictEntry Expr :=
  ⟨entry.key, entry.keyPos + n, entry.value.shift n⟩

theorem shiftEntries_eq_map (entries : List (DictEntry Expr)) :
    shiftEntries n entries = entries.map (DictEntry.shift n) := by
  induction entries with
  | nil => rfl
  | cons entry rest ih => rw [shiftEntries, ih, List.map_cons, DictEntry.shift]

/-- A key with its value further on. -/
def KeyValue.shift (entry : KeyValue Expr) : KeyValue Expr :=
  ⟨entry.key.shift n, shiftExpr? n entry.value⟩

theorem shiftKeyValues_eq_map (entries : List (KeyValue Expr)) :
    shiftKeyValues n entries = entries.map (KeyValue.shift n) := by
  induction entries with
  | nil => rfl
  | cons entry rest ih => rw [shiftKeyValues, ih, List.map_cons, KeyValue.shift]

theorem shiftNamed_eq_map (named : List (Expr × Expr)) :
    shiftNamed n named = named.map fun arg => (arg.1.shift n, arg.2.shift n) := by
  induction named with
  | nil => rfl
  | cons arg rest ih => rw [shiftNamed, ih, List.map_cons]

/-- An entry of a declaration further on. -/
def Spec.shift : Spec Expr → Spec Expr
  | .param ident variadic => .param (ident.shift n) variadic
  | .named ident preset variadic => .named (ident.shift n) (shiftExpr? n preset) variadic
  | .value ident given => .value (ident.shift n) (shiftExpr? n given)

theorem shiftSpecs_eq_map (specs : List (Spec Expr)) :
    shiftSpecs n specs = specs.map (Spec.shift n) := by
  induction specs with
  | nil => rfl
  | cons spec rest ih => cases spec <;> rw [shiftSpecs, ih] <;> rfl

theorem shiftDefaults_eq_map (named : List (TypedIdent × Expr)) :
    shiftDefaults n named = named.map fun param => (param.1.shift n, param.2.shift n) := by
  induction named with
  | nil => rfl
  | cons param rest ih => rw [shiftDefaults, ih, List.map_cons]

theorem Expr.ident?_shift (e : Expr) : (e.shift n).ident? = e.ident?.map (·.shift n) := by
  cases e <;> rfl

theorem Expr.isAssignable_shift (e : Expr) : (e.shift n).isAssignable = e.isAssignable := by
  cases e <;> rfl

theorem Expr.isArgName_shift (e : Expr) : (e.shift n).isArgName = e.isArgName := by
  cases e with
  | literal lit =>
    obtain ⟨value, text, pos⟩ := lit
    cases value <;> rfl
  | _ => rfl

theorem shiftArgs_single? (args : Args Expr) :
    (shiftArgs n args).single? = args.single?.map (·.shift n) := by
  obtain ⟨positional, spread, named, namedSpread⟩ := args
  match positional, spread, named, namedSpread with
  | [], _, _, _ => rfl
  | [e], none, [], none => rfl
  | [e], some _, _, _ => rfl
  | [e], none, _ :: _, _ => rfl
  | [e], none, [], some _ => rfl
  | _ :: _ :: _, _, _, _ => rfl

end Lists

/-! ### Where a tree begins and ends -/

theorem Ident.stop_shift (n : Nat) (i : Ident) : (i.shift n).stop = i.stop + n :=
  Nat.add_right_comm _ _ _

theorem Expr.pos_shift (n : Nat) : ∀ e : Expr, (e.shift n).pos = e.pos + n
  | .ident _ | .literal _ | .word .. | .array .. | .dict .. | .paren .. | .tuple ..
  | .keyValues .. | .func .. | .closure .. | .load .. | .ret .. | .bad .. => rfl
  | .binary lhs _ _ _ => lhs.pos_shift n
  | .unary op _ operand => by
    simp only [Expr.shift, Expr.pos]
    split
    · exact operand.pos_shift n
    · rfl
  | .cond test _ _ _ _ => test.pos_shift n
  | .call _ _ ⟨first :: _, _, _, _⟩ _ true => first.pos_shift n
  | .call callee _ ⟨[], _, _, _⟩ _ true => callee.pos_shift n
  | .call callee _ ⟨[], _, _, _⟩ _ false => callee.pos_shift n
  | .call callee _ ⟨_ :: _, _, _, _⟩ _ false => callee.pos_shift n
  | .index base _ _ _ => base.pos_shift n
  | .slice base _ _ _ _ => base.pos_shift n
  | .selector base _ _ => base.pos_shift n

theorem Expr.stop_shift (n : Nat) : ∀ e : Expr, (e.shift n).stop = e.stop + n
  | .ident _ | .literal _ | .word .. | .array .. | .dict .. | .call .. | .index .. | .slice ..
  | .paren .. | .tuple .. | .keyValues .. | .func _ _ _ ⟨_, _, _⟩ | .load .. | .ret _ none =>
    Nat.add_right_comm _ _ _
  | .binary _ _ _ rhs => rhs.stop_shift n
  | .unary op opPos operand => by
    simp only [Expr.shift, Expr.stop]
    split
    · exact Nat.add_right_comm _ _ _
    · exact operand.stop_shift n
  | .cond _ _ _ _ no => no.stop_shift n
  | .selector _ name _ => name.stop_shift n
  | .closure _ _ _ body => body.stop_shift n
  | .ret _ (some e) => e.stop_shift n
  | .bad .. => rfl

theorem Stmt.pos_shift (n : Nat) (s : Stmt) : (s.shift n).pos = s.pos + n := by
  cases s with
  | expr e => exact e.pos_shift n
  | incDec target op opPos => exact target.pos_shift n
  | block body =>
    obtain ⟨lbrace, stmts, rbrace⟩ := body
    rfl
  | assign targets op opPos values =>
    cases targets with
    | nil => rfl
    | cons e rest => exact e.pos_shift n
  | _ => rfl

theorem TypedIdent.stop_shift (n : Nat) (t : TypedIdent) : (t.shift n).stop = t.stop + n := by
  unfold TypedIdent.stop TypedIdent.shift
  rw [List.getLast?_map]
  cases t.types.getLast? with
  | none => exact t.ident.stop_shift n
  | some type => exact type.stop_shift n

theorem shiftBlock_stop (n : Nat) (body : Block Stmt) :
    (shiftBlock n body).stop = body.stop + n := by
  obtain ⟨lbrace, stmts, rbrace⟩ := body
  exact Nat.add_right_comm _ _ _

theorem Spec.stop_shift (n : Nat) (spec : Spec Expr) : (spec.shift n).stop = spec.stop + n := by
  cases spec with
  | param ident variadic => exact ident.stop_shift n
  | named ident preset variadic =>
    cases preset with
    | none => exact ident.stop_shift n
    | some e => exact e.stop_shift n
  | value ident given =>
    cases given with
    | none => exact ident.stop_shift n
    | some e => exact e.stop_shift n

theorem Stmt.stop_shift (n : Nat) : ∀ s : Stmt, (s.shift n).stop = s.stop + n
  | .expr e => e.stop_shift n
  | .empty pos isImplicit => by
    simp only [Stmt.shift, Stmt.stop]
    split
    · rfl
    · exact Nat.add_right_comm _ _ _
  | .block body => shiftBlock_stop n body
  | .assign _ _ opPos values => by
    simp only [Stmt.shift, Stmt.stop, shiftExprs_eq_map, List.getLast?_map]
    cases values.getLast? with
    | none => rfl
    | some e => exact e.stop_shift n
  | .decl _ pos _ specs rparen => by
    simp only [Stmt.shift, Stmt.stop, shiftSpecs_eq_map, List.getLast?_map]
    cases rparen with
    | some rparen => exact Nat.add_right_comm _ _ _
    | none =>
      cases specs.getLast? with
      | none => rfl
      | some spec => exact spec.stop_shift n
  | .ifElse _ _ _ body none => shiftBlock_stop n body
  | .ifElse _ _ _ _ (some otherwise) => otherwise.stop_shift n
  | .forLoop _ _ _ _ body none | .forIn _ _ _ _ body none => shiftBlock_stop n body
  | .forLoop _ _ _ _ _ (some otherwise) | .forIn _ _ _ _ _ (some otherwise) =>
    shiftBlock_stop n otherwise
  | .branch .. | .mixedText _ | .codeBegin _ | .codeEnd _ | .mixedValue .. | .incDec .. =>
    Nat.add_right_comm _ _ _
  | .ret _ none => Nat.add_right_comm _ _ _
  | .ret _ (some e) => e.stop_shift n
  | .tryCatch _ body none none => shiftBlock_stop n body
  | .tryCatch _ _ (some ⟨_, _, body⟩) none => shiftBlock_stop n body
  | .tryCatch _ _ none (some ⟨_, body⟩) => shiftBlock_stop n body
  | .tryCatch _ _ (some ⟨_, _, _⟩) (some ⟨_, body⟩) => shiftBlock_stop n body
  | .throw _ e => e.stop_shift n
  | .pragma .. | .bad .. => rfl

end TemplateScript
