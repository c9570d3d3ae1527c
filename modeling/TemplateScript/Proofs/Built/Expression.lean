import TemplateScript.Proofs.Built.Params

/-!
# What expressions are built of

An expression makes known where it begins. The mark of a conditional is read before the places of
both are compared, so they are known by then.
-/

namespace TemplateScript

open Parse

namespace Grammar

variable {known : List Nat} {deep : Nested}

/-! ### Blocks -/

theorem closeBlock_built : Built known closeBlock fun _ => [] := by
  refine .bind pos_built fun pos => .bind .isFull fun full => ?_
  split
  · exact .pure (by simp)
  · refine .bind kind_built fun kind => ?_
    split
    · exact .bind .next fun _ => .pure (by simp)
    · exact .bind (.errorAt (by simp) _) fun _ => .pure (by simp)
    · exact failExpected_built _

theorem block_built (hdeep : deep.Built) : Built known (block deep) fun _ => [] :=
  .bind (expect_built _) fun lbrace => .bind hdeep.stmts.anywhere fun stmts =>
    .bind closeBlock_built fun rbrace => .pure (by simp)

/-! ### Operands -/

theorem closure_built (hdeep : deep.Built) {pos : Pos} (hpos : pos ∈ known)
    (params : Params Expr) : Built known (closure deep pos params) fun e => [e.pos] :=
  .bind (expect_built _) fun arrow => .bind hdeep.expr.anywhere fun body =>
    .pure (by simp [Expr.pos, hpos])

theorem separator_built : Built known Grammar.separator fun _ => [] := by
  refine .bind skipLineBreaks_built fun _ => .bind (accept_built _) fun accepted => ?_
  split
  · exact .bind skipLineBreaks_built fun _ => .pure (by simp)
  · exact .pure (by simp)

theorem entries_built {α : Type} {closing : Token.Kind} {entry : Parse α}
    (hentry : Built [] entry fun _ => []) : Built known (entries closing entry) fun _ => [] := by
  refine .bind skipLineBreaks_built fun _ => .loop (fun _ => []) (by simp) fun list known _ =>
    .bind kind_built fun kind => ?_
  split
  · exact .pure (by simp)
  · refine .bind hentry.anywhere fun e => .bind separator_built fun more => ?_
    split
    · exact .pure (by simp)
    · exact .pure (by simp)

theorem array_built (hdeep : deep.Built) : Built known (array deep) fun e => [e.pos] :=
  .bind (expect_built _) fun lbrack => .bind (entries_built hdeep.expr.unmarked) fun elements =>
    .bind (expect_built _) fun rbrack => .pure (by simp [Expr.pos])

theorem dictKey_built : Built known dictKey fun _ => [] := by
  refine .bind .token fun t => ?_
  dsimp only
  split
  · exact .bind .next fun _ => .pure (by simp)
  · exact failExpected_built _

theorem dictEntry_built (hdeep : deep.Built) : Built known (dictEntry deep) fun _ => [] :=
  .bind pos_built fun pos => .bind dictKey_built fun key => .bind (expect_built _) fun _ =>
    .bind hdeep.expr.anywhere fun value => .pure (by simp)

theorem dict_built (hdeep : deep.Built) : Built known (dict deep) fun e => [e.pos] :=
  .bind (expect_built _) fun lbrace => .bind (entries_built (dictEntry_built hdeep)) fun list =>
    .bind (expect_built _) fun rbrace => .pure (by simp [Expr.pos])

theorem keyValue_built (hdeep : deep.Built) : Built known (keyValue deep) fun _ => [] := by
  refine .bind argName_built fun key => .bind (accept_built _) fun accepted => ?_
  split
  · exact .bind hdeep.expr.anywhere fun value => .pure (by simp)
  · exact .pure (by simp)

theorem parenthesized_built (hdeep : deep.Built) :
    Built known (parenthesized deep) fun e => [e.pos] := by
  refine .bind (expect_built _) fun lparen => .bind .token fun t => ?_
  split
  · exact .bind .next fun _ => .bind (entries_built (keyValue_built hdeep)) fun list =>
      .bind (expect_built _) fun rparen => .pure (by simp [Expr.pos])
  · refine .bind (argList_built hdeep) ?_
    rintro ⟨args, separated⟩
    refine .bind (expect_built _) fun rparen => .bind kind_built fun kind => ?_
    split
    · refine .bind (paramsOfArgs_built ?_ lparen rparen) fun params =>
        closure_built hdeep (by simp) params
      exact Args.marks_subset_iff.1 fun o ho => by simp [ho]
    · split
      · exact .pure (by simp [Expr.pos])
      · exact .pure (by simp [Expr.pos])

theorem func_built (hdeep : deep.Built) : Built known (func deep) fun e => [e.pos] := by
  refine .bind (expect_built _) fun pos => .bind kind_built fun kind =>
    .ite_seq (expectIdent_built.map fun _ => by simp) (.pure (by simp))
      fun name => .bind (expect_built _) fun lparen => .bind (paramList_built hdeep lparen)
        fun params => .bind (expect_built _) fun rparen => .bind kind_built fun kind => ?_
  split
  · exact closure_built hdeep (by simp) _
  · exact .bind (block_built hdeep) fun body => .pure (by simp [Expr.pos])

theorem load_built (kind : LoadKind) : Built known (load kind) fun e => [e.pos] := by
  refine .bind pos_built fun pos => .bind .next fun _ => .bind (expect_built _) fun _ =>
    .bind .token fun t => ?_
  dsimp only
  split
  · exact .bind .next fun _ => .bind (expect_built _) fun rparen => .pure (by simp [Expr.pos])
  · exact failExpected_built _

theorem single_built {e : Expr} (he : e.pos ∈ known) :
    Built known (single e) fun e => [e.pos] := .bind .next fun _ => .pure (by simp [he])

theorem operand_built (hdeep : deep.Built) : Built known (operand deep) fun e => [e.pos] := by
  refine .bind .token fun t => ?_
  dsimp only
  split
  case h_1 =>
    refine .bind expectIdent_built fun ident => .bind kind_built fun kind => ?_
    split
    · exact closure_built hdeep (by simp) _
    · exact .pure (by simp [Expr.pos])
  case h_18 => exact array_built hdeep
  case h_19 => exact dict_built hdeep
  case h_20 => exact parenthesized_built hdeep
  case h_21 => exact func_built hdeep
  case h_22 => exact load_built _
  case h_23 => exact load_built _
  case h_24 =>
    refine .bind .next fun _ => .bind atExprEnd_built fun atEnd => ?_
    split
    · exact .pure (by simp [Expr.pos])
    · exact .bind hdeep.expr.anywhere fun result => .pure (by simp [Expr.pos])
  case h_25 => exact failAt_built (by simp) _
  all_goals
    first
    | exact literal_built
    | exact single_built (by simp [Expr.pos])

/-! ### What follows an operand -/

theorem selection_built (hdeep : deep.Built) {base : Expr} (hbase : base.pos ∈ known) :
    Built known (selection deep base) fun e => [e.pos] := by
  refine .bind kind_built fun kind => .bind .next fun _ => .bind .token fun t => ?_
  split
  · exact .bind .next fun _ => .bind hdeep.expr.anywhere fun name => .bind (expect_built _) fun _ =>
      .pure (by simp [Expr.pos, hbase])
  · split
    · exact .bind .next fun _ => .pure (by simp [Expr.pos, hbase])
    · exact failExpected_built _

theorem sliceEnd_built (hdeep : deep.Built) {base : Expr} (hbase : base.pos ∈ known) (lbrack : Pos)
    (low : Option Expr) : Built known (sliceEnd deep base lbrack low) fun e => [e.pos] :=
  .bind .next fun _ => .bind kind_built fun kind =>
    .ite_seq (.pure (by simp)) (hdeep.expr.anywhere.map fun _ => by simp)
      fun high => .bind (expect_built _) fun rbrack => .pure (by simp [Expr.pos, hbase])

theorem indexOrSlice_built (hdeep : deep.Built) {base : Expr} (hbase : base.pos ∈ known) :
    Built known (indexOrSlice deep base) fun e => [e.pos] := by
  refine .bind (expect_built _) fun lbrack => .bind kind_built fun kind => ?_
  split
  · exact sliceEnd_built hdeep (by simp [hbase]) _ _
  · refine .bind hdeep.expr.anywhere fun low => .bind kind_built fun kind => ?_
    split
    · exact sliceEnd_built hdeep (by simp [hbase]) _ _
    · exact .bind (expect_built _) fun rbrack => .pure (by simp [Expr.pos, hbase])

theorem callArgs_built (hdeep : deep.Built) : Built known (callArgs deep) fun _ => [] :=
  .bind (expect_built _) fun lparen => .bind (argList_built hdeep) fun (args, _) =>
    .bind (expect_built _) fun rparen => .pure (by simp)

theorem pipedFunc_built (hdeep : deep.Built) : Built known (pipedFunc deep) fun _ => [] := by
  refine .bind (operand_built hdeep) fun first => .loop (fun f : Expr => [f.pos]) (by simp)
    fun f known hf => .bind kind_built fun kind => ?_
  have hf : f.pos ∈ known := by simpa using hf
  split
  · exact .bind (selection_built hdeep (by simp [hf])) fun f => .pure (by simp)
  · exact .pure (by simp)

theorem pipe_built (hdeep : deep.Built) {first : Expr} (hfirst : first.pos ∈ known) :
    Built known (pipe deep first) fun e => [e.pos] :=
  .bind .next fun _ => .bind (pipedFunc_built hdeep) fun f => .bind kind_built fun kind =>
    .ite_seq (callArgs_built hdeep) (.pure (by simp))
      fun (lparen, args, rparen) => .pure (by simp [Expr.pos, hfirst])

theorem call_pos (f : Expr) (lparen : Pos) (args : Args Expr) (rparen : Pos) :
    (Expr.call f lparen args rparen false).pos = f.pos := by
  obtain ⟨positional, _, _, _⟩ := args
  cases positional <;> rfl

theorem primary_built (hdeep : deep.Built) : Built known (primary deep) fun e => [e.pos] := by
  refine .bind (operand_built hdeep) fun first => .loop (fun e : Expr => [e.pos]) (by simp)
    fun e known he => .bind kind_built fun kind => ?_
  have he : e.pos ∈ known := by simpa using he
  split
  · exact .bind (selection_built hdeep (by simp [he])) fun e => .pure (by simp)
  · exact .bind (selection_built hdeep (by simp [he])) fun e => .pure (by simp)
  · exact .bind (indexOrSlice_built hdeep (by simp [he])) fun e => .pure (by simp)
  · refine .bind (callArgs_built hdeep) fun (lparen, args, rparen) => .pure ?_
    change [(Expr.call e lparen args rparen false).pos] ⊆ _
    simp [call_pos, he]
  · exact .bind (pipe_built hdeep (by simp [he])) fun e => .pure (by simp)
  · exact .pure (by simp [he])

/-! ### Operations -/

theorem unary_built (hdeep : deep.Built) : Built known (unary deep) fun e => [e.pos] := by
  refine .bind .token fun t => ?_
  split
  · refine .bind .next fun _ => .bind hdeep.unary.anywhere fun e => .pure ?_
    dsimp only [Expr.pos]
    split
    · simp
    · simp
  · exact primary_built hdeep

theorem operation_pos (lhs : Expr) (op : Token.Kind) (pos : Pos) (rhs : Expr) :
    (operation lhs op pos rhs).pos = lhs.pos := by
  unfold operation
  split <;> rfl

theorem binary_built (hdeep : deep.Built) (least : Nat) :
    Built known (binary deep least) fun e => [e.pos] := by
  refine .bind (unary_built hdeep) fun first => .loop (fun e : Expr => [e.pos]) (by simp)
    fun lhs known hlhs => .bind .token fun t => ?_
  have hlhs : lhs.pos ∈ known := by simpa using hlhs
  dsimp only
  split
  · exact .pure (by simp [hlhs])
  · refine .bind .next fun _ => .bind (hdeep.binary _).anywhere fun rhs => .pure ?_
    change [(operation lhs t.kind t.pos rhs).pos] ⊆ _
    simp [operation_pos, hlhs]

theorem expr_built (hdeep : deep.Built) : Built known (expr deep) fun e => [e.pos] := by
  refine .bind (binary_built hdeep 1) fun test => .bind kind_built fun kind => ?_
  split
  · exact .pure (by simp)
  · refine .bind pos_built fun question => .bind .next fun _ => .bind hdeep.expr.anywhere fun yes =>
      .bind .token fun t => ?_
    split
    · exact failAt_built (by simp) _
    · split
      · exact failExpected_built _
      · refine .bind (line_built _) fun _ => .bind (line_built _) fun _ => ?_
        split
        · exact failAt_built (by simp) _
        · exact .bind .next fun _ => .bind hdeep.expr.anywhere fun no => .pure (by simp [Expr.pos])

theorem exprs_built (hdeep : deep.Built) :
    Built known (exprs deep) fun list => list.map Expr.pos := by
  refine .bind (expr_built hdeep) fun first => .loop (fun list : List Expr => list.map Expr.pos)
    (by simp) fun list known hlist => .bind (accept_built _) fun accepted => ?_
  split
  · refine .bind (expr_built hdeep) fun e => .pure ?_
    change (list ++ [e]).map Expr.pos ⊆ _
    rw [List.map_append]
    exact List.append_subset.2 ⟨fun o ho => by simp [hlist ho], by simp⟩
  · exact .pure fun o ho => by simp [hlist ho]

end Grammar

end TemplateScript
