import TemplateScript.Proofs.Sugar.Params

/-!
# Expressions that sugar does not change

A block may be part of an expression, and there a value may have been made of a lone expression; all
that is read around it stays what it was.
-/

namespace TemplateScript

open Parse

namespace Grammar

variable {deep : Nested}

/-! ### Blocks -/

theorem closeBlock_twins : Twins id closeBlock closeBlock := by
  unfold closeBlock
  refine pos_twins.seq fun pos => isFull_twins.seq fun full => .ite Iff.rfl (fun _ => .pure rfl)
    fun _ => kind_twins.seq fun kind => ?_
  split
  · exact next_twins.seq fun _ => .pure rfl
  · exact (errorAt_twins _ _).seq fun _ => .pure rfl
  · exact failExpected_twins _

theorem block_twins (hdeep : deep.Twin) : Twins unfoldBlock (block deep) (block deep) :=
  (expect_twins _).seq fun lbrace => hdeep.stmts.bind fun stmts₁ stmts₂ hstmts =>
    closeBlock_twins.seq fun rbrace => .pure (by simp only [unfoldBlock, hstmts])

/-! ### Operands -/

theorem closure_twins (hdeep : deep.Twin) (pos : Pos) {params₁ params₂ : Params Expr}
    (h : unfoldParams params₁ = unfoldParams params₂) :
    Twins Expr.unfolded (closure deep pos params₁) (closure deep pos params₂) :=
  (expect_twins _).seq fun arrow => hdeep.expr.bind fun body₁ body₂ hbody =>
    .pure (by simp only [Expr.unfolded, h, hbody])

theorem separator_twins : Twins id Grammar.separator Grammar.separator := by
  unfold Grammar.separator
  refine skipLineBreaks_twins.seq fun _ => (accept_twins _).seq fun _ =>
    .ite Iff.rfl (fun _ => ?_) fun _ => .pure rfl
  exact skipLineBreaks_twins.seq fun _ => .pure rfl

/-- Sugar does not change entries if it changes none of them. -/
theorem entries_twins {α γ : Type} {view : α → γ} (closing : Token.Kind) {entry : Parse α}
    (hentry : Twins view entry entry) :
    Twins (List.map view) (entries closing entry) (entries closing entry) := by
  unfold entries
  refine skipLineBreaks_twins.seq fun _ => .loop (List.map view) rfl fun list₁ list₂ hlist => ?_
  refine kind_twins.seq fun _ => .ite Iff.rfl (fun _ => .pure (congrArg Round.done hlist)) fun _ =>
    hentry.bind fun e₁ e₂ he => separator_twins.seq fun _ => ?_
  have hmore : (list₁ ++ [e₁]).map view = (list₂ ++ [e₂]).map view := by
    rw [List.map_append, List.map_append, hlist, List.map_singleton, List.map_singleton, he]
  exact .ite Iff.rfl (fun _ => .pure (congrArg Round.again hmore)) fun _ =>
    .pure (congrArg Round.done hmore)

theorem array_twins (hdeep : deep.Twin) : Twins Expr.unfolded (array deep) (array deep) :=
  (expect_twins _).seq fun lbrack => (entries_twins _ hdeep.expr).bind fun list₁ list₂ hlist =>
    (expect_twins _).seq fun rbrack => .pure (by
      simp only [Expr.unfolded, unfoldExprs_eq_map, hlist])

theorem dictKey_twins : Twins id dictKey dictKey := by
  unfold dictKey
  refine token_twins.seq fun token => ?_
  dsimp only
  split
  · exact next_twins.seq fun _ => .pure rfl
  · exact failExpected_twins _

theorem dictEntry_twins (hdeep : deep.Twin) :
    Twins DictEntry.unfolded (dictEntry deep) (dictEntry deep) :=
  pos_twins.seq fun pos => dictKey_twins.seq fun key => (expect_twins _).seq fun _ =>
    hdeep.expr.bind fun value₁ value₂ hvalue => .pure (by simp only [DictEntry.unfolded, hvalue])

theorem dict_twins (hdeep : deep.Twin) : Twins Expr.unfolded (dict deep) (dict deep) :=
  (expect_twins _).seq fun lbrace => (entries_twins _ (dictEntry_twins hdeep)).bind
    fun list₁ list₂ hlist => (expect_twins _).seq fun rbrace => .pure (by
      simp only [Expr.unfolded, unfoldEntries_eq_map, hlist])

theorem keyValue_twins (hdeep : deep.Twin) :
    Twins KeyValue.unfolded (keyValue deep) (keyValue deep) :=
  argName_twins.seq fun key => (accept_twins _).seq fun _ => .ite Iff.rfl
    (fun _ => hdeep.expr.bind fun value₁ value₂ hvalue =>
      .pure (by simp only [KeyValue.unfolded, unfoldExpr?, hvalue]))
    fun _ => .pure rfl

theorem parenthesized_twins (hdeep : deep.Twin) :
    Twins Expr.unfolded (parenthesized deep) (parenthesized deep) := by
  unfold parenthesized
  refine (expect_twins _).seq fun lparen => token_twins.seq fun token => .ite Iff.rfl
    (fun _ => ?_) fun _ => ?_
  · exact next_twins.seq fun _ => (entries_twins _ (keyValue_twins hdeep)).bind
      fun list₁ list₂ hlist => (expect_twins _).seq fun rparen => .pure (by
        simp only [Expr.unfolded, unfoldKeyValues_eq_map, hlist])
  · refine (argList_twins hdeep).bind fun (args₁, separated) (args₂, _) h => ?_
    obtain ⟨hargs, rfl⟩ := Prod.mk.inj h
    refine (expect_twins _).seq fun rparen => kind_twins.seq fun _ => .ite Iff.rfl (fun _ => ?_)
      fun _ => ?_
    · exact (paramsOfArgs_twins _ _ hargs).bind fun _ _ hparams => closure_twins hdeep _ hparams
    · have hsingle : args₁.single?.map Expr.unfolded = args₂.single?.map Expr.unfolded := by
        rw [← unfoldArgs_single?, hargs, unfoldArgs_single?]
      have htuple : Twins Expr.unfolded (pure (.tuple lparen args₁ rparen))
          (pure (.tuple lparen args₂ rparen)) := .pure (by simp only [Expr.unfolded, hargs])
      dsimp only
      cases h₁ : args₁.single? with
      | none =>
        cases h₂ : args₂.single? with
        | none => exact htuple
        | some e₂ => simp [h₁, h₂] at hsingle
      | some e₁ =>
        cases h₂ : args₂.single? with
        | none => simp [h₁, h₂] at hsingle
        | some e₂ =>
          rw [h₁, h₂] at hsingle
          cases separated with
          | true => exact htuple
          | false => exact .pure (by simp only [Expr.unfolded, Option.some.inj hsingle])

theorem func_twins (hdeep : deep.Twin) : Twins Expr.unfolded (func deep) (func deep) := by
  unfold func
  have hname : Twins id (some <$> expectIdent) (some <$> expectIdent) :=
    expectIdent_twins.map fun _ _ h => congrArg some h
  refine (expect_twins _).seq fun pos => kind_twins.seq fun _ =>
    .ite_seq Iff.rfl (fun _ => hname) (fun _ => .pure rfl) fun name => ?_
  refine (expect_twins _).seq fun lparen => (paramList_twins hdeep lparen).bind
    fun params₁ params₂ h => (expect_twins _).seq fun rparen => ?_
  obtain ⟨lparen, positional, variadic, named₁, namedVariadic, _⟩ := params₁
  obtain ⟨_, _, _, named₂, _, _⟩ := params₂
  simp only [unfoldParams, Params.mk.injEq] at h
  obtain ⟨rfl, rfl, rfl, hnamed, rfl, -⟩ := h
  have hparams : unfoldParams ⟨lparen, positional, variadic, named₁, namedVariadic, rparen⟩ =
      unfoldParams ⟨lparen, positional, variadic, named₂, namedVariadic, rparen⟩ := by
    simp only [unfoldParams, hnamed]
  refine kind_twins.seq fun _ => .ite Iff.rfl (fun _ => closure_twins hdeep pos hparams) fun _ => ?_
  exact (block_twins hdeep).bind fun body₁ body₂ hbody => .pure (by
    simp only [Expr.unfolded, hparams, hbody])

theorem load_twins (kind : LoadKind) : Twins id (load kind) (load kind) := by
  unfold load
  refine pos_twins.seq fun pos => next_twins.seq fun _ => (expect_twins _).seq fun _ =>
    token_twins.seq fun token => ?_
  dsimp only
  split
  · exact next_twins.seq fun _ => (expect_twins _).seq fun _ => .pure rfl
  · exact failExpected_twins _

theorem single_twins (e : Expr) : Twins id (single e) (single e) :=
  next_twins.seq fun _ => .pure rfl

theorem operand_twins (hdeep : deep.Twin) : Twins Expr.unfolded (operand deep) (operand deep) := by
  unfold operand
  refine token_twins.seq fun token => ?_
  dsimp only
  split
  case h_1 =>
    exact expectIdent_twins.seq fun ident => kind_twins.seq fun _ => .ite Iff.rfl
      (fun _ => closure_twins hdeep _ rfl) fun _ => .pure rfl
  case h_18 => exact array_twins hdeep
  case h_19 => exact dict_twins hdeep
  case h_20 => exact parenthesized_twins hdeep
  case h_21 => exact func_twins hdeep
  case h_22 => exact (load_twins _).mono _
  case h_23 => exact (load_twins _).mono _
  case h_24 =>
    refine next_twins.seq fun _ => atExprEnd_twins.seq fun _ => .ite Iff.rfl (fun _ => .pure rfl)
      fun _ => ?_
    exact hdeep.expr.bind fun _ _ h => .pure (by simp only [Expr.unfolded, unfoldExpr?, h])
  case h_25 => exact failAt_twins _ _
  all_goals first
    | exact literal_twins.mono _
    | exact (single_twins _).mono _

/-! ### What follows an operand -/

theorem selection_twins (hdeep : deep.Twin) {base₁ base₂ : Expr}
    (h : base₁.unfolded = base₂.unfolded) :
    Twins Expr.unfolded (selection deep base₁) (selection deep base₂) := by
  unfold selection
  refine kind_twins.seq fun kind => next_twins.seq fun _ => token_twins.seq fun token =>
    .ite Iff.rfl (fun _ => ?_) fun _ => .ite Iff.rfl (fun _ => ?_) fun _ => failExpected_twins _
  · exact next_twins.seq fun _ => hdeep.expr.bind fun _ _ hname => (expect_twins _).seq fun _ =>
      .pure (by simp only [Expr.unfolded, h, hname])
  · exact next_twins.seq fun _ => .pure (by simp only [Expr.unfolded, h])

theorem sliceEnd_twins (hdeep : deep.Twin) {base₁ base₂ : Expr} {low₁ low₂ : Option Expr}
    (h : base₁.unfolded = base₂.unfolded) (hlow : unfoldExpr? low₁ = unfoldExpr? low₂)
    (lbrack : Pos) :
    Twins Expr.unfolded (sliceEnd deep base₁ lbrack low₁) (sliceEnd deep base₂ lbrack low₂) := by
  unfold sliceEnd
  have hhigh : Twins unfoldExpr? (some <$> deep.expr) (some <$> deep.expr) :=
    hdeep.expr.map fun _ _ h => congrArg some h
  exact next_twins.seq fun _ => kind_twins.seq fun _ =>
    .ite_bind Iff.rfl (fun _ => .pure rfl) (fun _ => hhigh) fun high₁ high₂ hhigh =>
      (expect_twins _).seq fun _ => .pure (by simp only [Expr.unfolded, h, hlow, hhigh])

theorem indexOrSlice_twins (hdeep : deep.Twin) {base₁ base₂ : Expr}
    (h : base₁.unfolded = base₂.unfolded) :
    Twins Expr.unfolded (indexOrSlice deep base₁) (indexOrSlice deep base₂) := by
  unfold indexOrSlice
  refine (expect_twins _).seq fun lbrack => kind_twins.seq fun _ => .ite Iff.rfl
    (fun _ => sliceEnd_twins hdeep h rfl lbrack) fun _ => hdeep.expr.bind fun low₁ low₂ hlow => ?_
  have hlow? : unfoldExpr? (some low₁) = unfoldExpr? (some low₂) := congrArg some hlow
  refine kind_twins.seq fun _ => .ite Iff.rfl
    (fun _ => sliceEnd_twins hdeep h hlow? lbrack) fun _ => ?_
  exact (expect_twins _).seq fun _ => .pure (by simp only [Expr.unfolded, h, hlow])

/-- What is between the parentheses of a call, with the values in it unfolded. -/
def unfoldCallArgs (call : Pos × Args Expr × Pos) : Pos × Args Expr × Pos :=
  (call.1, unfoldArgs call.2.1, call.2.2)

theorem callArgs_twins (hdeep : deep.Twin) :
    Twins unfoldCallArgs (callArgs deep) (callArgs deep) :=
  (expect_twins _).seq fun lparen => (argList_twins hdeep).bind fun (args₁, _) (args₂, _) h =>
    (expect_twins _).seq fun rparen => .pure (by
      simp only [unfoldCallArgs, (Prod.mk.inj h).1])

theorem pipedFunc_twins (hdeep : deep.Twin) :
    Twins Expr.unfolded (pipedFunc deep) (pipedFunc deep) :=
  (operand_twins hdeep).bind fun _ _ hfirst => .loop Expr.unfolded hfirst fun _ _ hf =>
    kind_twins.seq fun _ => .ite Iff.rfl
      (fun _ => (selection_twins hdeep hf).bind fun _ _ h => .pure (congrArg Round.again h))
      fun _ => .pure (congrArg Round.done hf)

theorem pipe_twins (hdeep : deep.Twin) {first₁ first₂ : Expr}
    (h : first₁.unfolded = first₂.unfolded) :
    Twins Expr.unfolded (pipe deep first₁) (pipe deep first₂) := by
  unfold pipe
  refine next_twins.seq fun _ => (pipedFunc_twins hdeep).bind fun f₁ f₂ hf => kind_twins.seq
    fun _ => .ite_bind Iff.rfl (fun _ => callArgs_twins hdeep) (fun _ => .pure ?_)
      fun (lparen, args₁, rparen) (_, args₂, _) hargs => ?_
  · rw [eq_of_unfolded Expr.stop_unfolded hf]
  · obtain ⟨positional₁, spread₁, named₁, namedSpread₁⟩ := args₁
    obtain ⟨positional₂, spread₂, named₂, namedSpread₂⟩ := args₂
    simp only [unfoldCallArgs, unfoldArgs, Prod.mk.injEq, Args.mk.injEq] at hargs
    obtain ⟨rfl, ⟨hpositional, hspread, hnamed, hnamedSpread⟩, rfl⟩ := hargs
    exact .pure (by simp only [Expr.unfolded, unfoldArgs, unfoldExprs, h, hf, hpositional, hspread,
      hnamed, hnamedSpread])

theorem primary_twins (hdeep : deep.Twin) : Twins Expr.unfolded (primary deep) (primary deep) := by
  unfold primary
  refine (operand_twins hdeep).bind fun _ _ hfirst => .loop Expr.unfolded hfirst fun e₁ e₂ he =>
    kind_twins.seq fun kind => ?_
  have hagain {p₁ p₂ : Parse Expr} (hp : Twins Expr.unfolded p₁ p₂) :
      Twins (Simulation.Round.map Expr.unfolded Expr.unfolded)
        (p₁ >>= fun e => pure (.again e)) (p₂ >>= fun e => pure (.again e)) :=
    hp.bind fun _ _ h => .pure (congrArg Round.again h)
  split
  · exact hagain (selection_twins hdeep he)
  · exact hagain (selection_twins hdeep he)
  · exact hagain (indexOrSlice_twins hdeep he)
  · refine (callArgs_twins hdeep).bind fun (lparen, args₁, rparen) (_, args₂, _) hargs => ?_
    simp only [unfoldCallArgs, Prod.mk.injEq] at hargs
    obtain ⟨rfl, hargs, rfl⟩ := hargs
    exact .pure (by simp only [Simulation.Round.map, Expr.unfolded, he, hargs])
  · exact hagain (pipe_twins hdeep he)
  · exact .pure (congrArg Round.done he)

/-! ### Operations -/

theorem unary_twins (hdeep : deep.Twin) : Twins Expr.unfolded (unary deep) (unary deep) := by
  unfold unary
  refine token_twins.seq fun token => ?_
  cases unaryOp? token.kind with
  | some op =>
    exact next_twins.seq fun _ => hdeep.unary.bind fun _ _ h =>
      .pure (by simp only [Expr.unfolded, h])
  | none => exact primary_twins hdeep

/-- No value can make a comparison a test for nil. -/
theorem operation_unfolded (lhs : Expr) (op : Token.Kind) (opPos : Pos) (rhs : Expr) :
    (operation lhs op opPos rhs).unfolded = operation lhs.unfolded op opPos rhs.unfolded := by
  cases rhs with
  | word w pos => cases w <;> cases op <;> rfl
  | _ => cases op <;> rfl

theorem binary_twins (hdeep : deep.Twin) (least : Nat) :
    Twins Expr.unfolded (binary deep least) (binary deep least) := by
  unfold binary
  refine (unary_twins hdeep).bind fun _ _ hfirst => .loop Expr.unfolded hfirst
    fun lhs₁ lhs₂ hlhs => token_twins.seq fun token => .ite Iff.rfl
      (fun _ => .pure (congrArg Round.done hlhs)) fun _ => next_twins.seq fun _ => ?_
  refine (hdeep.binary _).bind fun rhs₁ rhs₂ hrhs => .pure (congrArg Round.again ?_)
  rw [operation_unfolded, operation_unfolded, hlhs, hrhs]

theorem expr_twins (hdeep : deep.Twin) : Twins Expr.unfolded (expr deep) (expr deep) := by
  unfold expr
  refine (binary_twins hdeep 1).bind fun test₁ test₂ htest => kind_twins.seq fun _ =>
    .ite Iff.rfl (fun _ => .pure htest) fun _ => ?_
  refine pos_twins.seq fun question => next_twins.seq fun _ => hdeep.expr.bind
    fun yes₁ yes₂ hyes => token_twins.seq fun token => ?_
  refine .ite Iff.rfl (fun _ => failAt_twins _ _) fun _ => .ite Iff.rfl
    (fun _ => failExpected_twins _) fun _ => (line_twins _).seq fun _ => (line_twins _).seq
      fun _ => .ite Iff.rfl (fun _ => failAt_twins _ _) fun _ => ?_
  exact next_twins.seq fun _ => hdeep.expr.bind fun no₁ no₂ hno =>
    .pure (by simp only [Expr.unfolded, htest, hyes, hno])

theorem exprs_twins (hdeep : deep.Twin) : Twins unfoldExprs (exprs deep) (exprs deep) := by
  unfold exprs
  refine (expr_twins hdeep).bind fun first₁ first₂ hfirst => .loop unfoldExprs
    (by simp only [unfoldExprs, hfirst]) fun list₁ list₂ hlist => (accept_twins _).seq fun _ =>
      .ite Iff.rfl (fun _ => ?_) fun _ => .pure (congrArg Round.done hlist)
  exact (expr_twins hdeep).bind fun e₁ e₂ he => .pure (congrArg Round.again (by
    simp only [unfoldExprs_append, hlist, unfoldExprs, he]))

end Grammar

end TemplateScript
