import TemplateScript.Grammar.Document
import TemplateScript.Proofs.Sugar.Twins

/-!
# Arguments and parameters that sugar does not change

Lists between parentheses look alike if they do with all values unfolded, and nothing else is asked
of them while they are read.
-/

namespace TemplateScript

open Parse

/-- What is the same for an expression with its values unfolded is the same for expressions that
look alike. -/
theorem eq_of_unfolded {ρ : Type} {f : Expr → ρ} (hf : ∀ e : Expr, f e.unfolded = f e)
    {e₁ e₂ : Expr} (h : e₁.unfolded = e₂.unfolded) : f e₁ = f e₂ := by
  rw [← hf, h, hf]

theorem unfoldExpr?_isSome (e : Option Expr) : (unfoldExpr? e).isSome = e.isSome := by
  cases e <;> rfl

theorem isSome_of_unfoldExpr? {e₁ e₂ : Option Expr} (h : unfoldExpr? e₁ = unfoldExpr? e₂) :
    e₁.isSome ↔ e₂.isSome := by
  rw [← unfoldExpr?_isSome, h, unfoldExpr?_isSome]

/-- Sugar does not change the phrases inside a phrase. -/
structure Nested.Twin (deep : Nested) : Prop where
  expr : Twins Expr.unfolded deep.expr deep.expr
  binary (least : Nat) : Twins Expr.unfolded (deep.binary least) (deep.binary least)
  unary : Twins Expr.unfolded deep.unary deep.unary
  stmts : Twins unfoldStmts deep.stmts deep.stmts
  ifStmt : Twins Stmt.unfolded deep.ifStmt deep.ifStmt

namespace Grammar

variable {deep : Nested}

/-! ### Literals and names -/

theorem literal_twins : Twins id literal literal := by
  unfold literal
  refine token_twins.seq fun token => next_twins.seq fun _ => ?_
  cases Value.ofToken? token.kind token.literal with
  | some value => exact .pure rfl
  | none => exact (errorAt_twins _ _).seq fun _ => .pure rfl

theorem typedIdent_twins : Twins id typedIdent typedIdent := by
  unfold typedIdent
  refine expectIdent_twins.seq fun _ => (accept_twins _).seq fun _ => kind_twins.seq fun _ =>
    .ite Iff.rfl (fun _ => expectIdent_twins.seq fun _ => ?_) fun _ => .pure rfl
  refine (Twins.loop_same fun _ => (accept_twins _).seq fun _ => ?_).seq fun _ => .pure rfl
  exact .ite Iff.rfl (fun _ => expectIdent_twins.seq fun _ => .pure rfl) fun _ => .pure rfl

/-! ### Parameters -/

/-- A list of parameters with the values in it unfolded. -/
def ParamList.unfolded (list : ParamList) : ParamList := ⟨unfoldParams list.params, list.inNamed⟩

theorem param_twins (hdeep : deep.Twin) {list₁ list₂ : ParamList}
    (h : list₁.unfolded = list₂.unfolded) :
    Twins ParamList.unfolded (param deep list₁) (param deep list₂) := by
  obtain ⟨⟨lparen, positional, variadic, named₁, namedVariadic, rparen⟩, inNamed⟩ := list₁
  obtain ⟨⟨_, _, _, named₂, _, _⟩, _⟩ := list₂
  simp only [ParamList.unfolded, unfoldParams, ParamList.mk.injEq, Params.mk.injEq] at h
  obtain ⟨⟨rfl, rfl, rfl, hnamed, rfl, rfl⟩, rfl⟩ := h
  unfold param
  refine pos_twins.seq fun pos => kind_twins.seq fun kind => ?_
  split
  · refine .ite Iff.rfl (fun _ => failAt_twins _ _) fun _ => .ite Iff.rfl
      (fun _ => failAt_twins _ _) fun _ => ?_
    exact next_twins.seq fun _ => typedIdent_twins.seq fun ident =>
      .pure (by simp only [ParamList.unfolded, unfoldParams, hnamed])
  · refine .ite Iff.rfl (fun _ => failAt_twins _ _) fun _ => ?_
    exact next_twins.seq fun _ => typedIdent_twins.seq fun ident =>
      .pure (by simp only [ParamList.unfolded, unfoldParams, hnamed])
  · refine typedIdent_twins.seq fun ident => kind_twins.seq fun kind => .ite Iff.rfl
      (fun _ => ?_) fun _ => ?_
    · refine .ite Iff.rfl (fun _ => failAt_twins _ _) fun _ => ?_
      exact next_twins.seq fun _ => hdeep.expr.bind fun value₁ value₂ hvalue =>
        .pure (by simp only [ParamList.unfolded, unfoldParams, unfoldDefaults_append,
          unfoldDefaults, hnamed, hvalue])
    · refine .ite Iff.rfl (fun _ => failAt_twins _ _) fun _ => .ite Iff.rfl
        (fun _ => failAt_twins _ _) fun _ => ?_
      exact .pure (by simp only [ParamList.unfolded, unfoldParams, hnamed])

theorem paramList_twins (hdeep : deep.Twin) (lparen : Pos) :
    Twins unfoldParams (paramList deep lparen) (paramList deep lparen) := by
  unfold paramList
  refine .loop ParamList.unfolded rfl fun list₁ list₂ h => ?_
  obtain ⟨hparams, hinNamed⟩ := ParamList.mk.inj h
  refine skipLineBreaks_twins.seq fun _ => kind_twins.seq fun _ => .ite Iff.rfl
    (fun _ => .pure (congrArg Round.done hparams)) fun _ => token_twins.seq fun _ =>
      .ite Iff.rfl (fun _ => ?_) fun _ => ?_
  · refine .ite (by rw [hinNamed]) (fun _ => failExpected_twins _) fun _ => ?_
    exact next_twins.seq fun _ => .pure (by
      simp only [Simulation.Round.map, ParamList.unfolded, hparams])
  · refine (param_twins hdeep h).bind fun list₁ list₂ h => skipLineBreaks_twins.seq
      fun lineEnded => kind_twins.seq fun kind => ?_
    have hagain : Twins (Simulation.Round.map ParamList.unfolded unfoldParams)
        (pure (.again list₁)) (pure (.again list₂)) := .pure (congrArg Round.again h)
    split
    · exact next_twins.seq fun _ => hagain
    · exact hagain
    · exact .ite Iff.rfl (fun _ => hagain) fun _ =>
        .pure (congrArg (fun list => Round.done (ParamList.params list)) h)

/-! ### Arguments -/

theorem argName_twins : Twins id argName argName :=
  kind_twins.seq fun _ => .ite Iff.rfl (fun _ => expectIdent_twins.seq fun _ => .pure rfl) fun _ =>
    .ite Iff.rfl (fun _ => literal_twins) fun _ => failExpected_twins _

/-- A list of arguments with the values in it unfolded. -/
def ArgList.unfolded (list : ArgList) : ArgList :=
  ⟨unfoldArgs list.args, list.inNamed, list.separated⟩

theorem arg_twins (hdeep : deep.Twin) {list₁ list₂ : ArgList}
    (h : list₁.unfolded = list₂.unfolded) :
    Twins ArgList.unfolded (arg deep list₁) (arg deep list₂) := by
  obtain ⟨⟨positional₁, spread₁, named₁, namedSpread₁⟩, inNamed, separated⟩ := list₁
  obtain ⟨⟨positional₂, spread₂, named₂, namedSpread₂⟩, _, _⟩ := list₂
  simp only [ArgList.unfolded, unfoldArgs, ArgList.mk.injEq, Args.mk.injEq] at h
  obtain ⟨⟨hpositional, hspread, hnamed, hnamedSpread⟩, rfl, rfl⟩ := h
  have hspreads := isSome_of_unfoldExpr? hspread
  have hnamedSpreads := isSome_of_unfoldExpr? hnamedSpread
  unfold arg
  refine pos_twins.seq fun pos => kind_twins.seq fun kind => ?_
  split
  · refine .ite Iff.rfl (fun _ => failAt_twins _ _) fun _ => .ite hspreads
      (fun _ => failAt_twins _ _) fun _ => next_twins.seq fun _ => ?_
    exact hdeep.expr.bind fun e₁ e₂ he => .pure (by
      simp only [ArgList.unfolded, unfoldArgs, unfoldExpr?, hpositional, he, hnamed, hnamedSpread])
  · refine .ite hnamedSpreads (fun _ => failAt_twins _ _) fun _ => next_twins.seq fun _ => ?_
    exact hdeep.expr.bind fun e₁ e₂ he => .pure (by
      simp only [ArgList.unfolded, unfoldArgs, unfoldExpr?, hpositional, hspread, hnamed, he])
  · refine .ite Iff.rfl (fun _ => ?_) fun _ => ?_
    · refine .ite hnamedSpreads (fun _ => failAt_twins _ _) fun _ => argName_twins.seq fun name =>
        (accept_twins _).seq fun _ => .ite Iff.rfl (fun _ => ?_) fun _ => ?_
      · exact hdeep.expr.bind fun value₁ value₂ hvalue => .pure (by
          simp only [ArgList.unfolded, unfoldArgs, unfoldNamed_append, unfoldNamed, hpositional,
            hspread, hnamed, hnamedSpread, hvalue])
      · exact .pure (by simp only [ArgList.unfolded, unfoldArgs, unfoldNamed_append,
          unfoldNamed, hpositional, hspread, hnamed, hnamedSpread])
    · refine hdeep.expr.bind fun e₁ e₂ he => kind_twins.seq fun kind => ?_
      refine .ite (by rw [eq_of_unfolded Expr.isArgName_unfolded he]) (fun _ => ?_) fun _ =>
        .ite hspreads (fun _ => failAt_twins _ _) fun _ => ?_
      · exact next_twins.seq fun _ => hdeep.expr.bind fun value₁ value₂ hvalue => .pure (by
          simp only [ArgList.unfolded, unfoldArgs, unfoldNamed_append, unfoldNamed, hpositional,
            hspread, hnamed, hnamedSpread, he, hvalue])
      · exact .pure (by simp only [ArgList.unfolded, unfoldArgs, unfoldExprs_append,
          unfoldExprs, hpositional, hspread, hnamed, hnamedSpread, he])

theorem argList_twins (hdeep : deep.Twin) :
    Twins (fun list => (unfoldArgs list.1, list.2)) (argList deep) (argList deep) := by
  unfold argList
  refine .loop ArgList.unfolded rfl fun list₁ list₂ h => ?_
  obtain ⟨hargs, hinNamed, hseparated⟩ := ArgList.mk.inj h
  refine skipLineBreaks_twins.seq fun _ => kind_twins.seq fun _ => .ite Iff.rfl
    (fun _ => .pure (by simp only [Simulation.Round.map, hargs, hseparated])) fun _ =>
      token_twins.seq fun _ => .ite Iff.rfl (fun _ => ?_) fun _ => ?_
  · refine .ite (by rw [hinNamed]) (fun _ => failExpected_twins _) fun _ => ?_
    exact next_twins.seq fun _ => .pure (by
      simp only [Simulation.Round.map, ArgList.unfolded, hargs])
  · refine (arg_twins hdeep h).bind fun list₁ list₂ h => skipLineBreaks_twins.seq fun _ =>
      kind_twins.seq fun kind => ?_
    obtain ⟨hargs, hinNamed, hseparated⟩ := ArgList.mk.inj h
    split
    · exact next_twins.seq fun _ => .pure (by
        simp only [Simulation.Round.map, ArgList.unfolded, hargs, hinNamed])
    · exact .pure (congrArg Round.again h)
    · exact .pure (by simp only [Simulation.Round.map, hargs, hseparated])

/-! ### Parameters written as arguments -/

theorem paramOfExpr_twins {e₁ e₂ : Expr} (h : e₁.unfolded = e₂.unfolded) :
    Twins id (paramOfExpr e₁) (paramOfExpr e₂) := by
  unfold paramOfExpr
  rw [eq_of_unfolded Expr.ident?_unfolded h, eq_of_unfolded Expr.pos_unfolded h,
    eq_of_unfolded Expr.print_unfolded h]
  cases e₂.ident? with
  | some ident => exact .pure rfl
  | none => exact failAt_twins _ _

theorem paramOfExpr?_twins {e₁ e₂ : Option Expr} (h : unfoldExpr? e₁ = unfoldExpr? e₂) :
    Twins id (paramOfExpr? e₁) (paramOfExpr? e₂) := by
  cases e₁ with
  | none =>
    cases e₂ with
    | none => exact .pure rfl
    | some e₂ => cases h
  | some e₁ =>
    cases e₂ with
    | none => cases h
    | some e₂ => exact (paramOfExpr_twins (Option.some.inj h)).seq fun _ => .pure rfl

theorem paramsOfExprs_twins {list₁ list₂ : List Expr} (h : unfoldExprs list₁ = unfoldExprs list₂) :
    Twins id (paramsOfExprs list₁) (paramsOfExprs list₂) := by
  induction list₁ generalizing list₂ with
  | nil =>
    cases list₂ with
    | nil => exact .pure rfl
    | cons e₂ rest₂ => cases h
  | cons e₁ rest₁ ih =>
    cases list₂ with
    | nil => cases h
    | cons e₂ rest₂ =>
      obtain ⟨he, hrest⟩ := List.cons.inj h
      exact (paramOfExpr_twins he).seq fun _ => (ih hrest).seq fun _ => .pure rfl

theorem paramsOfNamed_twins {named₁ named₂ : List (Expr × Expr)}
    (h : unfoldNamed named₁ = unfoldNamed named₂) :
    Twins unfoldDefaults (paramsOfNamed named₁) (paramsOfNamed named₂) := by
  induction named₁ generalizing named₂ with
  | nil =>
    cases named₂ with
    | nil => exact .pure rfl
    | cons arg₂ rest₂ => cases h
  | cons arg₁ rest₁ ih =>
    cases named₂ with
    | nil => cases h
    | cons arg₂ rest₂ =>
      obtain ⟨harg, hrest⟩ := List.cons.inj h
      obtain ⟨hname, hvalue⟩ := Prod.mk.inj harg
      exact (paramOfExpr_twins hname).seq fun _ => (ih hrest).bind fun _ _ hothers =>
        .pure (by simp only [unfoldDefaults, hvalue, hothers])

theorem paramsOfArgs_twins (lparen rparen : Pos) {args₁ args₂ : Args Expr}
    (h : unfoldArgs args₁ = unfoldArgs args₂) :
    Twins unfoldParams (paramsOfArgs lparen args₁ rparen) (paramsOfArgs lparen args₂ rparen) := by
  obtain ⟨positional₁, spread₁, named₁, namedSpread₁⟩ := args₁
  obtain ⟨positional₂, spread₂, named₂, namedSpread₂⟩ := args₂
  simp only [unfoldArgs, Args.mk.injEq] at h
  obtain ⟨hpositional, hspread, hnamed, hnamedSpread⟩ := h
  exact (paramsOfExprs_twins hpositional).seq fun _ => (paramOfExpr?_twins hspread).seq fun _ =>
    (paramsOfNamed_twins hnamed).bind fun _ _ hothers =>
      (paramOfExpr?_twins hnamedSpread).seq fun _ => .pure (by simp only [unfoldParams, hothers])

end Grammar

end TemplateScript
