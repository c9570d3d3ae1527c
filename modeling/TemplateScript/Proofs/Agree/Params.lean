import TemplateScript.Proofs.Agree.Reader
import TemplateScript.Proofs.Tree.Unplaced
import TemplateScript.Proofs.WellFormed.Params

/-!
# Arguments and parameters that agree

Lists between parentheses may break off at the end of the source, behind a semicolon that was meant
to separate their parts; whatever should close them then finds nothing.
-/

namespace TemplateScript

open Parse Simulation

/-- The end of a code block, as a statement. -/
def Stmt.isCodeEnd : Stmt → Bool
  | .codeEnd _ => true
  | _ => false

/-- The phrases inside two phrases agree. -/
structure Nested.Agrees (S : Simulation) (deep₁ deep₂ : Nested) : Prop where
  accounts : deep₂.Accounts S.source
  expr : S.Agrees (fun _ => True) .inside deep₁.expr deep₂.expr (Expr.shift S.gap) (0 < ·.stop)
  binary (least : Nat) : S.Agrees (fun _ => True) .inside (deep₁.binary least) (deep₂.binary least)
    (Expr.shift S.gap) (0 < ·.stop)
  unary : S.Agrees (fun _ => True) .inside deep₁.unary deep₂.unary (Expr.shift S.gap) (0 < ·.stop)
  stmts : S.Agrees (fun _ => True) .beyond deep₁.stmts deep₂.stmts (shiftStmts S.gap) fun _ => True
  ifStmt : S.Agrees (fun _ => True) .edge deep₁.ifStmt deep₂.ifStmt (Stmt.shift S.gap)
    (·.isCodeEnd = false)
  expr_bails : S.Bails deep₂.expr

namespace Grammar

variable {S : Simulation} {given : Reader → Prop} {deep₁ deep₂ : Nested}

/-! ### Literals and names -/

theorem literal_agrees (hS : S.Lawful) (hgiven : ∀ r, given r → r.token.kind ∈ literalKinds) :
    S.Agrees given .inside literal literal (Expr.shift S.gap) (0 < ·.stop) := by
  unfold literal
  refine .written_bind hS fun t => (next_agrees hS ?_).bind fun _ => ?_
  · rintro r ⟨-, -, hr⟩
    refine .inl fun h => ?_
    have := hgiven r hr
    rw [h] at this
    revert this
    decide
  dsimp only [Token.shift_kind, Token.shift_literal, Token.shift_pos]
  have hwritten : (True ∧ ∃ r, r.token = t ∧
      (t.kind = .ident ∨ t.kind ∈ literalKinds → 0 < t.literal.utf8ByteSize) ∧ given r) →
      0 < t.literal.utf8ByteSize := by
    rintro ⟨-, r, rfl, hwritten, hr⟩
    exact hwritten (.inr (hgiven r hr))
  split
  · exact .pure rfl fun _ h => Nat.add_pos_right _ (hwritten h)
  · refine (errorAt_agrees hS _ _).bind fun _ => .pure ?_ ?_
    · simp only [Expr.shift, Nat.add_right_comm]
    · rintro - ⟨-, r, h⟩
      exact Nat.add_pos_right _ (hwritten h)

theorem typedIdent_agrees (hS : S.Lawful) :
    S.Agrees given .inside typedIdent typedIdent (TypedIdent.shift S.gap) fun _ => True := by
  unfold typedIdent
  refine (expectIdent_agrees hS).bind fun ident => (accept_agrees hS (by decide)).bind
    fun announced => .kind_bind hS fun kind => .ite Iff.rfl (fun _ => ?_) fun _ =>
      .pure rfl fun _ _ => trivial
  refine (expectIdent_agrees hS).bind fun first => .seq (List.map (Ident.shift S.gap))
    (.loop hS (List.map (Ident.shift S.gap)) (fun _ => True) (fun types => ?_) rfl
      fun _ _ => trivial) fun types => .pure rfl fun _ _ => trivial
  refine (accept_agrees hS (by decide)).bind fun accepted => .ite Iff.rfl (fun _ => ?_) fun _ =>
    .pure rfl fun _ _ => trivial
  exact (expectIdent_agrees hS).bind fun type => .pure (by simp [Round.map]) fun _ _ => trivial

theorem typedIdent_bails (hS : S.Lawful) : S.Bails typedIdent := (expectIdent_bails hS).bind _

/-! ### Parameters -/

/-- A list of parameters further on. -/
def ParamList.shift (n : Nat) (list : ParamList) : ParamList :=
  ⟨shiftParams n list.params, list.inNamed⟩

theorem param_agrees (hS : S.Lawful) (hdeep : deep₁.Agrees S deep₂) (list : ParamList) :
    S.Agrees given .inside (param deep₁ (list.shift S.gap)) (param deep₂ list)
      (ParamList.shift S.gap) fun _ => True := by
  obtain ⟨⟨lparen, positional, variadic, named, namedVariadic, rparen⟩, inNamed⟩ := list
  unfold param
  dsimp only [ParamList.shift, shiftParams]
  refine .pos_bind hS fun pos => .kind_bind hS fun kind => ?_
  split
  · refine .ite Iff.rfl (fun _ => failAt_agrees hS _ _) fun _ =>
      .ite (by rw [Option.isSome_map]) (fun _ => failAt_agrees hS _ _) fun _ => ?_
    exact (next_agrees_of_kind hS (by decide)).bind fun _ => (typedIdent_agrees hS).bind
      fun ident => .pure rfl fun _ _ => trivial
  · refine .ite (by rw [Option.isSome_map]) (fun _ => failAt_agrees hS _ _) fun _ => ?_
    exact (next_agrees_of_kind hS (by decide)).bind fun _ => (typedIdent_agrees hS).bind
      fun ident => .pure rfl fun _ _ => trivial
  · refine (typedIdent_agrees hS).bind fun ident => .kind_bind hS fun kind =>
      .ite Iff.rfl (fun hassign => ?_) fun _ => ?_
    · refine .ite (by rw [Option.isSome_map]) (fun _ => failAt_agrees hS _ _) fun _ => ?_
      refine (next_agrees_of_kind hS (by simp [hassign])).bind fun _ =>
        (hdeep.expr.weaken fun _ _ => trivial).bind fun value => .pure ?_ fun _ _ => trivial
      simp [ParamList.shift, shiftParams, shiftDefaults_eq_map]
    · refine .ite Iff.rfl (fun _ => failAt_agrees hS _ _) fun _ =>
        .ite (by rw [Option.isSome_map]) (fun _ => failAt_agrees hS _ _) fun _ => ?_
      exact .pure (by simp [ParamList.shift, shiftParams]) fun _ _ => trivial

theorem param_bails (hS : S.Lawful) (deep : Nested) (list : ParamList) :
    S.Bails (param deep list) := by
  unfold param
  exact Ends.pos_bind fun pos => .kind_bind hS ((typedIdent_bails hS).bind _)

theorem paramList_agrees (hS : S.Lawful) (hdeep : deep₁.Agrees S deep₂) (lparen : Pos) :
    S.Agrees given .beyond (paramList deep₁ (lparen + S.gap)) (paramList deep₂ lparen)
      (shiftParams S.gap) fun _ => True := by
  unfold paramList
  refine .loop_skipping hS (ParamList.shift S.gap) (fun _ => True) (skipLineBreaks_agrees hS)
    (skipLineBreaks_ends hS) (fun list _ => ?_) (fun list _ => ?_) rfl fun _ _ => trivial
  · refine .kind_bind hS fun kind => .ite Iff.rfl (fun _ => .pure rfl fun _ _ => trivial) fun _ =>
      .token_bind hS fun t => .ite Iff.rfl (fun _ => ?_) fun _ => ?_
    · refine .ite Iff.rfl (fun _ => failExpected_agrees hS _) fun _ => .beyond hS ?_
      exact (next_agrees_edge hS).map (fun _ => rfl) fun _ _ _ _ => trivial
    · refine ((param_agrees hS hdeep list).weaken fun _ _ => trivial).bind fun list =>
        (skipLineBreaks_agrees hS).bind_ends (fun lineEnded => ?_) fun lineEnded => ?_
      · refine .kind_bind hS fun kind => ?_
        split
        · exact (next_agrees_of_kind hS (by decide)).bind fun _ => .pure rfl fun _ _ => trivial
        · exact .pure rfl fun _ _ => trivial
        · exact .ite Iff.rfl (fun _ => .pure rfl fun _ _ => trivial) fun _ =>
            .pure rfl fun _ _ => trivial
      · refine .kind_bind hS ?_
        dsimp only
        split
        · exact .pure trivial
        · exact .pure trivial
  · refine Ends.kind_bind hS (.token_bind hS fun t ht => ?_)
    rw [if_neg (by simp [Token.isExplicitSemicolon, ht])]
    exact (param_bails hS deep₂ list).bind _

/-! ### Arguments -/

theorem argName_agrees (hS : S.Lawful) :
    S.Agrees given .inside argName argName (Expr.shift S.gap) (0 < ·.stop) := by
  unfold argName
  refine .kind_bind hS fun kind => .ite Iff.rfl (fun _ => ?_) fun _ =>
    .ite Iff.rfl (fun hname => ?_) fun _ => failExpected_agrees hS _
  · exact (expectIdent_agrees hS).bind fun ident => .pure rfl fun _ h => Nat.add_pos_right _ h.1
  · refine literal_agrees hS ?_
    rintro r ⟨rfl, -⟩
    revert hname
    cases r.token.kind <;> decide

theorem argName_bails (hS : S.Lawful) : S.Bails argName := by
  unfold argName
  exact Ends.kind_bind hS (failExpected_bails hS _)

/-- A list of arguments further on. -/
def ArgList.shift (n : Nat) (list : ArgList) : ArgList :=
  ⟨shiftArgs n list.args, list.inNamed, list.separated⟩

theorem shiftExpr?_isSome (n : Nat) (e : Option Expr) : (shiftExpr? n e).isSome = e.isSome := by
  cases e <;> rfl

theorem arg_agrees (hS : S.Lawful) (hdeep : deep₁.Agrees S deep₂) (list : ArgList) :
    S.Agrees given .inside (arg deep₁ (list.shift S.gap)) (arg deep₂ list)
      (ArgList.shift S.gap) fun _ => True := by
  have hexpr {given : Reader → Prop} := hdeep.expr.weaken fun r (_ : given r) => trivial
  obtain ⟨⟨positional, spread, named, namedSpread⟩, inNamed, separated⟩ := list
  unfold arg
  dsimp only [ArgList.shift, shiftArgs]
  refine .pos_bind hS fun pos => .kind_bind hS fun kind => ?_
  split
  · refine .ite Iff.rfl (fun _ => failAt_agrees hS _ _) fun _ =>
      .ite (by rw [shiftExpr?_isSome]) (fun _ => failAt_agrees hS _ _) fun _ => ?_
    exact (next_agrees_of_kind hS (by decide)).bind fun _ => hexpr.bind fun e =>
      .pure rfl fun _ _ => trivial
  · refine .ite (by rw [shiftExpr?_isSome]) (fun _ => failAt_agrees hS _ _) fun _ => ?_
    exact (next_agrees_of_kind hS (by decide)).bind fun _ => hexpr.bind fun e =>
      .pure rfl fun _ _ => trivial
  · refine .ite Iff.rfl (fun _ => ?_) fun _ => ?_
    · refine .ite (by rw [shiftExpr?_isSome]) (fun _ => failAt_agrees hS _ _) fun _ => ?_
      refine (argName_agrees hS).bind fun name => (accept_agrees hS (by decide)).bind
        fun accepted => .ite Iff.rfl (fun _ => ?_) fun _ => ?_
      · exact hexpr.bind fun value => .pure
          (by simp [ArgList.shift, shiftArgs, shiftNamed_eq_map]) fun _ _ => trivial
      · exact .pure (by simp [ArgList.shift, shiftArgs, shiftNamed_eq_map, Expr.shift,
          Literal.shift]) fun _ _ => trivial
    · refine hexpr.bind fun e => .kind_bind hS fun kind => ?_
      refine .ite (by rw [Expr.isArgName_shift]) (fun hassign => ?_) fun _ =>
        .ite (by rw [shiftExpr?_isSome]) (fun _ => failAt_agrees hS _ _) fun _ => ?_
      · have hkind : kind ≠ .semicolon := by
          rintro rfl
          simp at hassign
        exact (next_agrees_of_kind hS hkind).bind fun _ => hexpr.bind fun value => .pure
          (by simp [ArgList.shift, shiftArgs, shiftNamed_eq_map]) fun _ _ => trivial
      · exact .pure (by simp [ArgList.shift, shiftArgs, shiftExprs_eq_map]) fun _ _ => trivial

theorem arg_bails (hS : S.Lawful) (hdeep : deep₁.Agrees S deep₂) (list : ArgList) :
    S.Bails (arg deep₂ list) := by
  unfold arg
  refine Ends.pos_bind fun pos => .kind_bind hS ?_
  dsimp only
  split
  · split
    · exact failAt_bails hS _ _
    · exact (argName_bails hS).bind _
  · exact hdeep.expr_bails.bind _

theorem argList_agrees (hS : S.Lawful) (hdeep : deep₁.Agrees S deep₂) :
    S.Agrees given .beyond (argList deep₁) (argList deep₂)
      (fun list => (shiftArgs S.gap list.1, list.2)) fun _ => True := by
  unfold argList
  refine .loop_skipping hS (ArgList.shift S.gap) (fun _ => True) (skipLineBreaks_agrees hS)
    (skipLineBreaks_ends hS) (fun list _ => ?_) (fun list _ => ?_) rfl fun _ _ => trivial
  · refine .kind_bind hS fun kind => .ite Iff.rfl (fun _ => .pure rfl fun _ _ => trivial) fun _ =>
      .token_bind hS fun t => .ite Iff.rfl (fun _ => ?_) fun _ => ?_
    · refine .ite Iff.rfl (fun _ => failExpected_agrees hS _) fun _ => .beyond hS ?_
      exact (next_agrees_edge hS).map (fun _ => rfl) fun _ _ _ _ => trivial
    · refine ((arg_agrees hS hdeep list).weaken fun _ _ => trivial).bind fun list =>
        (skipLineBreaks_agrees hS).bind_ends (fun _ => ?_) fun _ => ?_
      · refine .kind_bind hS fun kind => ?_
        split
        · exact (next_agrees_of_kind hS (by decide)).bind fun _ => .pure rfl fun _ _ => trivial
        · exact .pure rfl fun _ _ => trivial
        · exact .pure rfl fun _ _ => trivial
      · exact .kind_bind hS (.pure trivial)
  · refine Ends.kind_bind hS (.token_bind hS fun t ht => ?_)
    rw [if_neg (by simp [Token.isExplicitSemicolon, ht])]
    exact (arg_bails hS hdeep list).bind _

/-! ### Parameters written as arguments -/

theorem paramOfExpr_agrees (hS : S.Lawful) (e : Expr) :
    S.Agrees given .inside (paramOfExpr (e.shift S.gap)) (paramOfExpr e) (TypedIdent.shift S.gap)
      fun _ => True := by
  unfold paramOfExpr
  rw [Expr.ident?_shift, Expr.pos_shift, Expr.print_shift]
  cases e.ident? with
  | some ident => exact .pure rfl fun _ _ => trivial
  | none => exact failAt_agrees hS _ _

theorem paramOfExpr?_agrees (hS : S.Lawful) (e : Option Expr) :
    S.Agrees given .inside (paramOfExpr? (shiftExpr? S.gap e)) (paramOfExpr? e)
      (Option.map (TypedIdent.shift S.gap)) fun _ => True := by
  cases e with
  | none => exact .pure rfl fun _ _ => trivial
  | some e => exact (paramOfExpr_agrees hS e).bind fun ident => .pure rfl fun _ _ => trivial

theorem paramsOfExprs_agrees (hS : S.Lawful) (list : List Expr) :
    S.Agrees given .inside (paramsOfExprs (shiftExprs S.gap list)) (paramsOfExprs list)
      (List.map (TypedIdent.shift S.gap)) fun _ => True := by
  induction list generalizing given with
  | nil => exact .pure rfl fun _ _ => trivial
  | cons e rest ih =>
    exact (paramOfExpr_agrees hS e).bind fun ident => ih.bind fun others =>
      .pure rfl fun _ _ => trivial

theorem paramsOfNamed_agrees (hS : S.Lawful) (named : List (Expr × Expr)) :
    S.Agrees given .inside (paramsOfNamed (shiftNamed S.gap named)) (paramsOfNamed named)
      (shiftDefaults S.gap) fun _ => True := by
  induction named generalizing given with
  | nil => exact .pure rfl fun _ _ => trivial
  | cons arg rest ih =>
    exact (paramOfExpr_agrees hS arg.1).bind fun ident => ih.bind fun others =>
      .pure rfl fun _ _ => trivial

theorem paramsOfArgs_agrees (hS : S.Lawful) (lparen : Pos) (args : Args Expr) (rparen : Pos) :
    S.Agrees given .inside
      (paramsOfArgs (lparen + S.gap) (shiftArgs S.gap args) (rparen + S.gap))
      (paramsOfArgs lparen args rparen) (shiftParams S.gap) fun _ => True := by
  obtain ⟨positional, spread, named, namedSpread⟩ := args
  unfold paramsOfArgs
  exact (paramsOfExprs_agrees hS positional).bind fun _ => (paramOfExpr?_agrees hS spread).bind
    fun _ => (paramsOfNamed_agrees hS named).bind fun _ =>
      (paramOfExpr?_agrees hS namedSpread).bind fun _ => .pure rfl fun _ _ => trivial

end Grammar

end TemplateScript
