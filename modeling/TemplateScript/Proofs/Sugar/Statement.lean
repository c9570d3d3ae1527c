import TemplateScript.Proofs.Sugar.Expression

/-!
# Statements that sugar does not change

What a statement is read as, and what is found wrong with it, depends on nothing that the values in
its blocks were made of.
-/

namespace TemplateScript

open Parse

/-- Expressions that look alike are as many. -/
theorem length_eq_of_unfoldExprs {list₁ list₂ : List Expr}
    (h : unfoldExprs list₁ = unfoldExprs list₂) : list₁.length = list₂.length := by
  have hlength (list : List Expr) : (unfoldExprs list).length = list.length := by
    rw [unfoldExprs_eq_map, List.length_map]
  rw [← hlength list₁, h, hlength]

/-- Of statements that look alike both are expressions or none is. -/
theorem Stmt.expr_or_not {s₁ s₂ : Stmt} (h : s₁.unfolded = s₂.unfolded) :
    (∃ e₁ e₂, s₁ = .expr e₁ ∧ s₂ = .expr e₂ ∧ e₁.unfolded = e₂.unfolded) ∨
      (∀ e, s₁ ≠ .expr e) ∧ ∀ e, s₂ ≠ .expr e := by
  have hnot {s : Stmt} (hs : ∀ e, s.unfolded ≠ .expr e) (e : Expr) : s ≠ .expr e := by
    rintro rfl
    exact hs e.unfolded rfl
  cases s₁ with
  | expr e₁ =>
    cases s₂ with
    | expr e₂ => exact .inl ⟨e₁, e₂, rfl, rfl, Stmt.expr.inj h⟩
    | _ => cases h
  | _ => exact .inr ⟨hnot fun _ => nofun, hnot fun _ hs => nomatch h.trans hs⟩

/-- Blocks, if there are any, that look alike are there together. -/
theorem isNone_of_unfoldCatch? {handler₁ handler₂ : Option (CatchClause Stmt)}
    (h : unfoldCatch? handler₁ = unfoldCatch? handler₂) : handler₁.isNone = handler₂.isNone := by
  cases handler₁ with
  | none =>
    cases handler₂ with
    | none => rfl
    | some clause => cases h
  | some clause =>
    cases handler₂ with
    | none => cases h
    | some clause => rfl

theorem isNone_of_unfoldFinally? {finalizer₁ finalizer₂ : Option (FinallyClause Stmt)}
    (h : unfoldFinally? finalizer₁ = unfoldFinally? finalizer₂) :
    finalizer₁.isNone = finalizer₂.isNone := by
  cases finalizer₁ with
  | none =>
    cases finalizer₂ with
    | none => rfl
    | some clause => cases h
  | some clause =>
    cases finalizer₂ with
    | none => cases h
    | some clause => rfl

namespace Grammar

variable {deep : Nested}

/-! ### Simple statements -/

theorem isTarget_unfolded (op : Token.Kind) (e : Expr) :
    isTarget op e.unfolded = isTarget op e := by
  simp only [isTarget, Expr.ident?_unfolded, Expr.isAssignable_unfolded]

theorem checkTargets_twins (op : Token.Kind) {list₁ list₂ : List Expr}
    (h : unfoldExprs list₁ = unfoldExprs list₂) :
    Twins id (checkTargets op list₁) (checkTargets op list₂) := by
  induction list₁ generalizing list₂ with
  | nil =>
    cases list₂ with
    | nil => exact .pure rfl
    | cons e₂ rest₂ => cases h
  | cons e₁ rest₁ ih =>
    cases list₂ with
    | nil => cases h
    | cons e₂ rest₂ =>
      obtain ⟨he, hrest⟩ := List.cons.inj h
      unfold checkTargets
      rw [eq_of_unfolded (isTarget_unfolded op) he, eq_of_unfolded Expr.pos_unfolded he,
        eq_of_unfolded Expr.print_unfolded he]
      exact .ite Iff.rfl (fun _ => (errorAt_twins _ _).seq fun _ => ih hrest) fun _ => ih hrest

theorem isBalanced_of_unfolded (op : Token.Kind) {targets₁ targets₂ values₁ values₂ : List Expr}
    (htargets : unfoldExprs targets₁ = unfoldExprs targets₂)
    (hvalues : unfoldExprs values₁ = unfoldExprs values₂) :
    isBalanced op targets₁ values₁ = isBalanced op targets₂ values₂ := by
  simp only [isBalanced, length_eq_of_unfoldExprs htargets, length_eq_of_unfoldExprs hvalues]

theorem assignment_twins (hdeep : deep.Twin) {targets₁ targets₂ : List Expr}
    (h : unfoldExprs targets₁ = unfoldExprs targets₂) :
    Twins Stmt.unfolded (assignment deep targets₁) (assignment deep targets₂) := by
  unfold assignment
  refine token_twins.seq fun token => next_twins.seq fun _ => (checkTargets_twins _ h).seq fun _ =>
    (exprs_twins hdeep).bind fun values₁ values₂ hvalues => ?_
  rw [isBalanced_of_unfolded _ h hvalues]
  have hassign : Twins Stmt.unfolded (pure (.assign targets₁ token.kind token.pos values₁))
      (pure (.assign targets₂ token.kind token.pos values₂)) :=
    .pure (by simp only [Stmt.unfolded, h, hvalues])
  exact .ite Iff.rfl (fun _ => (errorAt_twins _ _).seq fun _ => hassign) fun _ => hassign

theorem increment_twins {target₁ target₂ : Expr} (h : target₁.unfolded = target₂.unfolded) :
    Twins Stmt.unfolded (increment target₁) (increment target₂) := by
  unfold increment
  refine token_twins.seq fun token => ?_
  rw [eq_of_unfolded Expr.isAssignable_unfolded h, eq_of_unfolded Expr.pos_unfolded h,
    eq_of_unfolded Expr.print_unfolded h]
  have hincrement : Twins Stmt.unfolded
      (next >>= fun _ => pure (.incDec target₁ token.kind token.pos))
      (next >>= fun _ => pure (.incDec target₂ token.kind token.pos)) :=
    next_twins.seq fun _ => .pure (by simp only [Stmt.unfolded, h])
  exact .ite Iff.rfl (fun _ => (errorAt_twins _ _).seq fun _ => hincrement) fun _ => hincrement

theorem simpleStmtFrom_twins (hdeep : deep.Twin) {list₁ list₂ : List Expr}
    (h : unfoldExprs list₁ = unfoldExprs list₂) :
    Twins Stmt.unfolded (simpleStmtFrom deep list₁) (simpleStmtFrom deep list₂) := by
  unfold simpleStmtFrom
  refine kind_twins.seq fun kind => .ite Iff.rfl (fun _ => assignment_twins hdeep h) fun _ => ?_
  match list₁, list₂, h with
  | [], [], _ => exact failExpected_twins _
  | [e₁], [e₂], h =>
    have he := (List.cons.inj h).1
    exact .ite Iff.rfl (fun _ => increment_twins he) fun _ => .pure (congrArg Stmt.expr he)
  | [_], _ :: _ :: _, h => cases (List.cons.inj h).2
  | _ :: _ :: _, [_], h => cases (List.cons.inj h).2
  | _ :: _ :: _, _ :: _ :: _, _ => exact failExpected_twins _

theorem simpleStmt_twins (hdeep : deep.Twin) :
    Twins Stmt.unfolded (simpleStmt deep) (simpleStmt deep) :=
  (exprs_twins hdeep).bind fun _ _ h => simpleStmtFrom_twins hdeep h

/-! ### Blocks and branches -/

/-- A block with the values in it unfolded, and whether an `else` closed it. -/
def unfoldOpen (open' : Block Stmt × Bool) : Block Stmt × Bool := (unfoldBlock open'.1, open'.2)

theorem openBlock_twins (hdeep : deep.Twin) :
    Twins unfoldOpen (openBlock deep) (openBlock deep) := by
  unfold openBlock
  refine (expect_twins _).seq fun lbrace => hdeep.stmts.bind fun stmts₁ stmts₂ h =>
    kind_twins.seq fun _ => .ite Iff.rfl (fun _ => pos_twins.seq fun _ => ?_) fun _ =>
      closeBlock_twins.seq fun _ => ?_
  · exact .pure (by simp only [unfoldOpen, unfoldBlock, h])
  · exact .pure (by simp only [unfoldOpen, unfoldBlock, h])

theorem sharedBlock_twins (hdeep : deep.Twin) :
    Twins unfoldBlock (sharedBlock deep) (sharedBlock deep) :=
  pos_twins.seq fun lbrace => hdeep.stmts.bind fun stmts₁ stmts₂ h => closeBlock_twins.seq
    fun rbrace => .pure (by simp only [unfoldBlock, h])

theorem failCondition_twins {α γ : Type} {view : α → γ} (wanted : String) {s₁ s₂ : Stmt}
    (h : s₁.unfolded = s₂.unfolded) :
    Twins view (failCondition wanted s₁) (failCondition wanted s₂) := by
  unfold failCondition
  rw [← Stmt.pos_unfolded, ← Stmt.print_unfolded, h, Stmt.pos_unfolded, Stmt.print_unfolded]
  exact failAt_twins _ _

/-- What stands between `if` and its block with the values in it unfolded. -/
def unfoldHead (head : Option Stmt × Expr) : Option Stmt × Expr :=
  (unfoldStmt? head.1, head.2.unfolded)

theorem ifHead_twins (hdeep : deep.Twin) : Twins unfoldHead (ifHead deep) (ifHead deep) := by
  unfold ifHead
  refine kind_twins.seq fun kind => ?_
  split
  · exact failExpected_twins _
  · exact next_twins.seq fun _ => (expr_twins hdeep).bind fun _ _ htest =>
      .pure (by simp only [unfoldHead, htest])
  · refine (simpleStmt_twins hdeep).bind fun first₁ first₂ h => (accept_twins _).seq fun _ =>
      .ite Iff.rfl (fun _ => ?_) fun _ => ?_
    · exact (expr_twins hdeep).bind fun _ _ htest => .pure (by
        simp only [unfoldHead, unfoldStmt?, h, htest])
    · obtain ⟨e₁, e₂, rfl, rfl, he⟩ | ⟨hnot₁, hnot₂⟩ := Stmt.expr_or_not h
      · exact .pure (by simp only [unfoldHead, he])
      · split
        · exact absurd rfl (hnot₁ _)
        · exact failCondition_twins _ h

/-- A block on its own. -/
theorem blockStmt_twins {p : Parse (Block Stmt)} (hp : Twins unfoldBlock p p) :
    Twins Stmt.unfolded (p >>= fun body => expectSemicolon >>= fun _ => pure (.block body))
      (p >>= fun body => expectSemicolon >>= fun _ => pure (.block body)) :=
  hp.bind fun _ _ hbody => expectSemicolon_twins.seq fun _ =>
    .pure (by simp only [Stmt.unfolded, hbody])

theorem ifElse_twins (hdeep : deep.Twin) (isShared : Bool) :
    Twins Stmt.unfolded (ifElse deep isShared) (ifElse deep isShared) := by
  unfold ifElse
  refine kind_twins.seq fun kind => ?_
  split
  · exact hdeep.ifStmt
  · exact blockStmt_twins (block_twins hdeep)
  · exact .ite Iff.rfl (fun _ => blockStmt_twins (sharedBlock_twins hdeep)) fun _ =>
      failExpected_twins _

theorem ifStmt_twins (hdeep : deep.Twin) : Twins Stmt.unfolded (ifStmt deep) (ifStmt deep) := by
  unfold ifStmt
  refine (expect_twins _).seq fun pos => (ifHead_twins hdeep).bind
    fun (init₁, test₁) (init₂, test₂) hhead => (openBlock_twins hdeep).bind
      fun (body₁, isShared) (body₂, _) hbody => ?_
  obtain ⟨hinit, htest⟩ := Prod.mk.inj hhead
  obtain ⟨hbody, rfl⟩ := Prod.mk.inj hbody
  refine (accept_twins _).seq fun _ => .ite Iff.rfl (fun _ => ?_) fun _ => ?_
  · exact (ifElse_twins hdeep _).bind fun _ _ h => .pure (by
      simp only [Stmt.unfolded, unfoldStmt?, hinit, htest, hbody, h])
  · exact expectSemicolon_twins.seq fun _ => .pure (by
      simp only [Stmt.unfolded, hinit, htest, hbody])

/-! ### Loops -/

theorem loopElse_twins (hdeep : deep.Twin) (isShared : Bool) :
    Twins unfoldBlock? (loopElse deep isShared) (loopElse deep isShared) := by
  unfold loopElse
  refine (accept_twins _).seq fun _ => .ite Iff.rfl (fun _ => ?_) fun _ => .pure rfl
  refine kind_twins.seq fun _ => .ite Iff.rfl (fun _ => ?_) fun _ => .ite Iff.rfl (fun _ => ?_)
    fun _ => failExpected_twins _
  · exact (block_twins hdeep).bind fun _ _ h => .pure (congrArg some h)
  · exact (sharedBlock_twins hdeep).bind fun _ _ h => .pure (congrArg some h)

/-- The body of a loop and its `else` with the values in them unfolded. -/
def unfoldLoop (body : Block Stmt × Option (Block Stmt)) : Block Stmt × Option (Block Stmt) :=
  (unfoldBlock body.1, unfoldBlock? body.2)

theorem loopBody_twins (hdeep : deep.Twin) : Twins unfoldLoop (loopBody deep) (loopBody deep) := by
  unfold loopBody
  refine (openBlock_twins hdeep).bind fun (body₁, isShared) (body₂, _) h => ?_
  obtain ⟨hbody, rfl⟩ := Prod.mk.inj h
  exact (loopElse_twins hdeep _).bind fun _ _ hotherwise => expectSemicolon_twins.seq fun _ =>
    .pure (by simp only [unfoldLoop, hbody, hotherwise])

theorem loopNames_twins {list₁ list₂ : List Expr} (h : unfoldExprs list₁ = unfoldExprs list₂) :
    Twins id (loopNames list₁) (loopNames list₂) := by
  induction list₁ generalizing list₂ with
  | nil =>
    cases list₂ with
    | nil => exact .pure rfl
    | cons e₂ rest₂ => cases h
  | cons e₁ rest₁ ih =>
    cases list₂ with
    | nil => cases h
    | cons e₂ rest₂ =>
      obtain ⟨he, hrest⟩ := List.cons.inj h
      unfold loopNames
      rw [eq_of_unfolded Expr.ident?_unfolded he, eq_of_unfolded Expr.pos_unfolded he,
        eq_of_unfolded Expr.print_unfolded he]
      cases e₂.ident? with
      | some ident => exact (ih hrest).seq fun _ => .pure rfl
      | none => exact failAt_twins _ _

theorem forIn_twins (hdeep : deep.Twin) (forPos : Pos) {list₁ list₂ : List Expr}
    (h : unfoldExprs list₁ = unfoldExprs list₂) :
    Twins Stmt.unfolded (forIn deep forPos list₁) (forIn deep forPos list₂) := by
  have hrest (names : Ident × Option Ident) : Twins Stmt.unfolded
      (next >>= fun _ => expr deep >>= fun iterable => loopBody deep >>= fun body =>
        pure (.forIn forPos names.1 names.2 iterable body.1 body.2))
      (next >>= fun _ => expr deep >>= fun iterable => loopBody deep >>= fun body =>
        pure (.forIn forPos names.1 names.2 iterable body.1 body.2)) :=
    next_twins.seq fun _ => (expr_twins hdeep).bind fun _ _ hiterable =>
      (loopBody_twins hdeep).bind fun _ _ hbody => .pure (by
        obtain ⟨hbody, hotherwise⟩ := Prod.mk.inj hbody
        simp only [Stmt.unfolded, hiterable, hbody, hotherwise])
  unfold forIn
  refine pos_twins.seq fun inPos => (loopNames_twins h).seq fun names => ?_
  have hnames {p : Parse (Ident × Option Ident)} (hp : Twins id p p) := hp.seq hrest
  match names with
  | [] => exact hnames (failExpected_twins _)
  | [key] => exact hnames (.pure rfl)
  | [key, value] => exact hnames (.pure rfl)
  | _ :: _ :: _ :: _ => exact hnames (failAt_twins _ _)

theorem forParts_twins (hdeep : deep.Twin) (pos : Pos) {init₁ init₂ : Option Stmt}
    (h : unfoldStmt? init₁ = unfoldStmt? init₂) :
    Twins Stmt.unfolded (forParts deep pos init₁) (forParts deep pos init₂) := by
  unfold forParts
  have htest : Twins unfoldExpr? (some <$> expr deep) (some <$> expr deep) :=
    (expr_twins hdeep).map fun _ _ h => congrArg some h
  have hpost : Twins unfoldStmt? (some <$> simpleStmt deep) (some <$> simpleStmt deep) :=
    (simpleStmt_twins hdeep).map fun _ _ h => congrArg some h
  refine next_twins.seq fun _ => kind_twins.seq fun _ => .ite_bind Iff.rfl (fun _ => .pure rfl)
    (fun _ => htest) fun test₁ test₂ htest => (expect_twins _).seq fun _ => kind_twins.seq fun _ =>
      .ite_bind Iff.rfl (fun _ => .pure rfl) (fun _ => hpost) fun post₁ post₂ hpost => ?_
  refine (loopBody_twins hdeep).bind fun _ _ hbody => .pure ?_
  obtain ⟨hbody, hotherwise⟩ := Prod.mk.inj hbody
  simp only [Stmt.unfolded, h, htest, hpost, hbody, hotherwise]

theorem forTest_twins (hdeep : deep.Twin) (pos : Pos) {test₁ test₂ : Option Expr}
    (h : unfoldExpr? test₁ = unfoldExpr? test₂) :
    Twins Stmt.unfolded (forTest deep pos test₁) (forTest deep pos test₂) :=
  (loopBody_twins hdeep).bind fun _ _ hbody => .pure (by
    obtain ⟨hbody, hotherwise⟩ := Prod.mk.inj hbody
    simp only [Stmt.unfolded, h, hbody, hotherwise])

theorem forStmt_twins (hdeep : deep.Twin) : Twins Stmt.unfolded (forStmt deep) (forStmt deep) := by
  unfold forStmt
  refine (expect_twins _).seq fun pos => kind_twins.seq fun kind => ?_
  split
  · exact forTest_twins hdeep pos rfl
  · exact forParts_twins hdeep pos rfl
  · refine (exprs_twins hdeep).bind fun list₁ list₂ hlist => kind_twins.seq fun _ =>
      .ite Iff.rfl (fun _ => forIn_twins hdeep pos hlist) fun _ =>
        (simpleStmtFrom_twins hdeep hlist).bind fun init₁ init₂ hinit => kind_twins.seq fun _ => ?_
    have hinit? : unfoldStmt? (some init₁) = unfoldStmt? (some init₂) := congrArg some hinit
    refine .ite Iff.rfl (fun _ => forParts_twins hdeep pos hinit?) fun _ => ?_
    obtain ⟨e₁, e₂, rfl, rfl, he⟩ | ⟨hnot₁, hnot₂⟩ := Stmt.expr_or_not hinit
    · exact forTest_twins hdeep pos (congrArg some he)
    · split
      · exact absurd rfl (hnot₁ _)
      · exact failCondition_twins _ hinit

/-! ### Handlers -/

theorem catchClause_twins (hdeep : deep.Twin) :
    Twins unfoldCatch? (catchClause deep) (catchClause deep) := by
  unfold catchClause
  have hname : Twins id (some <$> expectIdent) (some <$> expectIdent) :=
    expectIdent_twins.map fun _ _ h => congrArg some h
  refine pos_twins.seq fun pos => (accept_twins _).seq fun _ => .ite Iff.rfl (fun _ => ?_) fun _ =>
    .pure rfl
  exact kind_twins.seq fun _ => .ite_seq Iff.rfl (fun _ => hname) (fun _ => .pure rfl) fun ident =>
    (block_twins hdeep).bind fun _ _ h => .pure (by simp only [unfoldCatch?, h])

theorem finallyClause_twins (hdeep : deep.Twin) :
    Twins unfoldFinally? (finallyClause deep) (finallyClause deep) := by
  unfold finallyClause
  refine pos_twins.seq fun pos => (accept_twins _).seq fun _ => .ite Iff.rfl (fun _ => ?_) fun _ =>
    .pure rfl
  exact (block_twins hdeep).bind fun _ _ h => .pure (by simp only [unfoldFinally?, h])

theorem tryStmt_twins (hdeep : deep.Twin) : Twins Stmt.unfolded (tryStmt deep) (tryStmt deep) := by
  unfold tryStmt
  refine (expect_twins _).seq fun pos => (block_twins hdeep).bind fun body₁ body₂ hbody =>
    (catchClause_twins hdeep).bind fun handler₁ handler₂ hhandler =>
      (finallyClause_twins hdeep).bind fun finalizer₁ finalizer₂ hfinalizer => ?_
  rw [isNone_of_unfoldCatch? hhandler, isNone_of_unfoldFinally? hfinalizer]
  have htry : Twins Stmt.unfolded
      (expectSemicolon >>= fun _ => pure (.tryCatch pos body₁ handler₁ finalizer₁))
      (expectSemicolon >>= fun _ => pure (.tryCatch pos body₂ handler₂ finalizer₂)) :=
    expectSemicolon_twins.seq fun _ => .pure (by
      simp only [Stmt.unfolded, hbody, hhandler, hfinalizer])
  exact .ite Iff.rfl (fun _ => (errorAt_twins _ _).seq fun _ => htry) fun _ => htry

/-! ### Declarations -/

theorem unfoldSpecs_param (idents : List TypedIdent) (variadic : Bool) :
    unfoldSpecs (idents.map (.param · variadic)) = idents.map (.param · variadic) := by
  induction idents with
  | nil => rfl
  | cons ident rest ih => rw [List.map_cons, unfoldSpecs, ih]

theorem unfoldSpecs_named (named : List (TypedIdent × Expr)) :
    unfoldSpecs (named.map fun (ident, value) => .named ident (some value) false) =
      (unfoldDefaults named).map fun (ident, value) => .named ident (some value) false := by
  induction named with
  | nil => rfl
  | cons param rest ih => rw [List.map_cons, unfoldSpecs, ih]; rfl

theorem unfoldSpecs_specsOfParams (params : Params Expr) :
    unfoldSpecs (specsOfParams params) = specsOfParams (unfoldParams params) := by
  obtain ⟨lparen, positional, variadic, named, namedVariadic, rparen⟩ := params
  have hvariadic : unfoldSpecs (variadic.map (.param · true)).toList =
      (variadic.map (.param · true)).toList := by cases variadic <;> rfl
  have hnamedVariadic : unfoldSpecs (namedVariadic.map (.named · none true)).toList =
      (namedVariadic.map (.named · none true)).toList := by cases namedVariadic <;> rfl
  simp only [specsOfParams, unfoldParams, unfoldSpecs_append, unfoldSpecs_param, unfoldSpecs_named,
    hvariadic, hnamedVariadic]

/-- An entry of a declaration with the values in it unfolded. -/
def unfoldSpec (spec : Spec Expr) : List (Spec Expr) := unfoldSpecs [spec]

theorem paramSpec_twins (hdeep : deep.Twin) :
    Twins unfoldSpec (paramSpec deep) (paramSpec deep) := by
  unfold paramSpec
  refine kind_twins.seq fun kind => ?_
  split
  · exact next_twins.seq fun _ => typedIdent_twins.seq fun _ => .pure rfl
  · exact next_twins.seq fun _ => typedIdent_twins.seq fun _ => .pure rfl
  · refine typedIdent_twins.seq fun ident => (accept_twins _).seq fun _ => .ite Iff.rfl
      (fun _ => ?_) fun _ => .pure rfl
    exact (expr_twins hdeep).bind fun _ _ h => .pure (by
      simp only [unfoldSpec, unfoldSpecs, unfoldExpr?, h])

theorem valueSpec_twins (hdeep : deep.Twin) (word : Token.Kind) :
    Twins unfoldSpec (valueSpec deep word) (valueSpec deep word) := by
  unfold valueSpec
  refine expectIdent_twins.seq fun ident => kind_twins.seq fun _ => .ite Iff.rfl (fun _ => ?_)
    fun _ => .ite Iff.rfl (fun _ => failExpected_twins _) fun _ => .pure rfl
  exact next_twins.seq fun _ => (expr_twins hdeep).bind fun _ _ h => .pure (by
    simp only [unfoldSpec, unfoldSpecs, unfoldExpr?, h])

theorem valueSpecs_twins (hdeep : deep.Twin) (word : Token.Kind) :
    Twins unfoldSpecs (valueSpecs deep word) (valueSpecs deep word) := by
  unfold valueSpecs
  refine .loop unfoldSpecs rfl fun list₁ list₂ hlist => skipSemicolons_twins.seq fun _ =>
    kind_twins.seq fun _ => .ite Iff.rfl (fun _ => .pure (congrArg Round.done hlist)) fun _ =>
      (valueSpec_twins hdeep word).bind fun spec₁ spec₂ hspec => kind_twins.seq fun kind => ?_
  have hmore : unfoldSpecs (list₁ ++ [spec₁]) = unfoldSpecs (list₂ ++ [spec₂]) := by
    rw [unfoldSpecs_append, unfoldSpecs_append, hlist]
    exact congrArg _ hspec
  split
  · exact next_twins.seq fun _ => .pure (congrArg Round.again hmore)
  · exact next_twins.seq fun _ => .pure (congrArg Round.again hmore)
  · exact .pure (congrArg Round.done hmore)
  · exact failExpected_twins _

theorem groupedSpecs_twins (hdeep : deep.Twin) (word : Token.Kind) (lparen : Pos) :
    Twins unfoldSpecs (groupedSpecs deep word lparen) (groupedSpecs deep word lparen) := by
  unfold groupedSpecs
  refine .ite Iff.rfl (fun _ => ?_) fun _ => valueSpecs_twins hdeep word
  exact (paramList_twins hdeep lparen).bind fun _ _ h => .pure (by
    rw [unfoldSpecs_specsOfParams, unfoldSpecs_specsOfParams, h])

theorem decl_twins (hdeep : deep.Twin) : Twins Stmt.unfolded (decl deep) (decl deep) := by
  unfold decl
  refine token_twins.seq fun word => next_twins.seq fun _ => pos_twins.seq fun lparen =>
    (accept_twins _).seq fun _ => .ite Iff.rfl (fun _ => ?_) fun _ => ?_
  · exact (groupedSpecs_twins hdeep _ _).bind fun _ _ hspecs => (expect_twins _).seq fun _ =>
      expectSemicolon_twins.seq fun _ => .pure (by simp only [Stmt.unfolded, hspecs])
  · refine .ite_bind Iff.rfl (fun _ => paramSpec_twins hdeep) (fun _ => valueSpec_twins hdeep _)
      fun spec₁ spec₂ hspec => expectSemicolon_twins.seq fun _ => .pure ?_
    exact congrArg (fun specs => Stmt.decl word.kind word.pos none specs none) hspec

end Grammar

end TemplateScript
