import TemplateScript.Proofs.Built.Expression

/-!
# What statements are built of

Only of simple statements it matters where they begin, since one of them may stand where a condition
should.
-/

namespace TemplateScript

open Parse

namespace Grammar

variable {known : List Nat} {deep : Nested}

/-! ### Simple statements -/

theorem checkTargets_built (op : Token.Kind) {list : List Expr}
    (hlist : ∀ e ∈ list, e.pos ∈ known) : Built known (checkTargets op list) fun _ => [] := by
  induction list generalizing known with
  | nil => exact .pure (by simp)
  | cons e rest ih =>
    obtain ⟨he, hrest⟩ := List.forall_mem_cons.1 hlist
    unfold checkTargets
    dsimp only
    split
    · exact .bind (.errorAt he _) fun _ => ih hrest
    · exact ih hrest

theorem assignment_built (hdeep : deep.Built) {targets : List Expr}
    (htargets : ∀ e ∈ targets, e.pos ∈ known) :
    Built known (assignment deep targets) fun s => [s.pos] := by
  refine .bind .token fun t => .bind .next fun _ =>
    .bind (checkTargets_built _ fun e he => by simp [htargets e he]) fun _ =>
      .bind (exprs_built hdeep) fun values => ?_
  have hpos : (Stmt.assign targets t.kind t.pos values).pos = t.pos ∨
      (Stmt.assign targets t.kind t.pos values).pos ∈ known := by
    cases targets with
    | nil => exact .inl rfl
    | cons e rest => exact .inr (htargets e List.mem_cons_self)
  dsimp only
  split
  · exact .bind (.errorAt (by simp) _) fun _ => .pure (by rcases hpos with h | h <;> simp [h])
  · exact .pure (by rcases hpos with h | h <;> simp [h])

theorem increment_built {target : Expr} (htarget : target.pos ∈ known) :
    Built known (increment target) fun s => [s.pos] := by
  refine .bind .token fun t => ?_
  dsimp only
  split
  · exact .bind (.errorAt (by simp [htarget]) _) fun _ => .bind .next fun _ =>
      .pure (by simp [Stmt.pos, htarget])
  · exact .bind .next fun _ => .pure (by simp [Stmt.pos, htarget])

theorem simpleStmtFrom_built (hdeep : deep.Built) {list : List Expr}
    (hlist : ∀ e ∈ list, e.pos ∈ known) :
    Built known (simpleStmtFrom deep list) fun s => [s.pos] := by
  refine .bind kind_built fun kind => ?_
  split
  · exact assignment_built hdeep fun e he => by simp [hlist e he]
  · split
    · next e =>
      have he : e.pos ∈ known := hlist e List.mem_cons_self
      split
      · exact increment_built (by simp [he])
      · exact .pure (by simp [Stmt.pos, he])
    · exact failExpected_built _
    · exact failExpected_built _

theorem simpleStmt_built (hdeep : deep.Built) :
    Built known (simpleStmt deep) fun s => [s.pos] :=
  .bind (exprs_built hdeep) fun _ => simpleStmtFrom_built hdeep fun _ he =>
    List.mem_append_left _ (List.mem_map_of_mem he)

/-! ### Blocks and branches -/

theorem openBlock_built (hdeep : deep.Built) : Built known (openBlock deep) fun _ => [] := by
  refine .bind (expect_built _) fun lbrace => .bind hdeep.stmts.anywhere fun stmts =>
    .bind kind_built fun kind => ?_
  split
  · exact .bind pos_built fun pos => .pure (by simp)
  · exact .bind closeBlock_built fun rbrace => .pure (by simp)

theorem sharedBlock_built (hdeep : deep.Built) : Built known (sharedBlock deep) fun _ => [] :=
  .bind pos_built fun lbrace => .bind hdeep.stmts.anywhere fun stmts =>
    .bind closeBlock_built fun rbrace => .pure (by simp)

theorem ifHead_built (hdeep : deep.Built) : Built known (ifHead deep) fun _ => [] := by
  refine .bind kind_built fun kind => ?_
  split
  · exact failExpected_built _
  · exact .bind .next fun _ => .bind (expr_built hdeep) fun test => .pure (by simp)
  · refine .bind (simpleStmt_built hdeep) fun first => .bind (accept_built _) fun accepted => ?_
    split
    · exact .bind (expr_built hdeep) fun test => .pure (by simp)
    · split
      · exact .pure (by simp)
      · exact failAt_built (by simp) _

theorem ifElse_built (hdeep : deep.Built) (isShared : Bool) :
    Built known (ifElse deep isShared) fun _ => [] := by
  refine .bind kind_built fun kind => ?_
  split
  · exact hdeep.ifStmt.anywhere
  · exact .bind (block_built hdeep) fun body => .bind expectSemicolon_built fun _ =>
      .pure (by simp)
  · split
    · exact .bind (sharedBlock_built hdeep) fun body => .bind expectSemicolon_built fun _ =>
        .pure (by simp)
    · exact failExpected_built _

theorem ifStmt_built (hdeep : deep.Built) : Built known (ifStmt deep) fun _ => [] := by
  refine .bind (expect_built _) fun pos => .bind (ifHead_built hdeep) fun (init, test) =>
    .bind (openBlock_built hdeep) fun (body, isShared) => .bind (accept_built _) fun accepted => ?_
  split
  · exact .bind (ifElse_built hdeep isShared) fun otherwise => .pure (by simp)
  · exact .bind expectSemicolon_built fun _ => .pure (by simp)

/-! ### Loops -/

theorem loopElse_built (hdeep : deep.Built) (isShared : Bool) :
    Built known (loopElse deep isShared) fun _ => [] := by
  refine .bind (accept_built _) fun accepted => ?_
  split
  · refine .bind kind_built fun kind => ?_
    split
    · exact .bind (block_built hdeep) fun body => .pure (by simp)
    · split
      · exact .bind (sharedBlock_built hdeep) fun body => .pure (by simp)
      · exact failExpected_built _
  · exact .pure (by simp)

theorem loopBody_built (hdeep : deep.Built) : Built known (loopBody deep) fun _ => [] :=
  .bind (openBlock_built hdeep) fun (body, isShared) => .bind (loopElse_built hdeep isShared)
    fun otherwise => .bind expectSemicolon_built fun _ => .pure (by simp)

theorem loopNames_built {list : List Expr} (hlist : ∀ e ∈ list, e.pos ∈ known) :
    Built known (loopNames list) fun _ => [] := by
  induction list generalizing known with
  | nil => exact .pure (by simp)
  | cons e rest ih =>
    obtain ⟨he, hrest⟩ := List.forall_mem_cons.1 hlist
    unfold loopNames
    split
    · exact .bind (ih hrest) fun others => .pure (by simp)
    · exact failAt_built he _

/-- What follows the names of a loop over the elements of a collection. -/
theorem iterable_built (hdeep : deep.Built) (forPos : Pos) (names : Ident × Option Ident) :
    Built known (do
      next
      let iterable ← expr deep
      let (body, otherwise) ← loopBody deep
      return Stmt.forIn forPos names.1 names.2 iterable body otherwise) fun _ => [] :=
  .bind .next fun _ => .bind (expr_built hdeep) fun iterable =>
    .bind (loopBody_built hdeep) fun (body, otherwise) => .pure (by simp)

theorem forIn_built (hdeep : deep.Built) (forPos : Pos) {list : List Expr}
    (hlist : ∀ e ∈ list, e.pos ∈ known) :
    Built known (forIn deep forPos list) fun _ => [] := by
  refine .bind pos_built fun inPos => .bind (loopNames_built fun e he => by simp [hlist e he])
    fun names => ?_
  split
  · exact iterable_built hdeep forPos (_, none)
  · exact iterable_built hdeep forPos (_, some _)
  · exact .seq (failExpected_built _) fun names => iterable_built hdeep forPos names
  · exact .seq (failAt_built (by simp) _) fun names => iterable_built hdeep forPos names

theorem forParts_built (hdeep : deep.Built) (pos : Pos) (init : Option Stmt) :
    Built known (forParts deep pos init) fun _ => [] := by
  refine .bind .next fun _ => .bind kind_built fun kind =>
    .ite_seq (.pure (by simp)) ((expr_built hdeep).map fun _ => by simp)
      fun test => .bind (expect_built _) fun _ => .bind kind_built fun kind => ?_
  exact .ite_seq (.pure (by simp))
    ((simpleStmt_built hdeep).map fun _ => by simp) fun post =>
      .bind (loopBody_built hdeep) fun (body, otherwise) => .pure (by simp)

theorem forTest_built (hdeep : deep.Built) (pos : Pos) (test : Option Expr) :
    Built known (forTest deep pos test) fun _ => [] :=
  .bind (loopBody_built hdeep) fun (body, otherwise) => .pure (by simp)

theorem forStmt_built (hdeep : deep.Built) : Built known (forStmt deep) fun _ => [] := by
  refine .bind (expect_built _) fun pos => .bind kind_built fun kind => ?_
  split
  · exact forTest_built hdeep pos none
  · exact forParts_built hdeep pos none
  · refine .bind (exprs_built hdeep) fun list => .bind kind_built fun kind => ?_
    have hlist : ∀ e ∈ list, e.pos ∈ list.map Expr.pos := fun e he => List.mem_map_of_mem he
    split
    · exact forIn_built hdeep pos fun e he => by simp [hlist e he]
    · refine .bind (simpleStmtFrom_built hdeep fun e he => by simp [hlist e he]) fun init =>
        .bind kind_built fun kind => ?_
      split
      · exact forParts_built hdeep pos (some init)
      · split
        · exact forTest_built hdeep pos _
        · exact failAt_built (by simp) _

/-! ### Handlers -/

theorem catchClause_built (hdeep : deep.Built) : Built known (catchClause deep) fun _ => [] := by
  refine .bind pos_built fun pos => .bind (accept_built _) fun accepted => ?_
  split
  · exact .bind kind_built fun kind => .ite_seq
      (expectIdent_built.map fun _ => by simp) (.pure (by simp)) fun ident =>
        .bind (block_built hdeep) fun body => .pure (by simp)
  · exact .pure (by simp)

theorem finallyClause_built (hdeep : deep.Built) :
    Built known (finallyClause deep) fun _ => [] := by
  refine .bind pos_built fun pos => .bind (accept_built _) fun accepted => ?_
  split
  · exact .bind (block_built hdeep) fun body => .pure (by simp)
  · exact .pure (by simp)

theorem tryStmt_built (hdeep : deep.Built) : Built known (tryStmt deep) fun _ => [] := by
  refine .bind (expect_built _) fun pos => .bind (block_built hdeep) fun body =>
    .bind (catchClause_built hdeep) fun handler => .bind (finallyClause_built hdeep)
      fun finalizer => ?_
  dsimp only
  split
  · exact .bind (.errorAt (by simp) _) fun _ => .bind expectSemicolon_built fun _ =>
      .pure (by simp)
  · exact .bind expectSemicolon_built fun _ => .pure (by simp)

/-! ### Declarations -/

theorem paramSpec_built (hdeep : deep.Built) : Built known (paramSpec deep) fun _ => [] := by
  refine .bind kind_built fun kind => ?_
  split
  · exact .bind .next fun _ => .bind typedIdent_built fun ident => .pure (by simp)
  · exact .bind .next fun _ => .bind typedIdent_built fun ident => .pure (by simp)
  · refine .bind typedIdent_built fun ident => .bind (accept_built _) fun accepted => ?_
    split
    · exact .bind (expr_built hdeep) fun value => .pure (by simp)
    · exact .pure (by simp)

theorem valueSpec_built (hdeep : deep.Built) (word : Token.Kind) :
    Built known (valueSpec deep word) fun _ => [] := by
  refine .bind expectIdent_built fun ident => .bind kind_built fun kind => ?_
  split
  · exact .bind .next fun _ => .bind (expr_built hdeep) fun value => .pure (by simp)
  · split
    · exact failExpected_built _
    · exact .pure (by simp)

theorem valueSpecs_built (hdeep : deep.Built) (word : Token.Kind) :
    Built known (valueSpecs deep word) fun _ => [] := by
  refine .loop (fun _ => []) (by simp) fun specs known _ => .bind skipSemicolons_built fun _ =>
    .bind kind_built fun kind => ?_
  split
  · exact .pure (by simp)
  · refine .bind (valueSpec_built hdeep word) fun spec => .bind kind_built fun kind => ?_
    split
    · exact .bind .next fun _ => .pure (by simp)
    · exact .bind .next fun _ => .pure (by simp)
    · exact .pure (by simp)
    · exact failExpected_built _

theorem groupedSpecs_built (hdeep : deep.Built) (word : Token.Kind) (lparen : Pos) :
    Built known (groupedSpecs deep word lparen) fun _ => [] := by
  unfold groupedSpecs
  split
  · exact .bind (paramList_built hdeep lparen) fun params => .pure (by simp)
  · exact valueSpecs_built hdeep word

theorem decl_built (hdeep : deep.Built) : Built known (decl deep) fun _ => [] := by
  refine .bind .token fun word => .bind .next fun _ => .bind pos_built fun lparen =>
    .bind (accept_built _) fun accepted => ?_
  split
  · exact .bind (groupedSpecs_built hdeep word.kind lparen) fun specs =>
      .bind (expect_built _) fun rparen => .bind expectSemicolon_built fun _ => .pure (by simp)
  · exact .ite_bind (paramSpec_built hdeep) (valueSpec_built hdeep word.kind) fun spec =>
      .bind expectSemicolon_built fun _ => .pure (by simp)

end Grammar

end TemplateScript
