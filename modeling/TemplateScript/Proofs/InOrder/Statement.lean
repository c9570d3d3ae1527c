import TemplateScript.Proofs.InOrder.Expression

/-!
# Statements with statements in order

A statement begins where its first token does and uses that token. The blocks in it are lists of
statements, which the phrases inside it keep in order.
-/

namespace TemplateScript

namespace Stmt

variable {lo hi : Pos}

theorem ordered_expr {e : Expr} (h : e.Ordered lo hi) : (Stmt.expr e).Ordered lo hi :=
  .of_parts rfl (List.forall_mem_singleton.2 h)

/-- The expression that a statement is. -/
theorem ordered_ofExpr {e : Expr} (h : (Stmt.expr e).Ordered lo hi) : e.Ordered lo hi :=
  h.parts _ (List.mem_singleton.2 rfl)

theorem ordered_block {body : Block Stmt} (h : body.Ordered lo hi) :
    (Stmt.block body).Ordered lo hi :=
  .intro (List.forall_mem_singleton.2 h.toInOrder) (Node.ordered_block h)

theorem ordered_ifElse {init otherwise : Option Stmt} {test : Expr} {body : Block Stmt} (pos : Pos)
    (hinit : ∀ s ∈ init, s.Ordered lo hi) (htest : test.Ordered lo hi) (hbody : body.Ordered lo hi)
    (hotherwise : ∀ s ∈ otherwise, s.Ordered lo hi) :
    (Stmt.ifElse pos init test body otherwise).Ordered lo hi := by
  refine .intro (List.forall_mem_singleton.2 hbody.toInOrder) (List.forall_mem_cons.2 ⟨htest,
    List.forall_mem_append.2 ⟨List.forall_mem_append.2 ⟨?_, Node.ordered_block hbody⟩, ?_⟩⟩)
  · exact List.forall_mem_map.2 fun s hs => hinit s (Option.mem_toList.1 hs)
  · exact List.forall_mem_map.2 fun s hs => hotherwise s (Option.mem_toList.1 hs)

/-- The blocks of a loop are in order, as they are and at every depth. -/
theorem ordered_bodies {body : Block Stmt} {otherwise : Option (Block Stmt)}
    (hbody : body.Ordered lo hi) (hotherwise : ∀ b ∈ otherwise, b.Ordered lo hi) :
    (∀ b ∈ body :: otherwise.toList, InOrder lo hi b.stmts) ∧
      ∀ m ∈ otherwise.toList.flatMap Node.ofBlock, m.Ordered lo hi := by
  constructor
  · exact List.forall_mem_cons.2 ⟨hbody.toInOrder, fun b hb =>
      (hotherwise b (Option.mem_toList.1 hb)).toInOrder⟩
  · exact List.forall_mem_flatMap.2 fun b hb =>
      Node.ordered_block (hotherwise b (Option.mem_toList.1 hb))

theorem ordered_forLoop {init post : Option Stmt} {test : Option Expr} {body : Block Stmt}
    {otherwise : Option (Block Stmt)} (pos : Pos) (hinit : ∀ s ∈ init, s.Ordered lo hi)
    (htest : ∀ e ∈ test, e.Ordered lo hi) (hpost : ∀ s ∈ post, s.Ordered lo hi)
    (hbody : body.Ordered lo hi) (hotherwise : ∀ b ∈ otherwise, b.Ordered lo hi) :
    (Stmt.forLoop pos init test post body otherwise).Ordered lo hi := by
  obtain ⟨hblocks, helse⟩ := ordered_bodies hbody hotherwise
  refine .intro hblocks (List.forall_mem_append.2 ⟨List.forall_mem_append.2
    ⟨List.forall_mem_append.2 ⟨?_, ?_⟩, Node.ordered_block hbody⟩, helse⟩)
  · exact List.forall_mem_map.2 fun e he => htest e (Option.mem_toList.1 he)
  · refine List.forall_mem_map.2 (List.forall_mem_append.2 ⟨fun s hs => ?_, fun s hs => ?_⟩)
    · exact hinit s (Option.mem_toList.1 hs)
    · exact hpost s (Option.mem_toList.1 hs)

theorem ordered_forIn {key : Ident} {value : Option Ident} {iterable : Expr} {body : Block Stmt}
    {otherwise : Option (Block Stmt)} (pos : Pos) (hiterable : iterable.Ordered lo hi)
    (hbody : body.Ordered lo hi) (hotherwise : ∀ b ∈ otherwise, b.Ordered lo hi) :
    (Stmt.forIn pos key value iterable body otherwise).Ordered lo hi := by
  obtain ⟨hblocks, helse⟩ := ordered_bodies hbody hotherwise
  exact .intro hblocks (List.forall_mem_cons.2 ⟨hiterable, List.forall_mem_append.2
    ⟨Node.ordered_block hbody, helse⟩⟩)

theorem ordered_tryCatch {body : Block Stmt} {handler : Option (CatchClause Stmt)}
    {finalizer : Option (FinallyClause Stmt)} (pos : Pos) (hbody : body.Ordered lo hi)
    (hhandler : ∀ c ∈ handler, c.body.Ordered lo hi)
    (hfinalizer : ∀ c ∈ finalizer, c.body.Ordered lo hi) :
    (Stmt.tryCatch pos body handler finalizer).Ordered lo hi := by
  refine .intro (List.forall_mem_cons.2 ⟨hbody.toInOrder, List.forall_mem_append.2 ⟨?_, ?_⟩⟩)
    (List.forall_mem_append.2 ⟨List.forall_mem_append.2 ⟨Node.ordered_block hbody, ?_⟩, ?_⟩)
  · exact List.forall_mem_map.2 fun c hc => (hhandler c (Option.mem_toList.1 hc)).toInOrder
  · exact List.forall_mem_map.2 fun c hc => (hfinalizer c (Option.mem_toList.1 hc)).toInOrder
  · exact List.forall_mem_flatMap.2 fun c hc =>
      Node.ordered_block (hhandler c (Option.mem_toList.1 hc))
  · exact List.forall_mem_flatMap.2 fun c hc =>
      Node.ordered_block (hfinalizer c (Option.mem_toList.1 hc))

end Stmt

namespace Grammar

open Parse

variable {source : List Glyph} {deep : Nested} {t : Token} {pos : Pos}

/-! ### Simple statements -/

theorem checkTargets_yields (op : Token.Kind) (list : List Expr) :
    Yields source t (checkTargets op list) fun _ _ => True := by
  induction list with
  | nil => exact .pure trivial
  | cons e rest ih =>
    unfold checkTargets
    dsimp only
    split
    · exact .errorAt_bind _ _ ih
    · exact ih

theorem assignment_yields (hdeep : deep.Yields source) {targets : List Expr}
    (htargets : ListBeginsAt source pos targets) :
    Yields source t (assignment deep targets) fun s _ => s.BeginsAt source pos := by
  unfold assignment
  refine .token_bind (.next_bind fun u _ => (checkTargets_yields _ _).bind fun _ v _ _ =>
    (exprs_yields hdeep).bind fun values w _ hvalues => ?_)
  have hread : (Stmt.assign targets t.kind t.pos values).BeginsAt source pos := by
    refine ⟨?_, .of_parts rfl (Node.ordered_exprs
      (List.forall_mem_append.2 ⟨htargets.ordered, hvalues.2.ordered⟩))⟩
    obtain ⟨first, rest, rfl, hpos⟩ := htargets.first
    exact hpos
  dsimp only
  split
  · exact .errorAt_bind _ _ (.pure hread)
  · exact .pure hread

theorem increment_yields {target : Expr} (htarget : target.BeginsAt source pos) :
    Yields source t (increment target) fun s _ => s.BeginsAt source pos := by
  unfold increment
  have hread (op : Token.Kind) (opPos : Pos) :
      (Stmt.incDec target op opPos).BeginsAt source pos :=
    ⟨htarget.pos_eq, .of_parts rfl (List.forall_mem_singleton.2 htarget.ordered)⟩
  refine .token_bind ?_
  dsimp only
  split
  · exact .errorAt_bind _ _ (.next_bind fun u _ => .pure (hread _ _))
  · exact .next_bind fun u _ => .pure (hread _ _)

theorem simpleStmtFrom_yields (hdeep : deep.Yields source) {list : List Expr}
    (hlist : ListBeginsAt source pos list) :
    Yields source t (simpleStmtFrom deep list) fun s _ => s.BeginsAt source pos := by
  unfold simpleStmtFrom
  refine .kind_bind ?_
  split
  · exact assignment_yields hdeep hlist
  · split
    · next e =>
      have he : e.Ordered 0 (Glyph.widths source) := hlist.ordered e List.mem_cons_self
      obtain ⟨first, rest, hcons, hpos⟩ := hlist.first
      obtain ⟨rfl, -⟩ := List.cons.inj hcons
      split
      · exact increment_yields ⟨hpos, he⟩
      · exact .pure ⟨hpos, Stmt.ordered_expr he⟩
    · exact .failExpected _
    · exact .failExpected _

theorem simpleStmt_yields (hdeep : deep.Yields source) :
    Yields source t (simpleStmt deep) (Stmt.ReadFrom source t) := by
  unfold simpleStmt
  exact (exprs_yields hdeep).bind fun list u _ ⟨hu, hlist⟩ =>
    .readFrom hu (simpleStmtFrom_yields hdeep hlist)

/-! ### Blocks and branches -/

theorem openBlock_yields (hdeep : deep.Yields source) :
    Yields source t (openBlock deep) fun body _ => body.1.Ordered 0 (Glyph.widths source) := by
  unfold openBlock
  refine .expect_bind fun u _ _ => (hdeep.stmts u).bind fun stmts v _ hstmts => .kind_bind ?_
  split
  · exact .pos_bind (.pure hstmts)
  · exact .seq closeBlock_built fun rbrace w _ => .pure hstmts

theorem sharedBlock_yields (hdeep : deep.Yields source) :
    Yields source t (sharedBlock deep) fun body _ => body.Ordered 0 (Glyph.widths source) := by
  unfold sharedBlock
  exact .pos_bind ((hdeep.stmts t).bind fun stmts u _ hstmts =>
    .seq closeBlock_built fun rbrace v _ => .pure hstmts)

/-- What stands between `if` and its block has its statements in order. -/
def HeadOrdered (source : List Glyph) (head : Option Stmt × Expr) : Prop :=
  (∀ s ∈ head.1, s.Ordered 0 (Glyph.widths source)) ∧ head.2.Ordered 0 (Glyph.widths source)

theorem ifHead_yields (hdeep : deep.Yields source) :
    Yields source t (ifHead deep) fun head _ => HeadOrdered source head := by
  unfold ifHead
  refine .kind_bind ?_
  split
  · exact .failExpected _
  · exact .next_bind fun u _ => (expr_yields hdeep).bind fun test v _ htest =>
      .pure ⟨by simp, htest.ordered⟩
  · refine (simpleStmt_yields hdeep).bind fun first u _ hfirst =>
      .accept_bind (fun v _ => ?_) fun _ => ?_
    · exact (expr_yields hdeep).bind fun test w _ htest =>
        .pure ⟨by simpa using hfirst.ordered, htest.ordered⟩
    · rw [if_neg Bool.false_ne_true]
      split
      · exact .pure ⟨by simp, Stmt.ordered_ofExpr hfirst.ordered⟩
      · exact .failAt _ _

theorem ifElse_yields (hdeep : deep.Yields source) (isShared : Bool) :
    Yields source t (ifElse deep isShared) fun s _ => s.Ordered 0 (Glyph.widths source) := by
  unfold ifElse
  refine .kind_bind ?_
  split
  · exact hdeep.ifStmt t
  · exact (block_yields hdeep).bind fun body u _ hbody => .expectSemicolon_bind fun v _ =>
      .pure (Stmt.ordered_block hbody.2.2)
  · split
    · exact (sharedBlock_yields hdeep).bind fun body u _ hbody => .expectSemicolon_bind fun v _ =>
        .pure (Stmt.ordered_block hbody)
    · exact .failExpected _

theorem ifStmt_yields (hdeep : deep.Yields source) :
    Yields source t (ifStmt deep) (Stmt.ReadFrom source t) := by
  unfold ifStmt
  refine .expect_bind fun u _ hu => .readFrom hu ((ifHead_yields hdeep).bind
    fun (init, test) v _ ⟨hinit, htest⟩ => (openBlock_yields hdeep).bind
      fun (body, isShared) w _ hbody => .accept_bind (fun x _ => ?_) fun _ => ?_)
  · exact (ifElse_yields hdeep _).bind fun otherwise y _ hotherwise =>
      .pure ⟨rfl, Stmt.ordered_ifElse _ hinit htest hbody (by simpa using hotherwise)⟩
  · exact .expectSemicolon_bind fun y _ =>
      .pure ⟨rfl, Stmt.ordered_ifElse _ hinit htest hbody (by simp)⟩

/-! ### Loops -/

theorem loopElse_yields (hdeep : deep.Yields source) (isShared : Bool) :
    Yields source t (loopElse deep isShared) fun otherwise _ =>
      ∀ b ∈ otherwise, b.Ordered 0 (Glyph.widths source) := by
  unfold loopElse
  refine .accept_bind (fun u _ => .kind_bind ?_) fun _ => .pure (by simp)
  split
  · exact (block_yields hdeep).bind fun body v _ hbody => .pure (by simpa using hbody.2.2)
  · split
    · exact (sharedBlock_yields hdeep).bind fun body v _ hbody => .pure (by simpa using hbody)
    · exact .failExpected _

/-- The blocks of a loop have their statements in order. -/
def BodiesOrdered (source : List Glyph) (bodies : Block Stmt × Option (Block Stmt)) : Prop :=
  bodies.1.Ordered 0 (Glyph.widths source) ∧
    ∀ b ∈ bodies.2, b.Ordered 0 (Glyph.widths source)

theorem loopBody_yields (hdeep : deep.Yields source) :
    Yields source t (loopBody deep) fun bodies _ => BodiesOrdered source bodies := by
  unfold loopBody
  exact (openBlock_yields hdeep).bind fun (body, isShared) u _ hbody =>
    (loopElse_yields hdeep _).bind fun otherwise v _ hotherwise =>
      .expectSemicolon_bind fun w _ => .pure ⟨hbody, hotherwise⟩

theorem loopNames_yields (list : List Expr) :
    Yields source t (loopNames list) fun _ _ => True := by
  induction list generalizing t with
  | nil => exact .pure trivial
  | cons e rest ih =>
    unfold loopNames
    split
    · exact ih.bind fun _ _ _ _ => .pure trivial
    · exact .failAt _ _

/-- What follows the names of a loop over the elements of a collection. -/
theorem iterable_yields (hdeep : deep.Yields source) (forPos : Pos) (names : Ident × Option Ident) :
    Yields source t
      (do
        next
        let iterable ← expr deep
        let (body, otherwise) ← loopBody deep
        return .forIn forPos names.1 names.2 iterable body otherwise)
      fun (s : Stmt) _ => s.BeginsAt source forPos :=
  .next_bind fun _ _ => (expr_yields hdeep).bind fun _ _ _ hiterable =>
    (loopBody_yields hdeep).bind fun _ _ _ ⟨hbody, hotherwise⟩ =>
      .pure ⟨rfl, Stmt.ordered_forIn _ hiterable.ordered hbody hotherwise⟩

theorem forIn_yields (hdeep : deep.Yields source) (forPos : Pos) (list : List Expr) :
    Yields source t (forIn deep forPos list) fun s _ => s.BeginsAt source forPos := by
  unfold forIn
  refine .pos_bind ((loopNames_yields list).bind fun names u _ _ => ?_)
  dsimp only
  split
  · exact iterable_yields hdeep forPos (_, none)
  · exact iterable_yields hdeep forPos (_, some _)
  · rw [failExpected_bind]
    exact .failExpected _
  · rw [failAt_bind]
    exact .failAt _ _

theorem forParts_yields (hdeep : deep.Yields source) {init : Option Stmt}
    (hinit : ∀ s ∈ init, s.Ordered 0 (Glyph.widths source)) :
    Yields source t (forParts deep pos init) fun s _ => s.BeginsAt source pos := by
  unfold forParts
  refine .next_bind fun u _ => .kind_bind (.ite_bind
    (fun test _ => ∀ e ∈ test, e.Ordered 0 (Glyph.widths source)) (fun _ => .pure (by simp))
    (fun _ => (expr_yields hdeep).map fun _ e _ he => by simpa using he.ordered)
    fun test v _ htest => .expect_bind fun w _ _ => .kind_bind (.ite_bind
      (fun post _ => ∀ s ∈ post, s.Ordered 0 (Glyph.widths source)) (fun _ => .pure (by simp))
      (fun _ => (simpleStmt_yields hdeep).map fun _ s _ hs => by simpa using hs.ordered)
      fun post x _ hpost => ?_))
  exact (loopBody_yields hdeep).bind fun (body, otherwise) y _ ⟨hbody, hotherwise⟩ =>
    .pure ⟨rfl, Stmt.ordered_forLoop _ hinit htest hpost hbody hotherwise⟩

theorem forTest_yields (hdeep : deep.Yields source) {test : Option Expr}
    (htest : ∀ e ∈ test, e.Ordered 0 (Glyph.widths source)) :
    Yields source t (forTest deep pos test) fun s _ => s.BeginsAt source pos := by
  unfold forTest
  exact (loopBody_yields hdeep).bind fun (body, otherwise) y _ ⟨hbody, hotherwise⟩ =>
    .pure ⟨rfl, Stmt.ordered_forLoop _ (by simp) htest (by simp) hbody hotherwise⟩

theorem forStmt_yields (hdeep : deep.Yields source) :
    Yields source t (forStmt deep) (Stmt.ReadFrom source t) := by
  unfold forStmt
  refine .expect_bind fun u _ hu => .readFrom hu (.kind_bind ?_)
  split
  · exact forTest_yields hdeep (by simp)
  · exact forParts_yields hdeep (by simp)
  · refine (exprs_yields hdeep).bind fun list v _ ⟨_, hlist⟩ => .kind_bind ?_
    split
    · exact forIn_yields hdeep _ list
    · refine (simpleStmtFrom_yields hdeep hlist).bind fun init w _ hinit => .kind_bind ?_
      split
      · exact forParts_yields hdeep (by simpa using hinit.ordered)
      · split
        · exact forTest_yields hdeep (by simpa using Stmt.ordered_ofExpr hinit.ordered)
        · exact .failAt _ _

/-! ### Handlers -/

theorem catchClause_yields (hdeep : deep.Yields source) :
    Yields source t (catchClause deep) fun handler _ =>
      ∀ c ∈ handler, c.body.Ordered 0 (Glyph.widths source) := by
  unfold catchClause
  refine .pos_bind (.accept_bind (fun u _ => .kind_bind ?_) fun _ => .pure (by simp))
  refine .ite_bind (fun _ _ => True)
    (fun _ => (Yields.of_built expectIdent_built).map fun _ _ _ _ => trivial)
    (fun _ => .pure trivial) fun ident v _ _ => ?_
  exact (block_yields hdeep).bind fun body w _ hbody => .pure (by simpa using hbody.2.2)

theorem finallyClause_yields (hdeep : deep.Yields source) :
    Yields source t (finallyClause deep) fun finalizer _ =>
      ∀ c ∈ finalizer, c.body.Ordered 0 (Glyph.widths source) := by
  unfold finallyClause
  refine .pos_bind (.accept_bind (fun u _ => ?_) fun _ => .pure (by simp))
  exact (block_yields hdeep).bind fun body v _ hbody => .pure (by simpa using hbody.2.2)

theorem tryStmt_yields (hdeep : deep.Yields source) :
    Yields source t (tryStmt deep) (Stmt.ReadFrom source t) := by
  unfold tryStmt
  refine .expect_bind fun u _ hu => .readFrom hu ((block_yields hdeep).bind fun body v _ hbody =>
    (catchClause_yields hdeep).bind fun handler w _ hhandler =>
      (finallyClause_yields hdeep).bind fun finalizer x _ hfinalizer => ?_)
  have hread : (Stmt.tryCatch t.pos body handler finalizer).BeginsAt source t.pos :=
    ⟨rfl, Stmt.ordered_tryCatch _ hbody.2.2 hhandler hfinalizer⟩
  dsimp only
  split
  · exact .errorAt_bind _ _ (.expectSemicolon_bind fun y _ => .pure hread)
  · exact .expectSemicolon_bind fun y _ => .pure hread

/-! ### Declarations -/

/-- The values of declared names have their statements in order. -/
def SpecsOrdered (source : List Glyph) (specs : List (Spec Expr)) : Prop :=
  ∀ e ∈ specs.filterMap Spec.value?, e.Ordered 0 (Glyph.widths source)

theorem SpecsOrdered.concat {specs : List (Spec Expr)} (h : SpecsOrdered source specs)
    {spec : Spec Expr} (hspec : SpecsOrdered source [spec]) :
    SpecsOrdered source (specs ++ [spec]) := by
  unfold SpecsOrdered
  rw [List.filterMap_append]
  exact List.forall_mem_append.2 ⟨h, hspec⟩

theorem specsOfParams_ordered {params : Params Expr}
    (h : params.Ordered 0 (Glyph.widths source)) : SpecsOrdered source (specsOfParams params) := by
  intro e he
  obtain ⟨spec, hspec, hvalue⟩ := List.mem_filterMap.1 he
  simp only [specsOfParams, List.mem_append, List.mem_map, Option.mem_toList,
    Option.map_eq_some_iff] at hspec
  rcases hspec with ((⟨ident, -, rfl⟩ | ⟨ident, -, rfl⟩) | ⟨⟨ident, value⟩, hnamed, rfl⟩) |
    ⟨ident, -, rfl⟩
  · cases hvalue
  · cases hvalue
  · rw [← Option.some.inj hvalue]
    exact h value (List.mem_map.2 ⟨_, hnamed, rfl⟩)
  · cases hvalue

theorem paramSpec_yields (hdeep : deep.Yields source) :
    Yields source t (paramSpec deep) fun spec _ => SpecsOrdered source [spec] := by
  unfold paramSpec
  refine .kind_bind ?_
  split
  · exact .next_bind fun u _ => .seq typedIdent_built fun ident v _ =>
      .pure (List.forall_mem_nil _)
  · exact .next_bind fun u _ => .seq typedIdent_built fun ident v _ =>
      .pure (List.forall_mem_nil _)
  · refine .seq typedIdent_built fun ident u _ => .accept_bind (fun v _ => ?_) fun _ =>
      .pure (List.forall_mem_nil _)
    exact (expr_yields hdeep).bind fun value w _ hvalue =>
      .pure (List.forall_mem_singleton.2 hvalue.ordered)

theorem valueSpec_yields (hdeep : deep.Yields source) (word : Token.Kind) :
    Yields source t (valueSpec deep word) fun spec _ => SpecsOrdered source [spec] := by
  unfold valueSpec
  refine .expectIdent_bind fun u _ => .kind_bind ?_
  split
  · exact .next_bind fun v _ => (expr_yields hdeep).bind fun value w _ hvalue =>
      .pure (List.forall_mem_singleton.2 hvalue.ordered)
  · split
    · exact .failExpected _
    · exact .pure (List.forall_mem_nil _)

theorem valueSpecs_yields (hdeep : deep.Yields source) (word : Token.Kind) :
    Yields source t (valueSpecs deep word) fun specs _ => SpecsOrdered source specs := by
  unfold valueSpecs
  refine .loop (fun specs _ => SpecsOrdered source specs) (List.forall_mem_nil _)
    fun specs u hspecs => .seq skipSemicolons_built fun _ v _ => .kind_bind ?_
  split
  · exact .pure hspecs
  · refine (valueSpec_yields hdeep word).bind fun spec w _ hspec => .kind_bind ?_
    split
    · exact .next_bind fun x _ => .pure (hspecs.concat hspec)
    · exact .next_bind fun x _ => .pure (hspecs.concat hspec)
    · exact .pure (hspecs.concat hspec)
    · exact .failExpected _

theorem groupedSpecs_yields (hdeep : deep.Yields source) (word : Token.Kind) (lparen : Pos) :
    Yields source t (groupedSpecs deep word lparen) fun specs _ =>
      SpecsOrdered source specs := by
  unfold groupedSpecs
  split
  · exact (paramList_yields hdeep lparen).bind fun params u _ hparams =>
      .pure (specsOfParams_ordered hparams)
  · exact valueSpecs_yields hdeep word

theorem decl_yields (hdeep : deep.Yields source) :
    Yields source t (decl deep) (Stmt.ReadFrom source t) := by
  have hread {word : Token.Kind} {specs : List (Spec Expr)} (hspecs : SpecsOrdered source specs)
      (lparen rparen : Option Pos) :
      (Stmt.decl word t.pos lparen specs rparen).BeginsAt source t.pos :=
    ⟨rfl, .of_parts rfl (Node.ordered_exprs hspecs)⟩
  unfold decl
  refine .token_bind (.next_bind fun u hu => .readFrom hu (.pos_bind
    (.accept_bind (fun v _ => ?_) fun _ => ?_)))
  · exact (groupedSpecs_yields hdeep _ _).bind fun specs w _ hspecs => .expect_bind fun x _ _ =>
      .expectSemicolon_bind fun y _ => .pure (hread hspecs _ _)
  · exact .ite_bind (fun spec _ => SpecsOrdered source [spec]) (fun _ => paramSpec_yields hdeep)
      (fun _ => valueSpec_yields hdeep _) fun spec w _ hspec => .expectSemicolon_bind fun x _ =>
        .pure (hread hspec _ _)

end Grammar

end TemplateScript
