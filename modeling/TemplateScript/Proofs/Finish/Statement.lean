import TemplateScript.Proofs.Finish.Expression

/-!
# Statements that end

Every statement of code takes its first token before it reads what is in it. Of simple statements it
is told where they begin, since they may stand where a condition should, which is a diagnostic at
that place.
-/

namespace TemplateScript

open Parse

namespace Grammar

variable {m : Terms} {moved : Bool} {seen : Token → Prop} {deep : Nested}

/-! ### Simple statements -/

theorem checkTargets_finishes (op : Token.Kind) {list : List Expr}
    (hlist : m.sure → ∀ e ∈ list, e.pos ≤ m.size) :
    Finishes m moved seen (checkTargets op list) (fun _ => True) fun _ => moved := by
  induction list with
  | nil => exact .pure (fun _ => trivial) id
  | cons e rest ih =>
    have hrest := ih fun hsure e he => hlist hsure e (List.mem_cons_of_mem _ he)
    unfold checkTargets
    dsimp only
    split
    · exact .errorAt_bind (fun hsure => hlist hsure e List.mem_cons_self) hrest
    · exact hrest

theorem assignment_finishes (hdeep : deep.Finishes m.source m.sure m.depth) {t : Token}
    (ht : t.kind ≠ .eof) {targets : List Expr}
    (htargets : m.sure → ∀ e ∈ targets, e.pos ≤ m.size) :
    Finishes m moved (· = t) (assignment deep targets) (·.pos ≤ m.size) fun _ => true := by
  unfold assignment
  refine .token_bind fun u hu hpos => (next_seen (hu ▸ ht)).bind fun _ _ =>
    (checkTargets_finishes _ htargets).bind fun _ _ =>
      (exprs_finishes hdeep).bind fun values _ => ?_
  have hbegin (hsure : m.sure) :
      (Stmt.assign targets u.kind u.pos values).pos ≤ m.size := by
    cases targets with
    | nil => exact hpos hsure
    | cons e rest => exact htargets hsure e List.mem_cons_self
  dsimp only
  split
  · exact .errorAt_bind hpos (.pure hbegin id)
  · exact .pure hbegin id

theorem increment_finishes {t : Token} (ht : t.kind ≠ .eof) {target : Expr}
    (htarget : m.sure → target.pos ≤ m.size) :
    Finishes m moved (· = t) (increment target) (·.pos ≤ m.size) fun _ => true := by
  unfold increment
  refine .token_bind fun u hu _ => ?_
  dsimp only
  split
  · exact .errorAt_bind htarget ((next_seen (hu ▸ ht)).bind fun _ _ => .pure htarget id)
  · exact (next_seen (hu ▸ ht)).bind fun _ _ => .pure htarget id

theorem simpleStmtFrom_finishes (hdeep : deep.Finishes m.source m.sure m.depth) {list : List Expr}
    (hlist : m.sure → ∀ e ∈ list, e.pos ≤ m.size) :
    Finishes m moved seen (simpleStmtFrom deep list) (·.pos ≤ m.size) fun _ => moved := by
  unfold simpleStmtFrom
  refine .kind_bind fun t _ => ?_
  split
  · next hassign =>
    have ht : t.kind ≠ .eof := by
      intro h
      rw [h] at hassign
      cases hassign
    exact (assignment_finishes hdeep ht hlist).less fun _ _ => rfl
  · split
    · next e =>
      have he (hsure : m.sure) : e.pos ≤ m.size := hlist hsure e List.mem_cons_self
      split
      · next hkind =>
        have ht : t.kind ≠ .eof := by
          intro h
          rw [h] at hkind
          cases hkind
        exact (increment_finishes ht he).less fun _ _ => rfl
      · exact .pure he id
    · exact .failExpected
    · exact .failExpected

theorem simpleStmt_finishes (hdeep : deep.Finishes m.source m.sure m.depth) :
    Finishes m moved seen (simpleStmt deep) (·.pos ≤ m.size) fun _ => true := by
  unfold simpleStmt
  exact (exprs_finishes hdeep).bind fun list hlist => simpleStmtFrom_finishes hdeep hlist

/-! ### Blocks and branches -/

theorem openBlock_finishes (hdeep : deep.Finishes m.source m.sure m.depth) :
    Finishes m moved seen (openBlock deep) (fun _ => True) fun _ => true := by
  unfold openBlock
  refine (expect_finishes (by decide)).bind fun lbrace _ => (hdeep.stmts rfl).bind fun stmts _ =>
    .kind_bind fun _ _ => ?_
  split
  · exact .pos_bind fun pos _ => .pure (fun _ => trivial) id
  · exact closeBlock_finishes.bind fun rbrace _ => .pure (fun _ => trivial) id

theorem sharedBlock_finishes (hdeep : deep.Finishes m.source m.sure m.depth)
    (hnear : (moved || m.near) = true) :
    Finishes m moved seen (sharedBlock deep) (fun _ => True) fun _ => moved := by
  unfold sharedBlock
  exact .pos_bind fun lbrace _ => (hdeep.stmts hnear).bind fun stmts _ =>
    closeBlock_finishes.bind fun rbrace _ => .pure (fun _ => trivial) id

theorem failCondition_finishes {α : Type} {promise : α → Prop} {goes : α → Bool} (wanted : String)
    {s : Stmt} (hs : m.sure → s.pos ≤ m.size) :
    Finishes m moved seen (failCondition wanted s : Parse α) promise goes := .failAt hs

theorem ifHead_finishes (hdeep : deep.Finishes m.source m.sure m.depth) :
    Finishes m moved seen (ifHead deep) (fun _ => True) fun _ => true := by
  unfold ifHead
  refine .kind_bind fun t _ => ?_
  split
  · exact .failExpected
  · next hkind =>
    exact (next_at hkind (by decide)).bind fun _ _ => (expr_finishes hdeep).bind fun test _ =>
      .pure (fun _ => trivial) id
  · refine (simpleStmt_finishes hdeep).bind fun first hfirst => .accept (by decide) ?_ ?_
    · exact (expr_finishes hdeep).bind fun test _ => .pure (fun _ => trivial) id
    · split
      · exact .pure (fun _ => trivial) id
      · exact failCondition_finishes _ hfirst

theorem ifElse_finishes (hdeep : deep.Finishes m.source m.sure m.depth)
    (hnear : (moved || m.near) = true) (isShared : Bool) :
    Finishes m moved seen (ifElse deep isShared) (fun _ => True) fun _ => moved := by
  unfold ifElse
  refine .kind_bind fun _ _ => ?_
  split
  · exact (hdeep.ifStmt hnear).less fun _ _ => rfl
  · exact (block_finishes hdeep).bind fun body _ => expectSemicolon_finishes.bind fun _ _ =>
      .pure (fun _ => trivial) fun _ => rfl
  · split
    · exact (sharedBlock_finishes hdeep hnear).bind fun body _ =>
        expectSemicolon_finishes.bind fun _ _ => .pure (fun _ => trivial) id
    · exact .failExpected

theorem ifStmt_finishes (hdeep : deep.Finishes m.source m.sure m.depth) :
    Finishes m moved seen (ifStmt deep) (fun _ => True) fun _ => true := by
  unfold ifStmt
  refine (expect_finishes (by decide)).bind fun pos _ => (ifHead_finishes hdeep).bind
    fun (init, test) _ => (openBlock_finishes hdeep).bind fun (body, isShared) _ =>
      .accept (by decide) ?_ ?_
  · exact (ifElse_finishes hdeep rfl isShared).bind fun otherwise _ => .pure (fun _ => trivial) id
  · exact expectSemicolon_finishes.bind fun _ _ => .pure (fun _ => trivial) id

/-! ### Loops -/

theorem loopElse_finishes (hdeep : deep.Finishes m.source m.sure m.depth) (isShared : Bool) :
    Finishes m moved seen (loopElse deep isShared) (fun _ => True) fun _ => moved := by
  unfold loopElse
  refine .accept (by decide) (.kind_bind fun _ _ => ?_) (.pure (fun _ => trivial) id)
  split
  · exact (block_finishes hdeep).bind fun body _ => .pure (fun _ => trivial) fun _ => rfl
  · split
    · exact (sharedBlock_finishes hdeep rfl).bind fun body _ =>
        .pure (fun _ => trivial) fun _ => rfl
    · exact .failExpected

theorem loopBody_finishes (hdeep : deep.Finishes m.source m.sure m.depth) :
    Finishes m moved seen (loopBody deep) (fun _ => True) fun _ => true := by
  unfold loopBody
  exact (openBlock_finishes hdeep).bind fun (body, isShared) _ =>
    (loopElse_finishes hdeep isShared).bind fun otherwise _ =>
      expectSemicolon_finishes.bind fun _ _ => .pure (fun _ => trivial) id

/-- Expressions are names, or one of them fails where it begins. -/
theorem loopNames_pure_or_fail (list : List Expr) :
    (∃ names, loopNames list = pure names) ∨
      ∃ e ∈ list, ∃ cause, loopNames list = failAt e.pos cause := by
  induction list with
  | nil => exact .inl ⟨[], rfl⟩
  | cons e rest ih =>
    unfold loopNames
    split
    · next ident hident =>
      rcases ih with ⟨names, hnames⟩ | ⟨bad, hbad, cause, hfail⟩
      · exact .inl ⟨ident :: names, by rw [hnames, pure_bind]⟩
      · exact .inr ⟨bad, List.mem_cons_of_mem _ hbad, cause, by rw [hfail, failAt_bind]⟩
    · exact .inr ⟨e, List.mem_cons_self, _, rfl⟩

/-- What follows the names of a loop over the elements of a collection. -/
theorem iterable_finishes (hdeep : deep.Finishes m.source m.sure m.depth) {t : Token}
    (ht : t.kind ≠ .eof) (forPos : Pos) (names : Ident × Option Ident) :
    Finishes m moved (· = t)
      (do
        next
        let iterable ← expr deep
        let (body, otherwise) ← loopBody deep
        return Stmt.forIn forPos names.1 names.2 iterable body otherwise)
      (fun _ => True) fun _ => true :=
  (next_seen ht).bind fun _ _ => (expr_finishes hdeep).bind fun _ _ =>
    (loopBody_finishes hdeep).bind fun _ _ => .pure (fun _ => trivial) id

theorem forIn_finishes (hdeep : deep.Finishes m.source m.sure m.depth) {t : Token}
    (ht : t.kind ≠ .eof) (forPos : Pos) {list : List Expr}
    (hlist : m.sure → ∀ e ∈ list, e.pos ≤ m.size) :
    Finishes m moved (· = t) (forIn deep forPos list) (fun _ => True) fun _ => true := by
  unfold forIn
  refine .pos_bind fun inPos hpos => ?_
  rcases loopNames_pure_or_fail list with ⟨names, hnames⟩ | ⟨e, he, cause, hfail⟩
  · rw [hnames, pure_bind]
    dsimp only
    split
    · exact iterable_finishes hdeep ht forPos (_, none)
    · exact iterable_finishes hdeep ht forPos (_, some _)
    · rw [failExpected_bind]
      exact .failExpected
    · rw [failAt_bind]
      exact .failAt hpos
  · rw [hfail, failAt_bind]
    exact .failAt fun hsure => hlist hsure e he

theorem forParts_finishes (hdeep : deep.Finishes m.source m.sure m.depth) {t : Token}
    (ht : t.kind ≠ .eof) (pos : Pos) (init : Option Stmt) :
    Finishes m moved (· = t) (forParts deep pos init) (fun _ => True) fun _ => true := by
  unfold forParts
  refine (next_seen ht).bind fun _ _ => .kind_bind fun _ _ => ?_
  refine .ite_bind (fun _ => True) (fun _ => true) (fun _ => .pure (fun _ => trivial) id)
    (fun _ => (expr_finishes hdeep).map (fun _ _ _ => trivial) fun _ => id) fun test _ =>
      (expect_finishes (by decide)).bind fun _ _ => .kind_bind fun _ _ => ?_
  exact .ite_bind (fun _ => True) (fun _ => true) (fun _ => .pure (fun _ => trivial) id)
    (fun _ => (simpleStmt_finishes hdeep).map (fun _ _ _ => trivial) fun _ => id) fun post _ =>
      (loopBody_finishes hdeep).bind fun (body, otherwise) _ => .pure (fun _ => trivial) id

theorem forTest_finishes (hdeep : deep.Finishes m.source m.sure m.depth) (pos : Pos)
    (test : Option Expr) :
    Finishes m moved seen (forTest deep pos test) (fun _ => True) fun _ => true := by
  unfold forTest
  exact (loopBody_finishes hdeep).bind fun (body, otherwise) _ => .pure (fun _ => trivial) id

theorem forStmt_finishes (hdeep : deep.Finishes m.source m.sure m.depth) :
    Finishes m moved seen (forStmt deep) (fun _ => True) fun _ => true := by
  unfold forStmt
  refine (expect_finishes (by decide)).bind fun pos _ => .kind_bind fun t _ => ?_
  split
  · exact forTest_finishes hdeep pos none
  · next hkind => exact forParts_finishes hdeep (ne_of_eq_of_ne hkind (by decide)) pos none
  · refine (exprs_finishes hdeep).bind fun list hlist => .kind_bind fun t _ => ?_
    split
    · next hkind => exact forIn_finishes hdeep (ne_of_eq_of_ne hkind (by decide)) pos hlist
    · refine (simpleStmtFrom_finishes hdeep hlist).bind fun init hinit => .kind_bind fun t _ => ?_
      split
      · next hkind =>
        exact forParts_finishes hdeep (ne_of_eq_of_ne hkind (by decide)) pos (some init)
      · split
        · exact forTest_finishes hdeep pos _
        · exact failCondition_finishes _ hinit

/-! ### Handlers -/

theorem catchClause_finishes (hdeep : deep.Finishes m.source m.sure m.depth) :
    Finishes m moved seen (catchClause deep) (fun _ => True) fun _ => moved := by
  unfold catchClause
  refine .pos_bind fun pos _ => .accept (by decide) (.kind_bind fun _ _ => ?_)
    (.pure (fun _ => trivial) id)
  exact .ite_bind (fun _ => True) (fun _ => true)
    (fun _ => expectIdent_finishes.map (fun _ _ _ => trivial) fun _ => id)
    (fun _ => .pure (fun _ => trivial) id) fun ident _ => (block_finishes hdeep).bind fun body _ =>
      .pure (fun _ => trivial) fun _ => rfl

theorem finallyClause_finishes (hdeep : deep.Finishes m.source m.sure m.depth) :
    Finishes m moved seen (finallyClause deep) (fun _ => True) fun _ => moved := by
  unfold finallyClause
  refine .pos_bind fun pos _ => .accept (by decide) ?_ (.pure (fun _ => trivial) id)
  exact (block_finishes hdeep).bind fun body _ => .pure (fun _ => trivial) fun _ => rfl

theorem tryStmt_finishes (hdeep : deep.Finishes m.source m.sure m.depth) :
    Finishes m moved seen (tryStmt deep) (fun _ => True) fun _ => true := by
  unfold tryStmt
  refine (expect_finishes (by decide)).bind fun pos hpos =>
    (block_finishes hdeep).bind fun body _ => (catchClause_finishes hdeep).bind fun handler _ =>
      (finallyClause_finishes hdeep).bind fun finalizer _ => ?_
  dsimp only
  split
  · exact .errorAt_bind hpos (expectSemicolon_finishes.bind fun _ _ => .pure (fun _ => trivial) id)
  · exact expectSemicolon_finishes.bind fun _ _ => .pure (fun _ => trivial) id

/-! ### Declarations -/

theorem paramSpec_finishes (hdeep : deep.Finishes m.source m.sure m.depth) :
    Finishes m moved seen (paramSpec deep) (fun _ => True) fun _ => true := by
  unfold paramSpec
  refine .kind_bind fun t _ => ?_
  split
  · next hkind =>
    exact (next_at hkind (by decide)).bind fun _ _ => typedIdent_finishes.bind fun _ _ =>
      .pure (fun _ => trivial) id
  · next hkind =>
    exact (next_at hkind (by decide)).bind fun _ _ => typedIdent_finishes.bind fun _ _ =>
      .pure (fun _ => trivial) id
  · refine typedIdent_finishes.bind fun ident _ => .accept (by decide) ?_
      (.pure (fun _ => trivial) id)
    exact (expr_finishes hdeep).bind fun value _ => .pure (fun _ => trivial) id

theorem valueSpec_finishes (hdeep : deep.Finishes m.source m.sure m.depth) (word : Token.Kind) :
    Finishes m moved seen (valueSpec deep word) (fun _ => True) fun _ => true := by
  unfold valueSpec
  refine expectIdent_finishes.bind fun ident _ => .kind_bind fun t _ => ?_
  split
  · next hvalued =>
    have hkind : t.kind = .assign := of_decide_eq_true (Bool.and_eq_true_iff.1 hvalued).2
    exact (next_at hkind (by decide)).bind fun _ _ => (expr_finishes hdeep).bind fun value _ =>
      .pure (fun _ => trivial) id
  · split
    · exact .failExpected
    · exact .pure (fun _ => trivial) id

theorem valueSpecs_finishes (hdeep : deep.Finishes m.source m.sure m.depth) (word : Token.Kind) :
    Finishes m moved seen (valueSpecs deep word) (fun _ => True) fun _ => moved := by
  unfold valueSpecs
  refine .loop (fun _ => True) (fun _ => trivial) fun specs _ => skipSemicolons_finishes.bind
    fun _ _ => .kind_bind fun _ _ => ?_
  split
  · exact .still rfl (fun _ => trivial)
  · refine (valueSpec_finishes (m := m.begun moved) hdeep word).bind fun spec _ =>
      .kind_bind fun t _ => ?_
    split
    · next hkind =>
      exact (next_at hkind (by decide)).bind fun _ _ => .pure (fun _ => trivial) fun _ => rfl
    · next hkind =>
      exact (next_at hkind (by decide)).bind fun _ _ => .pure (fun _ => trivial) fun _ => rfl
    · exact .still rfl (fun _ => trivial)
    · exact .failExpected

theorem groupedSpecs_finishes (hdeep : deep.Finishes m.source m.sure m.depth) (word : Token.Kind)
    (lparen : Pos) :
    Finishes m moved seen (groupedSpecs deep word lparen) (fun _ => True) fun _ => moved := by
  unfold groupedSpecs
  split
  · exact (paramList_finishes hdeep lparen).bind fun params _ => .pure (fun _ => trivial) id
  · exact valueSpecs_finishes hdeep word

theorem decl_finishes (hdeep : deep.Finishes m.source m.sure m.depth) {t : Token}
    (ht : t.kind ≠ .eof) :
    Finishes m moved (· = t) (decl deep) (fun _ => True) fun _ => true := by
  unfold decl
  refine .token_bind fun word hword _ => (next_seen (hword ▸ ht)).bind fun _ _ =>
    .pos_bind fun lparen _ => .accept (by decide) ?_ ?_
  · exact (groupedSpecs_finishes hdeep word.kind lparen).bind fun specs _ =>
      (expect_finishes (by decide)).bind fun rparen _ => expectSemicolon_finishes.bind fun _ _ =>
        .pure (fun _ => trivial) id
  · exact .ite_bind (fun _ => True) (fun _ => true) (fun _ => paramSpec_finishes hdeep)
      (fun _ => valueSpec_finishes hdeep word.kind) fun spec _ =>
        expectSemicolon_finishes.bind fun _ _ => .pure (fun _ => trivial) id

end Grammar

end TemplateScript
