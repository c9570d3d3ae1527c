import TemplateScript.Proofs.WellFormed.Expression

/-!
# Well-formed statements

The phrases for statements of code promise well-formed statements. The checks on assignments record
what is wrong and read on, so what they promise is that the assignment was in order.
-/

namespace TemplateScript

namespace Stmt

variable {line : Pos → Nat}

theorem wellFormed_expr {e : Expr} (h : e.WellFormed line) : (Stmt.expr e).WellFormed line :=
  .intro trivial (List.forall_mem_singleton.2 h)

/-- The expression that a statement is. -/
theorem WellFormed.ofExpr {e : Expr} (h : (Stmt.expr e).WellFormed line) : e.WellFormed line :=
  h.parts _ (List.mem_singleton.2 rfl)

theorem wellFormed_block {body : Block Stmt} (h : body.WellFormed line) :
    (Stmt.block body).WellFormed line :=
  .intro trivial (Node.everywhere_block h)

/-- Statements without parts. -/
theorem WellFormed.leaf {s : Stmt} (legal : s.Legal) (hchildren : s.children = []) :
    s.WellFormed line := .intro legal (by simp [Node.children, hchildren])

end Stmt

namespace Grammar

open Parse

variable {source : List Glyph} {given : Prop} {deep : Nested}

/-! ### Simple statements -/

theorem checkTargets_accounts (op : Token.Kind) (list : List Expr) :
    Accounts source given (checkTargets op list) fun _ =>
      ∀ target ∈ list, isTarget op target = true := by
  induction list generalizing given with
  | nil => exact .pure fun _ => List.forall_mem_nil _
  | cons e rest ih =>
    unfold checkTargets
    dsimp only
    split
    · exact (errorAt_accounts _ _).bind fun _ => ih.promised fun h => h.1.elim
    · next htarget =>
      refine ih.promised fun _ _ hrest => List.forall_mem_cons.2 ⟨?_, hrest⟩
      simpa using htarget

/-- The checks on an assignment are its rule. -/
theorem assignLegal_of_checks {targets values : List Expr} {op : Token.Kind}
    (hassign : op.isAssign = true) (htargets : targets ≠ []) (hvalues : values ≠ [])
    (hchecked : ∀ target ∈ targets, isTarget op target = true)
    (hbalanced : isBalanced op targets values = true) : AssignLegal targets op values := by
  refine ⟨hassign, htargets, hvalues, ?_, ?_, ?_, ?_⟩
  · intro hop target htarget
    simpa [isTarget, hop] using hchecked target htarget
  · intro hop target htarget
    simpa [isTarget, hop] using hchecked target htarget
  · intro hplain hdefine
    simpa [isBalanced, hplain, hdefine] using hbalanced
  · unfold isBalanced at hbalanced
    split at hbalanced
    · rcases Bool.or_eq_true _ _ ▸ hbalanced with h | h
      · exact .inr (of_decide_eq_true h)
      · exact .inl (of_decide_eq_true h)
    · exact .inl (of_decide_eq_true (Bool.and_eq_true _ _ ▸ hbalanced).2)

theorem assignment_accounts (hdeep : deep.Accounts source) {targets : List Expr} {r : Reader}
    (hr : r.InSource source) (hassign : r.token.kind.isAssign = true) :
    Accounted source r
      (fun s => (targets ≠ [] ∧ ∀ e ∈ targets, e.WellFormed (Glyph.lineOf source)) →
        s.WellFormed (Glyph.lineOf source))
      (assignment deep targets r) := by
  unfold assignment
  rw [token_bind]
  suffices h : Accounts source
      (targets ≠ [] ∧ ∀ e ∈ targets, e.WellFormed (Glyph.lineOf source)) (do
        next
        checkTargets r.token.kind targets
        let values ← exprs deep
        if !isBalanced r.token.kind targets values then
          errorAt r.token.pos (.assignArity r.token.kind.spelling)
        return .assign targets r.token.kind r.token.pos values)
      (Stmt.WellFormed (Glyph.lineOf source)) from h r hr
  refine next_accounts.bind fun _ => (checkTargets_accounts _ _).bind fun _ =>
    (exprs_accounts hdeep).bind fun values => ?_
  dsimp only
  split
  · exact (errorAt_accounts _ _).bind fun _ => .pure fun h => h.1.elim
  · next hbalanced =>
    refine .pure ?_
    rintro ⟨⟨hvalues, hwell⟩, hchecked, -, htargets, htargetsWell⟩
    refine .intro (assignLegal_of_checks hassign htargets hvalues hchecked ?_) ?_
    · simpa using hbalanced
    · exact Node.everywhere_exprs (List.forall_mem_append.2 ⟨htargetsWell, hwell⟩)

theorem increment_accounts (target : Expr) :
    Accounts source (target.WellFormed (Glyph.lineOf source) ∧ given) (increment target)
      (Stmt.WellFormed (Glyph.lineOf source)) := by
  unfold increment
  refine token_accounts.bind fun token => ?_
  dsimp only
  split
  · exact (errorAt_accounts _ _).bind fun _ => next_accounts.bind fun _ => .pure fun h => h.2.1.elim
  · next hassignable =>
    have hlegal : target.isAssignable = true := by simpa using hassignable
    exact next_accounts.bind fun _ => .pure fun ⟨_, _, htarget, _⟩ =>
      .intro hlegal (List.forall_mem_singleton.2 htarget)

theorem simpleStmtFrom_accounts (hdeep : deep.Accounts source) (list : List Expr) :
    Accounts source ((list ≠ [] ∧ ∀ e ∈ list, e.WellFormed (Glyph.lineOf source)) ∧ given)
      (simpleStmtFrom deep list) (Stmt.WellFormed (Glyph.lineOf source)) := by
  intro r hr
  unfold simpleStmtFrom
  rw [kind_bind]
  split
  · next hassign =>
    exact (assignment_accounts hdeep hr hassign).imp fun s hs hgiven => hs hgiven.1
  · split
    · next e =>
      have hsingle : (∀ d ∈ [e], d.WellFormed (Glyph.lineOf source)) →
          e.WellFormed (Glyph.lineOf source) := List.forall_mem_singleton.1
      split
      · exact ((increment_accounts e).weaken fun h => ⟨hsingle h.1.2, h.2⟩) r hr
      · exact ⟨.refl hr, fun _ h => Stmt.wellFormed_expr (hsingle h.1.2)⟩
    · exact failExpected_accounts _ r hr
    · exact failExpected_accounts _ r hr

theorem simpleStmt_accounts (hdeep : deep.Accounts source) :
    Accounts source given (simpleStmt deep) (Stmt.WellFormed (Glyph.lineOf source)) := by
  unfold simpleStmt
  exact (exprs_accounts hdeep).bind fun list => simpleStmtFrom_accounts hdeep list

/-! ### Blocks and branches -/

theorem openBlock_accounts (hdeep : deep.Accounts source) :
    Accounts source given (openBlock deep) fun body =>
      body.1.WellFormed (Glyph.lineOf source) := by
  unfold openBlock
  refine (expect_accounts _).bind fun lbrace => (hdeep.stmts.weaken fun _ => trivial).bind fun list =>
    kind_accounts.bind fun kind => ?_
  split
  · exact pos_accounts.bind fun pos => .pure fun ⟨_, _, hlist, _⟩ => hlist
  · exact closeBlock_accounts.bind fun rbrace => .pure fun ⟨_, _, hlist, _⟩ => hlist

theorem sharedBlock_accounts (hdeep : deep.Accounts source) :
    Accounts source given (sharedBlock deep) (Block.WellFormed (Glyph.lineOf source)) := by
  unfold sharedBlock
  exact pos_accounts.bind fun lbrace => (hdeep.stmts.weaken fun _ => trivial).bind fun list =>
    closeBlock_accounts.bind fun rbrace => .pure fun ⟨_, hlist, _⟩ => hlist

theorem failCondition_accounts {α : Type} {promise : α → Prop} (wanted : String) (s : Stmt) :
    Accounts source given (failCondition wanted s : Parse α) promise :=
  failAt_accounts _ _

/-- A condition is well formed, and so is a statement before it. -/
def HeadWellFormed (source : List Glyph) (head : Option Stmt × Expr) : Prop :=
  (∀ s ∈ head.1, s.WellFormed (Glyph.lineOf source)) ∧
    head.2.WellFormed (Glyph.lineOf source)

theorem ifHead_accounts (hdeep : deep.Accounts source) :
    Accounts source given (ifHead deep) (HeadWellFormed source) := by
  unfold ifHead
  refine kind_accounts.bind fun kind => ?_
  split
  · exact failExpected_accounts _
  · refine next_accounts.bind fun _ => (expr_accounts hdeep).bind fun test => .pure ?_
    rintro ⟨htest, -⟩
    exact ⟨by simp, htest⟩
  · refine (simpleStmt_accounts hdeep).bind fun first => (accept_accounts _).bind fun accepted => ?_
    split
    · refine (expr_accounts hdeep).bind fun test => .pure ?_
      rintro ⟨htest, -, hfirst, -⟩
      exact ⟨by simpa using hfirst, htest⟩
    · split
      · exact .pure fun ⟨_, hfirst, _⟩ => ⟨by simp, hfirst.ofExpr⟩
      · exact failCondition_accounts _ _

theorem ifElse_accounts (hdeep : deep.Accounts source) (isShared : Bool) :
    Accounts source given (ifElse deep isShared) (Stmt.WellFormed (Glyph.lineOf source)) := by
  unfold ifElse
  refine kind_accounts.bind fun kind => ?_
  split
  · exact hdeep.ifStmt.weaken fun _ => trivial
  · exact (block_accounts hdeep).bind fun body => expectSemicolon_accounts.bind fun _ =>
      .pure fun ⟨_, hbody, _⟩ => Stmt.wellFormed_block hbody
  · split
    · exact (sharedBlock_accounts hdeep).bind fun body => expectSemicolon_accounts.bind fun _ =>
        .pure fun ⟨_, hbody, _⟩ => Stmt.wellFormed_block hbody
    · exact failExpected_accounts _

/-- The parts of a branch make a branch. -/
theorem wellFormed_ifElse {line : Pos → Nat} {init otherwise : Option Stmt} {test : Expr}
    {body : Block Stmt} (pos : Pos) (hinit : ∀ s ∈ init, s.WellFormed line)
    (htest : test.WellFormed line) (hbody : body.WellFormed line)
    (hotherwise : ∀ s ∈ otherwise, s.WellFormed line) :
    (Stmt.ifElse pos init test body otherwise).WellFormed line := by
  refine .intro trivial (List.forall_mem_cons.2 ⟨htest, List.forall_mem_append.2
    ⟨List.forall_mem_append.2 ⟨?_, Node.everywhere_block hbody⟩, ?_⟩⟩)
  · exact List.forall_mem_map.2 fun s hs => hinit s (Option.mem_toList.1 hs)
  · exact List.forall_mem_map.2 fun s hs => hotherwise s (Option.mem_toList.1 hs)

theorem ifStmt_accounts (hdeep : deep.Accounts source) :
    Accounts source given (ifStmt deep) (Stmt.WellFormed (Glyph.lineOf source)) := by
  unfold ifStmt
  refine (expect_accounts _).bind fun pos => (ifHead_accounts hdeep).bind fun head =>
    (openBlock_accounts hdeep).bind fun body => (accept_accounts _).bind fun accepted => ?_
  split
  · refine (ifElse_accounts hdeep _).bind fun otherwise => .pure ?_
    rintro ⟨hotherwise, -, hbody, ⟨hinit, htest⟩, -⟩
    exact wellFormed_ifElse pos hinit htest hbody (by simpa using hotherwise)
  · refine expectSemicolon_accounts.bind fun _ => .pure ?_
    rintro ⟨-, -, hbody, ⟨hinit, htest⟩, -⟩
    exact wellFormed_ifElse pos hinit htest hbody (by simp)

/-! ### Loops -/

theorem everywhere_body? {body : Option (Block Stmt)}
    (h : ∀ b ∈ body, b.WellFormed (Glyph.lineOf source)) :
    ∀ m ∈ body.toList.flatMap Node.ofBlock, Node.Everywhere (Node.Legal (Glyph.lineOf source)) m := by
  cases body with
  | none => simp
  | some b => simpa using Node.everywhere_block (h b rfl)

theorem loopElse_accounts (hdeep : deep.Accounts source) (isShared : Bool) :
    Accounts source given (loopElse deep isShared) fun otherwise =>
      ∀ b ∈ otherwise, b.WellFormed (Glyph.lineOf source) := by
  unfold loopElse
  refine (accept_accounts _).bind fun accepted => ?_
  split
  · refine kind_accounts.bind fun kind => ?_
    split
    · exact (block_accounts hdeep).bind fun body => .pure fun ⟨hbody, _⟩ => by simpa using hbody
    · split
      · exact (sharedBlock_accounts hdeep).bind fun body => .pure fun ⟨hbody, _⟩ => by
          simpa using hbody
      · exact failExpected_accounts _
  · exact .pure fun _ => by simp

theorem loopBody_accounts (hdeep : deep.Accounts source) :
    Accounts source given (loopBody deep) fun body =>
      body.1.WellFormed (Glyph.lineOf source) ∧
        ∀ b ∈ body.2, b.WellFormed (Glyph.lineOf source) := by
  unfold loopBody
  exact (openBlock_accounts hdeep).bind fun body => (loopElse_accounts hdeep _).bind fun otherwise =>
    expectSemicolon_accounts.bind fun _ => .pure fun ⟨_, hotherwise, hbody, _⟩ =>
      ⟨hbody, hotherwise⟩

theorem loopNames_accounts (list : List Expr) :
    Accounts source given (loopNames list) fun _ => True := by
  induction list generalizing given with
  | nil => exact .pure fun _ => trivial
  | cons e rest ih =>
    unfold loopNames
    split
    · exact ih.bind fun _ => .pure fun _ => trivial
    · exact failAt_accounts _ _

/-- What follows the names of a loop over the elements of a collection. -/
theorem iterable_accounts (hdeep : deep.Accounts source) (forPos : Pos) (names : Ident × Option Ident) :
    Accounts source given
      (do
        next
        let iterable ← expr deep
        let (body, otherwise) ← loopBody deep
        return .forIn forPos names.1 names.2 iterable body otherwise)
      (Stmt.WellFormed (Glyph.lineOf source)) := by
  refine next_accounts.bind fun _ => (expr_accounts hdeep).bind fun iterable =>
    (loopBody_accounts hdeep).bind fun body => .pure ?_
  rintro ⟨⟨hbody, hotherwise⟩, hiterable, -⟩
  exact .intro trivial (List.forall_mem_cons.2 ⟨hiterable, List.forall_mem_append.2
    ⟨Node.everywhere_block hbody, everywhere_body? hotherwise⟩⟩)

theorem forIn_accounts (hdeep : deep.Accounts source) (forPos : Pos) (list : List Expr) :
    Accounts source given (forIn deep forPos list) (Stmt.WellFormed (Glyph.lineOf source)) := by
  unfold forIn
  refine pos_accounts.bind fun inPos => (loopNames_accounts list).bind fun names => ?_
  dsimp only
  split
  · exact iterable_accounts hdeep forPos (_, none)
  · exact iterable_accounts hdeep forPos (_, some _)
  · exact .seq (failExpected_accounts _) fun names => iterable_accounts hdeep forPos names
  · exact .seq (failAt_accounts _ _) fun names => iterable_accounts hdeep forPos names

/-- The parts of a loop make a loop. -/
theorem wellFormed_forLoop {init post : Option Stmt} {test : Option Expr} {body : Block Stmt}
    {otherwise : Option (Block Stmt)} (pos : Pos)
    (hinit : ∀ s ∈ init, s.WellFormed (Glyph.lineOf source))
    (htest : ∀ e ∈ test, e.WellFormed (Glyph.lineOf source))
    (hpost : ∀ s ∈ post, s.WellFormed (Glyph.lineOf source))
    (hbody : body.WellFormed (Glyph.lineOf source))
    (hotherwise : ∀ b ∈ otherwise, b.WellFormed (Glyph.lineOf source)) :
    (Stmt.forLoop pos init test post body otherwise).WellFormed (Glyph.lineOf source) := by
  refine .intro trivial (List.forall_mem_append.2 ⟨List.forall_mem_append.2
    ⟨List.forall_mem_append.2 ⟨?_, ?_⟩, Node.everywhere_block hbody⟩, everywhere_body? hotherwise⟩)
  · exact List.forall_mem_map.2 fun e he => htest e (Option.mem_toList.1 he)
  · refine List.forall_mem_map.2 fun s hs => ?_
    rcases List.mem_append.1 hs with hs | hs
    · exact hinit s (Option.mem_toList.1 hs)
    · exact hpost s (Option.mem_toList.1 hs)

theorem forParts_accounts (hdeep : deep.Accounts source) (pos : Pos) (init : Option Stmt) :
    Accounts source ((∀ s ∈ init, s.WellFormed (Glyph.lineOf source)) ∧ given)
      (forParts deep pos init) (Stmt.WellFormed (Glyph.lineOf source)) := by
  unfold forParts
  refine next_accounts.bind fun _ => kind_accounts.bind fun kind => ?_
  refine .ite_bind (fun test => ∀ e ∈ test, e.WellFormed (Glyph.lineOf source))
    (.pure fun _ => by simp) ((expr_accounts hdeep).map fun _ e he => by simpa using he)
    fun test => (expect_accounts _).bind fun _ => kind_accounts.bind fun kind => ?_
  refine .ite_bind (fun post => ∀ s ∈ post, s.WellFormed (Glyph.lineOf source))
    (.pure fun _ => by simp) ((simpleStmt_accounts hdeep).map fun _ s hs => by simpa using hs)
    fun post => (loopBody_accounts hdeep).bind fun body => .pure ?_
  rintro ⟨⟨hbody, hotherwise⟩, hpost, -, -, htest, -, -, hinit, -⟩
  exact wellFormed_forLoop pos hinit htest hpost hbody hotherwise

theorem forTest_accounts (hdeep : deep.Accounts source) (pos : Pos) (test : Option Expr) :
    Accounts source ((∀ e ∈ test, e.WellFormed (Glyph.lineOf source)) ∧ given)
      (forTest deep pos test) (Stmt.WellFormed (Glyph.lineOf source)) := by
  unfold forTest
  refine (loopBody_accounts hdeep).bind fun body => .pure ?_
  rintro ⟨⟨hbody, hotherwise⟩, htest, -⟩
  exact wellFormed_forLoop pos (by simp) htest (by simp) hbody hotherwise

theorem forStmt_accounts (hdeep : deep.Accounts source) :
    Accounts source given (forStmt deep) (Stmt.WellFormed (Glyph.lineOf source)) := by
  unfold forStmt
  refine (expect_accounts _).bind fun pos => kind_accounts.bind fun kind => ?_
  split
  · exact (forTest_accounts hdeep pos none).weaken fun h => ⟨by simp, h⟩
  · exact (forParts_accounts hdeep pos none).weaken fun h => ⟨by simp, h⟩
  · refine (exprs_accounts hdeep).bind fun list => kind_accounts.bind fun kind => ?_
    split
    · exact forIn_accounts hdeep pos list
    · refine ((simpleStmtFrom_accounts hdeep list).weaken fun h => h.2).bind fun init =>
        kind_accounts.bind fun kind => ?_
      split
      · exact (forParts_accounts hdeep pos (some init)).weaken fun ⟨_, hinit, rest⟩ =>
          ⟨by simpa using hinit, rest⟩
      · split
        · next test =>
          exact (forTest_accounts hdeep pos (some test)).weaken fun ⟨_, hinit, rest⟩ =>
            ⟨by simpa using hinit.ofExpr, rest⟩
        · exact failCondition_accounts _ _

/-! ### Handlers -/

theorem catchClause_accounts (hdeep : deep.Accounts source) :
    Accounts source given (catchClause deep) fun handler =>
      ∀ c ∈ handler, c.body.WellFormed (Glyph.lineOf source) := by
  unfold catchClause
  refine pos_accounts.bind fun pos => (accept_accounts _).bind fun accepted => ?_
  split
  · refine kind_accounts.bind fun kind => ?_
    refine .ite_bind (fun _ => True)
      (expectIdent_accounts.map fun _ _ _ => trivial) (.pure fun _ => trivial) fun ident => ?_
    exact (block_accounts hdeep).bind fun body => .pure fun ⟨hbody, _⟩ => by simpa using hbody
  · exact .pure fun _ => by simp

theorem finallyClause_accounts (hdeep : deep.Accounts source) :
    Accounts source given (finallyClause deep) fun finalizer =>
      ∀ c ∈ finalizer, c.body.WellFormed (Glyph.lineOf source) := by
  unfold finallyClause
  refine pos_accounts.bind fun pos => (accept_accounts _).bind fun accepted => ?_
  split
  · exact (block_accounts hdeep).bind fun body => .pure fun ⟨hbody, _⟩ => by simpa using hbody
  · exact .pure fun _ => by simp

/-- The parts of a block with handlers make one, if there is a handler. -/
theorem wellFormed_tryCatch {line : Pos → Nat} {body : Block Stmt}
    {handler : Option (CatchClause Stmt)} {finalizer : Option (FinallyClause Stmt)} (pos : Pos)
    (hhandled : handler.isSome = true ∨ finalizer.isSome = true) (hbody : body.WellFormed line)
    (hhandler : ∀ c ∈ handler, c.body.WellFormed line)
    (hfinalizer : ∀ c ∈ finalizer, c.body.WellFormed line) :
    (Stmt.tryCatch pos body handler finalizer).WellFormed line := by
  refine .intro hhandled (List.forall_mem_append.2 ⟨List.forall_mem_append.2
    ⟨Node.everywhere_block hbody, ?_⟩, ?_⟩)
  · exact List.forall_mem_flatMap.2 fun c hc =>
      Node.everywhere_block (hhandler c (Option.mem_toList.1 hc))
  · exact List.forall_mem_flatMap.2 fun c hc =>
      Node.everywhere_block (hfinalizer c (Option.mem_toList.1 hc))

theorem tryStmt_accounts (hdeep : deep.Accounts source) :
    Accounts source given (tryStmt deep) (Stmt.WellFormed (Glyph.lineOf source)) := by
  unfold tryStmt
  refine (expect_accounts _).bind fun pos => (block_accounts hdeep).bind fun body =>
    (catchClause_accounts hdeep).bind fun handler =>
      (finallyClause_accounts hdeep).bind fun finalizer => ?_
  dsimp only
  split
  · exact (errorAt_accounts _ _).bind fun _ => expectSemicolon_accounts.bind fun _ =>
      .pure fun h => h.2.1.elim
  · next hunhandled =>
    have hhandled : handler.isSome = true ∨ finalizer.isSome = true := by
      cases handler <;> cases finalizer <;> simp_all
    exact expectSemicolon_accounts.bind fun _ => .pure
      fun ⟨_, hfinalizer, hhandler, hbody, _⟩ =>
        wellFormed_tryCatch pos hhandled hbody hhandler hfinalizer

/-! ### Declarations -/

/-- An entry of a declaration is in order, and so is its value. -/
structure Spec.WellFormed (line : Pos → Nat) (word : Token.Kind) (spec : Spec Expr) : Prop where
  legal : spec.Legal word
  value : ∀ e ∈ spec.value?, e.WellFormed line

theorem specsOfParams_wellFormed {params : Params Expr}
    (h : params.WellFormed (Glyph.lineOf source)) :
    ∀ spec ∈ specsOfParams params, Spec.WellFormed (Glyph.lineOf source) .paramWord spec := by
  have hplain : Token.Kind.paramWord ≠ .constWord ∧ Token.Kind.paramWord ≠ .globalWord := by decide
  intro spec hspec
  simp only [specsOfParams, List.mem_append, List.mem_map, Option.mem_toList, Option.map_eq_some_iff]
    at hspec
  rcases hspec with ((⟨ident, -, rfl⟩ | ⟨ident, -, rfl⟩) | ⟨⟨ident, value⟩, hnamed, rfl⟩) |
    ⟨ident, -, rfl⟩
  · exact ⟨hplain, by simp [Spec.value?]⟩
  · exact ⟨hplain, by simp [Spec.value?]⟩
  · refine ⟨hplain, fun e he => ?_⟩
    rw [← Option.some.inj he]
    exact h value (List.mem_map.2 ⟨_, hnamed, rfl⟩)
  · exact ⟨hplain, by simp [Spec.value?]⟩

theorem paramSpec_accounts (hdeep : deep.Accounts source) :
    Accounts source given (paramSpec deep)
      (Spec.WellFormed (Glyph.lineOf source) .paramWord) := by
  have hplain : Token.Kind.paramWord ≠ .constWord ∧ Token.Kind.paramWord ≠ .globalWord := by decide
  unfold paramSpec
  refine kind_accounts.bind fun kind => ?_
  split
  · exact next_accounts.bind fun _ => typedIdent_accounts.bind fun _ => .pure fun _ =>
      ⟨hplain, by simp [Spec.value?]⟩
  · exact next_accounts.bind fun _ => typedIdent_accounts.bind fun _ => .pure fun _ =>
      ⟨hplain, by simp [Spec.value?]⟩
  · refine typedIdent_accounts.bind fun ident => (accept_accounts _).bind fun accepted => ?_
    split
    · exact (expr_accounts hdeep).bind fun value => .pure fun h =>
        ⟨hplain, by simpa [Spec.value?] using h.1⟩
    · exact .pure fun _ => ⟨hplain, by simp [Spec.value?]⟩

theorem valueSpec_accounts (hdeep : deep.Accounts source) (word : Token.Kind) :
    Accounts source given (valueSpec deep word)
      (Spec.WellFormed (Glyph.lineOf source) word) := by
  unfold valueSpec
  refine expectIdent_accounts.bind fun ident => kind_accounts.bind fun kind => ?_
  split
  · next hvalued =>
    have hglobal : word ≠ .globalWord := of_decide_eq_true (Bool.and_eq_true _ _ ▸ hvalued).1
    exact next_accounts.bind fun _ => (expr_accounts hdeep).bind fun value => .pure
      fun ⟨hvalue, _⟩ => ⟨⟨fun _ => rfl, fun h => absurd h hglobal⟩,
        by simpa [Spec.value?] using hvalue⟩
  · split
    · exact failExpected_accounts _
    · next hconst =>
      exact .pure fun _ => ⟨⟨fun h => absurd h hconst, fun _ => rfl⟩, by simp [Spec.value?]⟩

theorem valueSpecs_accounts (hdeep : deep.Accounts source) (word : Token.Kind) :
    Accounts source given (valueSpecs deep word) fun specs =>
      ∀ spec ∈ specs, Spec.WellFormed (Glyph.lineOf source) word spec := by
  unfold valueSpecs
  refine .loop (fun specs => ∀ spec ∈ specs, Spec.WellFormed (Glyph.lineOf source) word spec)
    (fun _ => List.forall_mem_nil _) fun specs => ?_
  refine skipSemicolons_accounts.bind fun _ => kind_accounts.bind fun kind => ?_
  split
  · exact .pure fun h => h.2.2.1
  · refine (valueSpec_accounts hdeep word).bind fun spec => kind_accounts.bind fun kind => ?_
    have hmore : Spec.WellFormed (Glyph.lineOf source) word spec →
        (∀ spec ∈ specs, Spec.WellFormed (Glyph.lineOf source) word spec) →
        ∀ spec' ∈ specs ++ [spec], Spec.WellFormed (Glyph.lineOf source) word spec' :=
      fun hspec hspecs => List.forall_mem_append.2 ⟨hspecs, List.forall_mem_singleton.2 hspec⟩
    split
    · exact next_accounts.bind fun _ => .pure fun ⟨_, _, hspec, _, _, hspecs, _⟩ =>
        hmore hspec hspecs
    · exact next_accounts.bind fun _ => .pure fun ⟨_, _, hspec, _, _, hspecs, _⟩ =>
        hmore hspec hspecs
    · exact .pure fun ⟨_, hspec, _, _, hspecs, _⟩ => hmore hspec hspecs
    · exact failExpected_accounts _

theorem groupedSpecs_accounts (hdeep : deep.Accounts source) (word : Token.Kind) (lparen : Pos) :
    Accounts source given (groupedSpecs deep word lparen) fun specs =>
      ∀ spec ∈ specs, Spec.WellFormed (Glyph.lineOf source) word spec := by
  unfold groupedSpecs
  split
  · next hword =>
    exact (paramList_accounts hdeep lparen).bind fun params => .pure fun ⟨hparams, _⟩ =>
      hword ▸ specsOfParams_wellFormed hparams
  · exact valueSpecs_accounts hdeep word

/-- Entries in order make a declaration in order. -/
theorem wellFormed_decl {word : Token.Kind} {specs : List (Spec Expr)} (pos : Pos)
    (lparen rparen : Option Pos)
    (h : ∀ spec ∈ specs, Spec.WellFormed (Glyph.lineOf source) word spec) :
    (Stmt.decl word pos lparen specs rparen).WellFormed (Glyph.lineOf source) := by
  refine .intro (fun spec hspec => (h spec hspec).legal) (List.forall_mem_map.2 fun e he => ?_)
  obtain ⟨spec, hspec, hvalue⟩ := List.mem_filterMap.1 he
  exact (h spec hspec).value e hvalue

theorem decl_accounts (hdeep : deep.Accounts source) :
    Accounts source given (decl deep) (Stmt.WellFormed (Glyph.lineOf source)) := by
  unfold decl
  refine token_accounts.bind fun word => next_accounts.bind fun _ => pos_accounts.bind fun lparen =>
    (accept_accounts _).bind fun accepted => ?_
  split
  · exact (groupedSpecs_accounts hdeep word.kind lparen).bind fun specs =>
      (expect_accounts _).bind fun rparen => expectSemicolon_accounts.bind fun _ =>
        .pure fun ⟨_, _, hspecs, _⟩ => wellFormed_decl word.pos _ _ hspecs
  · have hrest (spec : Spec Expr) {given : Prop} : Accounts source
        (Spec.WellFormed (Glyph.lineOf source) word.kind spec ∧ given)
        (do
          expectSemicolon
          return .decl word.kind word.pos none [spec] none)
        (Stmt.WellFormed (Glyph.lineOf source)) :=
      expectSemicolon_accounts.bind fun _ => .pure fun ⟨_, hspec, _⟩ =>
        wellFormed_decl word.pos _ _ (List.forall_mem_singleton.2 hspec)
    dsimp only
    split
    · next hword => exact (hword ▸ paramSpec_accounts hdeep).bind fun spec => hrest spec
    · exact (valueSpec_accounts hdeep word.kind).bind fun spec => hrest spec

end Grammar

end TemplateScript
