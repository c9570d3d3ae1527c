import TemplateScript.Proofs.Agree.Expression
import TemplateScript.Proofs.WellFormed.Statement

/-!
# Statements that agree

A statement may end with the last token of the source, a semicolon, and only there. Where a
semicolon stands inside a statement and is the last token, what should follow it is missing, and
the statement comes to nothing.
-/

namespace TemplateScript

open Parse Simulation

namespace Grammar

variable {S : Simulation} {given : Reader → Prop} {deep₁ deep₂ : Nested}

/-! ### Simple statements -/

theorem isTarget_shift (n : Nat) (op : Token.Kind) (e : Expr) :
    isTarget op (e.shift n) = isTarget op e := by
  unfold isTarget
  rw [Expr.ident?_shift, Option.isSome_map, Expr.isAssignable_shift]

theorem isBalanced_shift (n : Nat) (op : Token.Kind) (targets values : List Expr) :
    isBalanced op (shiftExprs n targets) (shiftExprs n values) = isBalanced op targets values := by
  simp only [isBalanced, shiftExprs_eq_map, List.length_map]

theorem checkTargets_agrees (hS : S.Lawful) (op : Token.Kind) (list : List Expr) :
    S.Agrees given .inside (checkTargets op (shiftExprs S.gap list)) (checkTargets op list) id
      fun _ => True := by
  induction list generalizing given with
  | nil => exact .pure rfl fun _ _ => trivial
  | cons e rest ih =>
    unfold shiftExprs checkTargets
    dsimp only
    rw [isTarget_shift, Expr.pos_shift, Expr.print_shift]
    exact .ite Iff.rfl (fun _ => (errorAt_agrees hS _ _).bind fun _ => ih) fun _ => ih

theorem assignment_agrees (hS : S.Lawful) (hdeep : deep₁.Agrees S deep₂) (targets : List Expr)
    (hgiven : ∀ r, given r → r.token.kind ≠ .semicolon) :
    S.Agrees given .inside (assignment deep₁ (shiftExprs S.gap targets))
      (assignment deep₂ targets) (Stmt.shift S.gap) (·.isCodeEnd = false) := by
  unfold assignment
  refine .token_bind hS fun t => (next_agrees hS fun r h => .inl (hgiven r h.2)).bind fun _ =>
    (checkTargets_agrees hS _ _).bind fun _ => (exprs_agrees hS hdeep).bind fun values => ?_
  dsimp only
  rw [isBalanced_shift]
  exact .ite Iff.rfl (fun _ => (errorAt_agrees hS _ _).bind fun _ => .pure rfl fun _ _ => rfl)
    fun _ => .pure rfl fun _ _ => rfl

theorem increment_agrees (hS : S.Lawful) (target : Expr)
    (hgiven : ∀ r, given r → r.token.kind ≠ .semicolon) :
    S.Agrees given .inside (increment (target.shift S.gap)) (increment target) (Stmt.shift S.gap)
      (·.isCodeEnd = false) := by
  unfold increment
  refine .token_bind hS fun t => ?_
  dsimp only
  rw [Expr.isAssignable_shift, Expr.pos_shift, Expr.print_shift]
  refine .ite Iff.rfl (fun _ => ?_) fun _ => ?_
  · exact (errorAt_agrees hS _ _).bind fun _ => (next_agrees hS fun r h => .inr h.1).bind fun _ =>
      .pure rfl fun _ _ => rfl
  · exact (next_agrees hS fun r h => .inl (hgiven r h.2)).bind fun _ => .pure rfl fun _ _ => rfl

theorem simpleStmtFrom_agrees (hS : S.Lawful) (hdeep : deep₁.Agrees S deep₂) (list : List Expr) :
    S.Agrees given .inside (simpleStmtFrom deep₁ (shiftExprs S.gap list))
      (simpleStmtFrom deep₂ list) (Stmt.shift S.gap) (·.isCodeEnd = false) := by
  unfold simpleStmtFrom
  refine .kind_bind hS fun kind => .ite Iff.rfl (fun hassign => ?_) fun _ => ?_
  · refine assignment_agrees hS hdeep list ?_
    rintro r ⟨rfl, -⟩ h
    rw [h] at hassign
    cases hassign
  · match list with
    | [e] =>
      refine .ite Iff.rfl (fun hkind => increment_agrees hS e ?_) fun _ => .pure rfl fun _ _ =>
        rfl
      rintro r ⟨rfl, -⟩ h
      simp [h] at hkind
    | [] => exact failExpected_agrees hS _
    | _ :: _ :: _ => exact failExpected_agrees hS _

theorem simpleStmt_agrees (hS : S.Lawful) (hdeep : deep₁.Agrees S deep₂) :
    S.Agrees given .inside (simpleStmt deep₁) (simpleStmt deep₂) (Stmt.shift S.gap)
      (·.isCodeEnd = false) := by
  unfold simpleStmt
  exact (exprs_agrees hS hdeep).bind fun list => simpleStmtFrom_agrees hS hdeep list

theorem simpleStmt_bails (hS : S.Lawful) (deep : Nested) : S.Bails (simpleStmt deep) :=
  (exprs_bails hS deep).bind _

/-! ### Blocks and branches -/

theorem openBlock_agrees (hS : S.Lawful) (hdeep : deep₁.Agrees S deep₂) :
    S.Agrees given .inside (openBlock deep₁) (openBlock deep₂)
      (fun body => (shiftBlock S.gap body.1, body.2)) fun _ => True := by
  unfold openBlock
  refine (expect_agrees hS (by decide)).bind fun lbrace =>
    (hdeep.stmts.weaken fun _ _ => trivial).bind_dies (fun stmts => ?_) fun stmts => ?_
  · refine .kind_bind hS fun kind => .ite Iff.rfl
      (fun _ => .pos_bind hS fun pos => .pure rfl fun _ _ => trivial) fun _ => ?_
    exact (closeBlock_agrees hS).bind fun rbrace => .pure rfl fun _ _ => trivial
  · intro r hr
    rw [Parse.kind_bind, hS.spent_eof hr]
    exact (closeBlock_dies hS).map _ r hr

theorem sharedBlock_agrees (hS : S.Lawful) (hdeep : deep₁.Agrees S deep₂) :
    S.Agrees given .inside (sharedBlock deep₁) (sharedBlock deep₂) (shiftBlock S.gap)
      fun _ => True := by
  unfold sharedBlock
  refine .pos_bind hS fun lbrace => (hdeep.stmts.weaken fun _ _ => trivial).bind_dies
    (fun stmts => ?_) fun stmts => (closeBlock_dies hS).map _
  exact (closeBlock_agrees hS).bind fun rbrace => .pure rfl fun _ _ => trivial

theorem failCondition_agrees {α β : Type} (hS : S.Lawful) (wanted : String) (s : Stmt)
    {move : β → α} {promise : β → Prop} {E : Ending} :
    S.Agrees given E (failCondition wanted (s.shift S.gap)) (failCondition wanted s) move
      promise := by
  unfold failCondition
  rw [Stmt.pos_shift, Stmt.print_shift]
  exact failAt_agrees hS _ _

theorem ifHead_agrees (hS : S.Lawful) (hdeep : deep₁.Agrees S deep₂) :
    S.Agrees given .inside (ifHead deep₁) (ifHead deep₂)
      (fun head => (shiftStmt? S.gap head.1, head.2.shift S.gap)) fun _ => True := by
  unfold ifHead
  refine .kind_bind hS fun kind => ?_
  split
  · exact failExpected_agrees hS _
  · refine ((next_agrees_edge hS).beyond hS).bind_dies (fun _ => ?_) fun _ =>
      ((expr_bails hS _).bind _).dies
    exact (expr_agrees hS hdeep).bind fun test => .pure rfl fun _ _ => trivial
  · refine (simpleStmt_agrees hS hdeep).bind fun first => accept_semicolon_dies hS
      (fun accepted => .ite Iff.rfl (fun _ => ?_) fun _ => ?_) ((expr_bails hS _).bind _).dies
    · exact (expr_agrees hS hdeep).bind fun test => .pure rfl fun _ _ => trivial
    · cases first with
      | expr test => exact .pure rfl fun _ _ => trivial
      | _ => exact failCondition_agrees hS _ _

theorem ifElse_agrees (hS : S.Lawful) (hdeep : deep₁.Agrees S deep₂) (isShared : Bool) :
    S.Agrees given .edge (ifElse deep₁ isShared) (ifElse deep₂ isShared) (Stmt.shift S.gap)
      (·.isCodeEnd = false) := by
  unfold ifElse
  refine .kind_bind hS fun kind => ?_
  split
  · exact hdeep.ifStmt.weaken fun _ _ => trivial
  · exact (block_agrees hS hdeep).bind fun body => (expectSemicolon_agrees hS).map (fun _ => rfl)
      fun _ _ _ _ => rfl
  · refine .ite Iff.rfl (fun _ => ?_) fun _ => failExpected_agrees hS _
    exact (sharedBlock_agrees hS hdeep).bind fun body => (expectSemicolon_agrees hS).map
      (fun _ => rfl) fun _ _ _ _ => rfl

theorem ifStmt_agrees (hS : S.Lawful) (hdeep : deep₁.Agrees S deep₂) :
    S.Agrees given .edge (ifStmt deep₁) (ifStmt deep₂) (Stmt.shift S.gap)
      (·.isCodeEnd = false) := by
  unfold ifStmt
  refine (expect_agrees hS (by decide)).bind fun pos => (ifHead_agrees hS hdeep).bind
    fun (init, test) => (openBlock_agrees hS hdeep).bind fun (body, isShared) =>
      (accept_agrees hS (by decide)).bind fun accepted => .ite Iff.rfl (fun _ => ?_) fun _ => ?_
  · exact (ifElse_agrees hS hdeep isShared).map (fun _ => rfl) fun _ _ _ _ => rfl
  · exact (expectSemicolon_agrees hS).map (fun _ => rfl) fun _ _ _ _ => rfl

/-! ### Loops -/

theorem loopElse_agrees (hS : S.Lawful) (hdeep : deep₁.Agrees S deep₂) (isShared : Bool) :
    S.Agrees given .inside (loopElse deep₁ isShared) (loopElse deep₂ isShared)
      (shiftBlock? S.gap) fun _ => True := by
  unfold loopElse
  refine (accept_agrees hS (by decide)).bind fun accepted => .ite Iff.rfl (fun _ => ?_) fun _ =>
    .pure rfl fun _ _ => trivial
  refine .kind_bind hS fun kind => .ite Iff.rfl (fun _ => ?_) fun _ => .ite Iff.rfl (fun _ => ?_)
    fun _ => failExpected_agrees hS _
  · exact (block_agrees hS hdeep).bind fun body => .pure rfl fun _ _ => trivial
  · exact (sharedBlock_agrees hS hdeep).bind fun body => .pure rfl fun _ _ => trivial

theorem loopBody_agrees (hS : S.Lawful) (hdeep : deep₁.Agrees S deep₂) :
    S.Agrees given .edge (loopBody deep₁) (loopBody deep₂)
      (fun body => (shiftBlock S.gap body.1, shiftBlock? S.gap body.2)) fun _ => True := by
  unfold loopBody
  exact (openBlock_agrees hS hdeep).bind fun (body, isShared) =>
    (loopElse_agrees hS hdeep isShared).bind fun otherwise =>
      (expectSemicolon_agrees hS).map (fun _ => rfl) fun _ _ _ _ => trivial

/-- Reading names uses no token. -/
theorem loopNames_cases (n : Nat) (list : List Expr) :
    (∃ names, loopNames list = pure names ∧
      loopNames (shiftExprs n list) = pure (names.map (·.shift n))) ∨
    ∃ offset cause, loopNames list = failAt offset cause ∧
      loopNames (shiftExprs n list) = failAt (offset + n) cause := by
  induction list with
  | nil => exact .inl ⟨[], rfl, rfl⟩
  | cons e rest ih =>
    unfold shiftExprs loopNames
    rw [Expr.ident?_shift, Expr.pos_shift, Expr.print_shift]
    cases e.ident? with
    | none => exact .inr ⟨e.pos, .expected "identifier" e.print, rfl, rfl⟩
    | some ident =>
      rcases ih with ⟨names, hnames, hshift⟩ | ⟨offset, cause, hfails, hshift⟩
      · exact .inl ⟨ident :: names, by dsimp only; rw [hnames]; rfl, by
          dsimp only [Option.map_some]; rw [hshift]; rfl⟩
      · exact .inr ⟨offset, cause, by dsimp only; rw [hfails, failAt_bind], by
          dsimp only [Option.map_some]; rw [hshift, failAt_bind]⟩

/-- What follows the names of a loop over the elements of a collection. -/
theorem iterable_agrees (hS : S.Lawful) (hdeep : deep₁.Agrees S deep₂) (forPos : Pos)
    (key : Ident) (value : Option Ident) (hgiven : ∀ r, given r → r.token.kind ≠ .semicolon) :
    S.Agrees given .edge
      (do
        next
        let iterable ← expr deep₁
        let (body, otherwise) ← loopBody deep₁
        return .forIn (forPos + S.gap) (key.shift S.gap) (value.map (·.shift S.gap)) iterable body
          otherwise)
      (do
        next
        let iterable ← expr deep₂
        let (body, otherwise) ← loopBody deep₂
        return .forIn forPos key value iterable body otherwise) (Stmt.shift S.gap)
      (·.isCodeEnd = false) :=
  (next_agrees hS fun r h => .inl (hgiven r h)).bind fun _ => (expr_agrees hS hdeep).bind
    fun _ => (loopBody_agrees hS hdeep).map (fun _ => rfl) fun _ _ _ _ => rfl

theorem forIn_agrees (hS : S.Lawful) (hdeep : deep₁.Agrees S deep₂) (forPos : Pos)
    (list : List Expr) (hgiven : ∀ r, given r → r.token.kind ≠ .semicolon) :
    S.Agrees given .edge (forIn deep₁ (forPos + S.gap) (shiftExprs S.gap list))
      (forIn deep₂ forPos list) (Stmt.shift S.gap) (·.isCodeEnd = false) := by
  unfold forIn
  refine .pos_bind hS fun inPos => ?_
  rcases loopNames_cases S.gap list with ⟨names, hnames, hshift⟩ | ⟨offset, cause, hfails, hshift⟩
  · rw [hnames, hshift, pure_bind, pure_bind]
    match names with
    | [] =>
      dsimp only [List.map_nil]
      rw [failExpected_bind, failExpected_bind]
      exact failExpected_agrees hS _
    | [key] => exact iterable_agrees hS hdeep forPos key none fun r h => hgiven r h.2
    | [key, value] => exact iterable_agrees hS hdeep forPos key (some value) fun r h => hgiven r h.2
    | _ :: _ :: _ :: rest =>
      dsimp only [List.map_cons, List.length_cons]
      rw [failAt_bind, failAt_bind, List.length_map]
      exact failAt_agrees hS _ _
  · rw [hfails, hshift, failAt_bind, failAt_bind]
    exact failAt_agrees hS _ _

theorem forParts_agrees (hS : S.Lawful) (hdeep : deep₁.Agrees S deep₂) (pos : Pos)
    (init : Option Stmt) :
    S.Agrees given .edge (forParts deep₁ (pos + S.gap) (shiftStmt? S.gap init))
      (forParts deep₂ pos init) (Stmt.shift S.gap) (·.isCodeEnd = false) := by
  unfold forParts
  refine ((next_agrees_edge hS).beyond hS).bind_dies (fun _ => .kind_bind hS fun kind => ?_)
    fun _ r hr => ?_
  · refine .ite_bind (shiftExpr? S.gap) (fun _ => True) (fun _ => .pure rfl fun _ _ => trivial)
      (fun _ => (expr_agrees hS hdeep).map (fun _ => rfl) fun _ _ _ _ => trivial) fun test =>
        ((expect_semicolon_agrees hS).beyond hS).bind_dies (fun _ => .kind_bind hS fun kind => ?_)
          fun _ r hr => ?_
    · refine .ite_bind (shiftStmt? S.gap) (fun _ => True) (fun _ => .pure rfl fun _ _ => trivial)
        (fun _ => (simpleStmt_agrees hS hdeep).map (fun _ => rfl) fun _ _ _ _ => trivial)
        fun post => (loopBody_agrees hS hdeep).map (fun _ => rfl) fun _ _ _ _ => rfl
    · rw [Parse.kind_bind, hS.spent_eof hr]
      exact ((Bails.bind (simpleStmt_bails hS _) _).bind _).dies r hr
  · rw [Parse.kind_bind, hS.spent_eof hr]
    exact ((Bails.bind (expr_bails hS _) _).bind _).dies r hr

theorem forTest_agrees (hS : S.Lawful) (hdeep : deep₁.Agrees S deep₂) (pos : Pos)
    (test : Option Expr) :
    S.Agrees given .edge (forTest deep₁ (pos + S.gap) (shiftExpr? S.gap test))
      (forTest deep₂ pos test) (Stmt.shift S.gap) (·.isCodeEnd = false) := by
  unfold forTest
  exact (loopBody_agrees hS hdeep).map (fun _ => rfl) fun _ _ _ _ => rfl

theorem forStmt_agrees (hS : S.Lawful) (hdeep : deep₁.Agrees S deep₂) :
    S.Agrees given .edge (forStmt deep₁) (forStmt deep₂) (Stmt.shift S.gap)
      (·.isCodeEnd = false) := by
  unfold forStmt
  refine (expect_agrees hS (by decide)).bind fun pos => .kind_bind hS fun kind => ?_
  split
  · exact forTest_agrees hS hdeep pos none
  · exact forParts_agrees hS hdeep pos none
  · refine (exprs_agrees hS hdeep).bind fun list => .kind_bind hS fun kind =>
      .ite Iff.rfl (fun hkind => forIn_agrees hS hdeep pos list ?_) fun _ => ?_
    · rintro r ⟨rfl, -⟩ h
      rw [h] at hkind
      cases hkind
    · refine (simpleStmtFrom_agrees hS hdeep list).bind fun init => .kind_bind hS fun kind =>
        .ite Iff.rfl (fun _ => forParts_agrees hS hdeep pos (some init)) fun _ => ?_
      cases init with
      | expr test => exact forTest_agrees hS hdeep pos (some test)
      | _ => exact failCondition_agrees hS _ _

/-! ### Handlers -/

theorem catchClause_agrees (hS : S.Lawful) (hdeep : deep₁.Agrees S deep₂) :
    S.Agrees given .inside (catchClause deep₁) (catchClause deep₂) (shiftCatch? S.gap)
      fun _ => True := by
  unfold catchClause
  refine .pos_bind hS fun pos => (accept_agrees hS (by decide)).bind fun accepted =>
    .ite Iff.rfl (fun _ => .kind_bind hS fun kind => ?_) fun _ => .pure rfl fun _ _ => trivial
  refine .ite_bind (Option.map (Ident.shift S.gap)) (fun _ => True)
    (fun _ => (expectIdent_agrees hS).map (fun _ => rfl) fun _ _ _ _ => trivial)
    (fun _ => .pure rfl fun _ _ => trivial) fun ident => ?_
  exact (block_agrees hS hdeep).bind fun body => .pure rfl fun _ _ => trivial

theorem finallyClause_agrees (hS : S.Lawful) (hdeep : deep₁.Agrees S deep₂) :
    S.Agrees given .inside (finallyClause deep₁) (finallyClause deep₂) (shiftFinally? S.gap)
      fun _ => True := by
  unfold finallyClause
  refine .pos_bind hS fun pos => (accept_agrees hS (by decide)).bind fun accepted =>
    .ite Iff.rfl (fun _ => ?_) fun _ => .pure rfl fun _ _ => trivial
  exact (block_agrees hS hdeep).bind fun body => .pure rfl fun _ _ => trivial

theorem tryStmt_agrees (hS : S.Lawful) (hdeep : deep₁.Agrees S deep₂) :
    S.Agrees given .edge (tryStmt deep₁) (tryStmt deep₂) (Stmt.shift S.gap)
      (·.isCodeEnd = false) := by
  unfold tryStmt
  refine (expect_agrees hS (by decide)).bind fun pos => (block_agrees hS hdeep).bind fun body =>
    (catchClause_agrees hS hdeep).bind fun handler =>
      (finallyClause_agrees hS hdeep).bind fun finalizer => .ite ?_ (fun _ => ?_) fun _ => ?_
  · cases handler <;> cases finalizer <;> exact Iff.rfl
  · exact (errorAt_agrees hS _ _).bind fun _ => (expectSemicolon_agrees hS).map (fun _ => rfl)
      fun _ _ _ _ => rfl
  · exact (expectSemicolon_agrees hS).map (fun _ => rfl) fun _ _ _ _ => rfl

/-! ### Declarations -/

theorem specsOfParams_shift (n : Nat) (params : Params Expr) :
    specsOfParams (shiftParams n params) = shiftSpecs n (specsOfParams params) := by
  obtain ⟨lparen, positional, variadic, named, namedVariadic, rparen⟩ := params
  simp only [specsOfParams, shiftParams, shiftSpecs_eq_map, shiftDefaults_eq_map, List.map_append,
    List.map_map, Option.map_map, Option.toList_map]
  rfl

theorem paramSpec_agrees (hS : S.Lawful) (hdeep : deep₁.Agrees S deep₂) :
    S.Agrees given .inside (paramSpec deep₁) (paramSpec deep₂) (Spec.shift S.gap)
      fun _ => True := by
  unfold paramSpec
  refine .kind_bind hS fun kind => ?_
  split
  · exact (next_agrees_of_kind hS (by decide)).bind fun _ =>
      (typedIdent_agrees hS).bind fun ident => .pure rfl fun _ _ => trivial
  · exact (next_agrees_of_kind hS (by decide)).bind fun _ =>
      (typedIdent_agrees hS).bind fun ident => .pure rfl fun _ _ => trivial
  · refine (typedIdent_agrees hS).bind fun ident => (accept_agrees hS (by decide)).bind
      fun accepted => .ite Iff.rfl (fun _ => ?_) fun _ => .pure rfl fun _ _ => trivial
    exact (expr_agrees hS hdeep).bind fun value => .pure rfl fun _ _ => trivial

theorem valueSpec_agrees (hS : S.Lawful) (hdeep : deep₁.Agrees S deep₂) (word : Token.Kind) :
    S.Agrees given .inside (valueSpec deep₁ word) (valueSpec deep₂ word) (Spec.shift S.gap)
      fun _ => True := by
  unfold valueSpec
  refine (expectIdent_agrees hS).bind fun ident => .kind_bind hS fun kind =>
    .ite Iff.rfl (fun hvalue => ?_) fun _ => .ite Iff.rfl (fun _ => failExpected_agrees hS _)
      fun _ => .pure rfl fun _ _ => trivial
  refine (next_agrees hS ?_).bind fun _ => (expr_agrees hS hdeep).bind fun value =>
    .pure rfl fun _ _ => trivial
  rintro r ⟨rfl, -⟩
  refine .inl fun h => ?_
  simp [h] at hvalue

theorem valueSpec_bails (hS : S.Lawful) (deep : Nested) (word : Token.Kind) :
    S.Bails (valueSpec deep word) :=
  (expectIdent_bails hS).bind _

theorem valueSpecs_agrees (hS : S.Lawful) (hdeep : deep₁.Agrees S deep₂) (word : Token.Kind) :
    S.Agrees given .beyond (valueSpecs deep₁ word) (valueSpecs deep₂ word) (shiftSpecs S.gap)
      fun _ => True := by
  unfold valueSpecs
  refine .loop_skipping hS (shiftSpecs S.gap) (fun _ => True) (skipSemicolons_agrees hS)
    (skipSemicolons_ends hS) (fun list _ => ?_) (fun list _ => ?_) rfl fun _ _ => trivial
  · refine .kind_bind hS fun kind => .ite Iff.rfl (fun _ => .pure rfl fun _ _ => trivial) fun _ =>
      (valueSpec_agrees hS hdeep word).bind fun spec => .kind_bind hS fun kind => ?_
    split
    · refine .beyond hS ((next_agrees_edge hS).map (fun _ => ?_) fun _ _ _ _ => trivial)
      exact congrArg Round.again (by simp [shiftSpecs_eq_map])
    · refine .beyond hS ((next_agrees_edge hS).map (fun _ => ?_) fun _ _ _ _ => trivial)
      exact congrArg Round.again (by simp [shiftSpecs_eq_map])
    · exact .pure (by simp [Round.map, shiftSpecs_eq_map]) fun _ _ => trivial
    · exact failExpected_agrees hS _
  · refine Ends.kind_bind hS ?_
    rw [if_neg (by decide)]
    exact (valueSpec_bails hS _ _).bind _

theorem groupedSpecs_agrees (hS : S.Lawful) (hdeep : deep₁.Agrees S deep₂) (word : Token.Kind)
    (lparen : Pos) :
    S.Agrees given .beyond (groupedSpecs deep₁ word (lparen + S.gap))
      (groupedSpecs deep₂ word lparen) (shiftSpecs S.gap) fun _ => True := by
  unfold groupedSpecs
  refine .ite Iff.rfl (fun _ => ?_) fun _ => valueSpecs_agrees hS hdeep word
  exact (paramList_agrees hS hdeep lparen).map (specsOfParams_shift _) fun _ _ _ _ => trivial

theorem decl_agrees (hS : S.Lawful) (hdeep : deep₁.Agrees S deep₂)
    (hgiven : ∀ r, given r → r.token.kind ≠ .semicolon) :
    S.Agrees given .edge (decl deep₁) (decl deep₂) (Stmt.shift S.gap) (·.isCodeEnd = false) := by
  unfold decl
  refine .token_bind hS fun word => (next_agrees hS fun r h => .inl (hgiven r h.2)).bind fun _ =>
    .pos_bind hS fun lparen => (accept_agrees hS (by decide)).bind fun accepted =>
      .ite Iff.rfl (fun _ => ?_) fun _ => ?_
  · refine (groupedSpecs_agrees hS hdeep word.kind lparen).bind_dies (fun specs => ?_)
      fun specs => ((expect_bails hS (by decide)).bind _).dies
    exact (expect_agrees hS (by decide)).bind fun rparen => (expectSemicolon_agrees hS).map
      (fun _ => rfl) fun _ _ _ _ => rfl
  · refine .ite_bind (Spec.shift S.gap) (fun _ => True) (fun _ => paramSpec_agrees hS hdeep)
      (fun _ => valueSpec_agrees hS hdeep _) fun spec => ?_
    exact (expectSemicolon_agrees hS).map (fun _ => by cases spec <;> rfl) fun _ _ _ _ => rfl

end Grammar

end TemplateScript
