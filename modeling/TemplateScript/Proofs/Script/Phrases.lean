import TemplateScript.Proofs.Script.Command
import TemplateScript.Proofs.Template.Phrases

/-!
# Phrases of scripts

What the tokens of a script are read as. A statement ends with a semicolon, which is used, or
before the token that closes its block, which is not. However deep blocks nest, each is read as the
trees of its statements.
-/

namespace TemplateScript

open Parse Grammar

/-! ### Operands -/

namespace Token.Kind

/-- The kinds with which a statement begins that does not begin with an expression, and those before
which none begins. -/
def stmtHeads : List Kind :=
  [.semicolon, .lbrace, .ifWord, .forWord, .tryWord, .throwWord, .returnWord, .breakWord,
    .continueWord, .paramWord, .globalWord, .varWord, .constWord, .text, .codeBegin, .codeEnd,
    .valueBegin, .pragmaStart, .elseWord, .catchWord, .finallyWord, .rbrace, .eof]

/-- The kinds with which no operand begins. The stars mark an operand in a list. -/
def foreign : List Kind := exprFollowers ++ [.mul, .pow]

end Token.Kind

variable {α β : Type} {w : Operands α} {v : Operands β} {K : Token.Outlook}

/-- However deep phrases may nest, operands are read as their trees. -/
structure Operands.Read (w : Operands α) (K : Token.Outlook) : Prop where
  exists_head : ∀ e, ∃ f more, w.faces e = f :: more ∧ f.kind ∉ Token.Kind.foreign
  reads : ∀ depth m e, (expr (.ofDepth depth)).ReadsAs K m (w.faces e) (w.tree e)

/-- Operands are read as their trees, and a statement may begin with each. -/
structure Operands.Begins (v : Operands β) (K : Token.Outlook) : Prop extends v.Read K where
  head_kind : ∀ e, ∀ f ∈ (v.faces e).head?, f.kind ∉ Token.Kind.stmtHeads

theorem Atom.face_kind (a : Atom) : a.face.kind ∈ [Token.Kind.ident, .int, .uint] := by
  cases a with
  | name x => exact List.mem_cons_self
  | integer n =>
    change integerKind n.isUnsigned ∈ _
    cases n.isUnsigned <;> decide

/-- A statement may begin with a name or an integer. -/
theorem Atom.begins : Atom.operands.Begins K where
  exists_head a := by
    have hkinds : ∀ kind ∈ [Token.Kind.ident, .int, .uint], kind ∉ Token.Kind.foreign := by
      decide
    exact ⟨a.face, [], rfl, hkinds _ a.face_kind⟩
  reads _ _ a := a.reads
  head_kind a := by
    have hkinds : ∀ kind ∈ [Token.Kind.ident, .int, .uint], kind ∉ Token.Kind.stmtHeads := by
      decide
    rintro f ⟨⟩
    exact hkinds _ a.face_kind

variable {deep : Nested} {depth m : Nat} {before after rest faces sep : List Token.Face}
  {f g : Token.Face} {P : Stmt → Prop}

/-! ### Ends of statements -/

/-- A statement ends with the tokens, before another one. -/
inductive EndedBy : List Token.Face → Token.Face → Prop
  | semicolon (text : String) (g : Token.Face) : EndedBy [⟨.semicolon, text⟩] g
  | brace {g : Token.Face} (hg : g.kind = .rbrace) : EndedBy [] g

namespace EndedBy

theorem exists_head (h : EndedBy sep g) (rest : List Token.Face) :
    ∃ f more, sep ++ g :: rest = f :: more ∧ f.kind ∈ [Token.Kind.semicolon, .rbrace] := by
  cases h with
  | semicolon text g => exact ⟨_, _, rfl, List.mem_cons_self⟩
  | brace hg => exact ⟨g, rest, rfl, hg ▸ List.mem_cons_of_mem _ List.mem_cons_self⟩

theorem reads (h : EndedBy sep g) :
    expectSemicolon.ReadsIn K m (sep ++ g :: rest) (g :: rest) fun _ => True := by
  cases h with
  | semicolon text g => exact reads_kind reads_next
  | brace hg => exact reads_expectSemicolon (by rw [hg]; decide)

end EndedBy

/-- What begins with an expression and ends is a statement. -/
theorem stmt_of_simple (hf : f.kind ∉ Token.Kind.stmtHeads)
    (h : (simpleStmt deep).ReadsIn K m (f :: before) (sep ++ g :: rest) P) (hend : EndedBy sep g) :
    (stmt deep).ReadsIn K m (f :: before) (g :: rest) P := by
  apply reads_token
  intro pos
  simp only [Token.Kind.stmtHeads, List.mem_cons, List.not_mem_nil, or_false, not_or] at hf
  obtain ⟨_, _, _, _, _, _, _, _, _, _, _, _, _, _, _, _, _, _, _, _, _, _, _⟩ := hf
  dsimp only
  split <;>
    first
    | contradiction
    | exact h.bind fun s hs => hend.reads.bind fun _ _ => reads_pure hs

/-! ### Blocks -/

namespace Command

variable {trees : List Stmt}

/-- The statements of a block are read up to the token that closes it. -/
def ReadsBody (K : Token.Outlook) (deep : Nested) (m : Nat) (faces : List Token.Face)
    (trees : List Stmt) : Prop :=
  ∀ (g : Token.Face) (rest : List Token.Face), g.kind = .rbrace →
    deep.stmts.ReadsIn K m (faces ++ g :: rest) (g :: rest) fun stmts => unplacedStmts stmts = trees

theorem closeBlock_reads (hf : f.kind = .rbrace) :
    closeBlock.ReadsIn K m (f :: g :: rest) (g :: rest) fun _ => True := by
  apply reads_pos
  intro pos
  apply reads_isFull
  rw [if_neg Bool.false_ne_true]
  apply reads_kind
  rw [hf]
  exact reads_next.bind fun _ _ => reads_pure trivial

theorem openBlock_reads (fence : Fence) (hbody : ReadsBody K deep m faces trees) :
    (openBlock deep).ReadsIn K m (fence.opener :: (faces ++ fence.closer :: g :: rest)) (g :: rest)
      fun found => found.2 = false ∧ unplacedBlock found.1 = Build.block trees := by
  refine (reads_expect_append fence.opener_kind).bind fun lbrace _ => ?_
  refine (hbody _ _ fence.closer_kind).bind fun stmts hstmts => ?_
  apply reads_kind
  rw [fence.closer_kind, if_neg (by decide)]
  refine (closeBlock_reads fence.closer_kind).bind fun rbrace _ => reads_pure ⟨rfl, ?_⟩
  rw [unplacedBlock, hstmts, Build.block]

theorem block_reads (fence : Fence) (hbody : ReadsBody K deep m faces trees) :
    (Grammar.block deep).ReadsIn K m (fence.opener :: (faces ++ fence.closer :: g :: rest))
      (g :: rest) fun found => unplacedBlock found = Build.block trees := by
  refine (reads_expect_append fence.opener_kind).bind fun lbrace _ => ?_
  refine (hbody _ _ fence.closer_kind).bind fun stmts hstmts => ?_
  refine (closeBlock_reads fence.closer_kind).bind fun rbrace _ => reads_pure ?_
  rw [unplacedBlock, hstmts, Build.block]

/-! ### Branches -/

/-- The test of a branch is read before the token that opens its block. -/
theorem ifHead_reads (hv : v.Begins K) (test : β) (fence : Fence) :
    (ifHead (.ofDepth depth)).ReadsIn K m (v.faces test ++ fence.opener :: rest)
      (fence.opener :: rest) fun found => ∃ e, found = (none, e) ∧ e.unplaced = v.tree test := by
  have hends : fence.opener.kind.endsSimple = true := by
    rw [fence.opener_kind]
    rfl
  have hread := simpleStmt_reads (hv.reads depth m test fence.opener rest
    (Token.Kind.endsExpr_of_endsExprs (Token.Kind.endsExprs_of_endsSimple hends))) hends
  obtain ⟨f, more, hfaces, -⟩ := hv.exists_head test
  have hf := hv.head_kind test f (by rw [hfaces]; rfl)
  rw [hfaces] at hread ⊢
  have hlbrace : f.kind ≠ .lbrace := fun hkind => hf (hkind ▸ by decide)
  have hsemicolon : f.kind ≠ .semicolon := fun hkind => hf (hkind ▸ by decide)
  have hnext : fence.opener.kind ≠ .semicolon := by
    rw [fence.opener_kind]
    decide
  apply reads_kind
  split
  · next hkind => exact absurd hkind hlbrace
  · next hkind => exact absurd hkind hsemicolon
  refine hread.bind fun s ⟨e, hs, he⟩ => ?_
  subst hs
  refine (reads_accept_none hnext).bind fun found hfound => ?_
  subst hfound
  exact reads_pure ⟨e, rfl, he⟩

theorem ifThen_reads (hv : v.Begins K) (test : β) (fence : Fence)
    (hbody : ReadsBody K (.ofDepth depth) m faces trees) (hend : EndedBy sep g) :
    (ifStmt (.ofDepth depth)).ReadsIn K m (⟨.ifWord, "if"⟩ :: (v.faces test ++
        fence.opener :: (faces ++ fence.closer :: (sep ++ g :: rest)))) (g :: rest)
      fun s => s.unplaced = Build.ifElse (v.tree test) trees none := by
  have hsemicolon : expectSemicolon.ReadsIn K m (sep ++ g :: rest) (g :: rest) _ := hend.reads
  obtain ⟨f, more, hmore, hf⟩ := hend.exists_head rest
  rw [hmore] at hsemicolon ⊢
  have helse : f.kind ≠ .elseWord := fun hkind => absurd (hkind ▸ hf) (by decide)
  refine (reads_expect_append rfl).bind fun word _ => ?_
  refine (ifHead_reads hv test fence).bind fun found ⟨e, hfound, he⟩ => ?_
  subst hfound
  refine (openBlock_reads fence hbody).bind fun (inner, isShared) ⟨_, hinner⟩ => ?_
  refine (reads_accept_none helse).bind fun found hfound => ?_
  subst hfound
  refine hsemicolon.bind fun _ _ => reads_pure ?_
  simp only [Stmt.unplaced, unplacedStmt?, he, hinner, Build.ifElse, Option.map_none]

theorem ifElse_reads {more : List Token.Face} {others : List Stmt} (hv : v.Begins K) (test : β)
    (fence : Fence) (hbody : ReadsBody K (.ofDepth depth) m faces trees) (elseFence : Fence)
    (hothers : ReadsBody K (.ofDepth depth) m more others) (hend : EndedBy sep g) :
    (ifStmt (.ofDepth depth)).ReadsIn K m (⟨.ifWord, "if"⟩ :: (v.faces test ++
        fence.opener :: (faces ++ fence.closer :: ⟨.elseWord, "else"⟩ :: elseFence.opener ::
          (more ++ elseFence.closer :: (sep ++ g :: rest))))) (g :: rest)
      fun s => s.unplaced = Build.ifElse (v.tree test) trees (some others) := by
  have hsemicolon : expectSemicolon.ReadsIn K m (sep ++ g :: rest) (g :: rest) _ := hend.reads
  obtain ⟨f, behind, hbehind, hf⟩ := hend.exists_head rest
  rw [hbehind] at hsemicolon ⊢
  refine (reads_expect_append rfl).bind fun word _ => ?_
  refine (ifHead_reads hv test fence).bind fun found ⟨e, hfound, he⟩ => ?_
  subst hfound
  refine (openBlock_reads fence hbody).bind fun (inner, isShared) ⟨_, hinner⟩ => ?_
  refine (reads_accept rfl).bind fun found hfound => ?_
  subst hfound
  have helse : (Grammar.ifElse (.ofDepth depth) isShared).ReadsIn K m (elseFence.opener ::
      (more ++ elseFence.closer :: f :: behind)) (g :: rest)
      fun s => ∃ b, s = .block b ∧ unplacedBlock b = Build.block others := by
    apply reads_kind
    rw [elseFence.opener_kind]
    refine (block_reads elseFence hothers).bind fun b hb => ?_
    exact hsemicolon.bind fun _ _ => reads_pure ⟨b, rfl, hb⟩
  refine helse.bind fun s ⟨b, hs, hb⟩ => reads_pure ?_
  subst hs
  simp only [Stmt.unplaced, unplacedStmt?, he, hinner, hb, Build.ifElse, Option.map_some]

/-! ### Loops -/

/-- What is read behind the `in` of a loop. -/
theorem forRest_reads (hw : w.Read K) (pos : Pos) (key : Ident) (value : Option Ident) (list : α)
    (fence : Fence) (hbody : ReadsBody K (.ofDepth depth) m faces trees) (hend : EndedBy sep g) :
    (do
      let iterable ← Grammar.expr (.ofDepth depth)
      let (body, otherwise) ← loopBody (.ofDepth depth)
      return Stmt.forIn pos key value iterable body otherwise : Parse Stmt).ReadsIn K m
      (w.faces list ++ fence.opener :: (faces ++ fence.closer :: (sep ++ g :: rest))) (g :: rest)
      fun s => s.unplaced = .forIn 0 key.unplaced (value.map (·.unplaced)) (w.tree list)
        (Build.block trees) none := by
  have hsemicolon : expectSemicolon.ReadsIn K m (sep ++ g :: rest) (g :: rest) _ := hend.reads
  obtain ⟨f, more, hmore, hf⟩ := hend.exists_head rest
  rw [hmore] at hsemicolon ⊢
  have helse : f.kind ≠ .elseWord := fun hkind => absurd (hkind ▸ hf) (by decide)
  have hends : fence.opener.kind.endsExpr = true := by
    rw [fence.opener_kind]
    rfl
  refine (hw.reads depth m list _ _ hends).bind fun e he => ?_
  have hloop : (loopBody (.ofDepth depth)).ReadsIn K m
      (fence.opener :: (faces ++ fence.closer :: f :: more)) (g :: rest)
      fun found => unplacedBlock found.1 = Build.block trees ∧ found.2 = none := by
    refine (openBlock_reads fence hbody).bind fun (inner, isShared) ⟨_, hinner⟩ => ?_
    have hnone : (loopElse (.ofDepth depth) isShared).ReadsIn K m (f :: more) (f :: more)
        (· = none) := by
      refine (reads_accept_none helse).bind fun found hfound => ?_
      subst hfound
      exact reads_pure rfl
    refine hnone.bind fun found hfound => ?_
    exact hsemicolon.bind fun _ _ => reads_pure ⟨hinner, hfound⟩
  refine hloop.bind fun (inner, otherwise) ⟨hinner, hnone⟩ => reads_pure ?_
  simp only at hinner hnone
  subst hnone
  simp only [Stmt.unplaced, he, hinner, unplacedBlock?]

/-- A loop over a collection is read from its `in` on. -/
theorem forIn_reads (hw : w.Read K) (pos : Pos) (key : Ident) (value : Option Ident) (list : α)
    (fence : Fence) (hbody : ReadsBody K (.ofDepth depth) m faces trees) (hend : EndedBy sep g) :
    (forIn (.ofDepth depth) pos (.ident key :: (value.map Expr.ident).toList)).ReadsIn K m
      (⟨.inWord, "in"⟩ :: (w.faces list ++
        fence.opener :: (faces ++ fence.closer :: (sep ++ g :: rest)))) (g :: rest)
      fun s => s.unplaced = .forIn 0 key.unplaced (value.map (·.unplaced)) (w.tree list)
        (Build.block trees) none := by
  apply reads_pos
  intro inPos
  cases value with
  | none =>
    refine reads_next_append.bind fun _ _ => ?_
    exact forRest_reads hw pos key none list fence hbody hend
  | some value =>
    refine reads_next_append.bind fun _ _ => ?_
    exact forRest_reads hw pos key value list fence hbody hend

/-- The names of a loop are read before its `in`. -/
theorem names_reads (key : Template.Name) (value : Option Template.Name) :
    (exprs deep).ReadsIn K m
      (key.face :: ((value.map fun x => [Chain.opFace .comma, x.face]).getD [] ++
        ⟨.inWord, "in"⟩ :: rest)) (⟨.inWord, "in"⟩ :: rest)
      fun list => ∃ first second, list = .ident first :: (Option.map Expr.ident second).toList ∧
        first.unplaced = Build.name key.text ∧
        second.map (·.unplaced) = value.map fun x => Build.name x.text := by
  cases value with
  | none =>
    refine (exprs_reads (expr_ident (by decide)) (by decide)).mono ?_
    rintro list ⟨e, rfl, pos, rfl⟩
    exact ⟨⟨key.text, pos⟩, none, rfl, rfl, rfl⟩
  | some x =>
    refine (expr_ident (by decide)).bind fun e ⟨pos, he⟩ => ?_
    subst he
    have hsecond : (do
        if ← accept .comma then
          let e ← Grammar.expr deep
          return Round.again ([Expr.ident ⟨key.text, pos⟩] ++ [e])
        else return .done [.ident ⟨key.text, pos⟩] :
          Parse (Round (List Expr) (List Expr))).ReadsIn K m
        (Chain.opFace .comma :: x.face :: ⟨.inWord, "in"⟩ :: rest) (⟨.inWord, "in"⟩ :: rest)
        (Round.Again fun list => ∃ stop,
          list = [.ident ⟨key.text, pos⟩, .ident ⟨x.text, stop⟩]) := by
      refine (reads_accept rfl).bind fun found hfound => ?_
      subst hfound
      refine (expr_ident (by decide)).bind fun e ⟨stop, he⟩ => ?_
      exact reads_pure ⟨stop, by rw [he]; rfl⟩
    refine LoopsIn.reads (.step hsecond ?_)
    rintro list ⟨stop, rfl⟩
    refine .done ((reads_accept_none (by decide)).bind fun found hfound => ?_)
    subst hfound
    exact reads_pure ⟨⟨key.text, pos⟩, some ⟨x.text, stop⟩, rfl, rfl, rfl⟩

theorem each_reads (hw : w.Read K) (key : Template.Name) (value : Option Template.Name) (list : α)
    (fence : Fence) (hbody : ReadsBody K (.ofDepth depth) m faces trees) (hend : EndedBy sep g) :
    (forStmt (.ofDepth depth)).ReadsIn K m
      (⟨.forWord, "for"⟩ :: key.face ::
        ((value.map fun x => [Chain.opFace .comma, x.face]).getD [] ++
          ⟨.inWord, "in"⟩ :: (w.faces list ++
            fence.opener :: (faces ++ fence.closer :: (sep ++ g :: rest))))) (g :: rest)
      fun s => s.unplaced = Build.forIn key.text (value.map (·.text)) (w.tree list) trees := by
  refine (reads_expect rfl).bind fun word _ => ?_
  apply reads_kind
  refine (names_reads key value).bind fun names ⟨first, second, hnames, hfirst, hsecond⟩ => ?_
  subst hnames
  apply reads_kind
  rw [if_pos rfl]
  refine (forIn_reads hw word first second list fence hbody hend).mono fun s hs => ?_
  rw [hs, hfirst, hsecond, Build.forIn, Option.map_map]
  rfl

/-! ### Results -/

theorem ret_reads (hw : w.Read K) (result : Option α) (hend : EndedBy sep g) :
    (returnStmt (.ofDepth depth)).ReadsIn K m
      (⟨.returnWord, "return"⟩ :: ((result.map w.faces).getD [] ++ (sep ++ g :: rest))) (g :: rest)
      fun s => s.unplaced = Build.ret (result.map w.tree) := by
  have hsemicolon : expectSemicolon.ReadsIn K m (sep ++ g :: rest) (g :: rest) _ := hend.reads
  obtain ⟨f, more, hmore, hf⟩ := hend.exists_head rest
  rw [hmore] at hsemicolon ⊢
  apply reads_pos
  intro pos
  refine reads_next_append.bind fun _ _ => ?_
  have hfollows : ∀ kind ∈ [Token.Kind.semicolon, .rbrace],
      exprFollowers.contains kind = true ∧ kind.endsExpr = true := by decide
  obtain ⟨hend, hexpr⟩ := hfollows _ hf
  cases result with
  | none =>
    have hatEnd : atExprEnd.ReadsIn K m (f :: more) (f :: more) (· = true) :=
      reads_kind (reads_pure hend)
    refine hatEnd.bind fun found hfound => ?_
    subst hfound
    exact hsemicolon.bind fun _ _ => reads_pure rfl
  | some e =>
    have hread := hw.reads depth m e f more hexpr
    obtain ⟨first, others, hfaces, hforeign⟩ := hw.exists_head e
    have hfirst : first.kind ∉ exprFollowers := fun hmem =>
      hforeign (List.mem_append_left _ hmem)
    simp only [Option.map_some, Option.getD_some]
    rw [hfaces] at hread ⊢
    have hatEnd : atExprEnd.ReadsIn K m (first :: (others ++ f :: more))
        (first :: (others ++ f :: more)) (· = false) :=
      reads_kind (reads_pure (by rw [List.contains_eq_mem, decide_eq_false hfirst]))
    refine hatEnd.bind fun found hfound => ?_
    subst hfound
    have hresult : (some <$> Grammar.expr (.ofDepth depth)).ReadsIn K m
        (first :: (others ++ f :: more)) (f :: more)
        fun found => ∃ e, found = some e ∧ e.unplaced = w.tree _ :=
      hread.bind fun e he => reads_pure ⟨e, rfl, he⟩
    refine hresult.bind ?_
    rintro _ ⟨e, rfl, he⟩
    refine hsemicolon.bind fun _ _ => reads_pure ?_
    simp only [Stmt.unplaced, unplacedExpr?, he, Build.ret]

end Command

end TemplateScript
