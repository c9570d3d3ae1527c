import TemplateScript.Proofs.WellFormed.Params

/-!
# Well-formed expressions

The phrases for expressions promise well-formed expressions. The only rule that needs the positions
of tokens is the one for conditionals: both marks were read before the cursor got to where their
lines are compared, and up to there the line table is that of the source.
-/

namespace TemplateScript

namespace Grammar

open Parse

variable {source : List Glyph} {given : Prop} {deep : Nested}

/-! ### Blocks -/

theorem closeBlock_accounts : Accounts source given closeBlock fun _ => True := by
  unfold closeBlock
  refine pos_accounts.bind fun pos => isFull_accounts.bind fun full => ?_
  split
  · exact .pure fun _ => trivial
  · refine kind_accounts.bind fun kind => ?_
    split
    · exact next_accounts.bind fun _ => .pure fun _ => trivial
    · exact (errorAt_accounts _ _).bind fun _ => .pure fun _ => trivial
    · exact failExpected_accounts _

theorem block_accounts (hdeep : deep.Accounts source) :
    Accounts source given (block deep) (Block.WellFormed (Glyph.lineOf source)) := by
  unfold block
  exact (expect_accounts _).bind fun _ => (hdeep.stmts.weaken fun _ => trivial).bind fun _ =>
    closeBlock_accounts.bind fun _ => .pure fun ⟨_, hstmts, _⟩ => hstmts

/-! ### Operands -/

theorem closure_accounts (hdeep : deep.Accounts source) (pos : Pos) (params : Params Expr) :
    Accounts source (params.WellFormed (Glyph.lineOf source) ∧ given) (closure deep pos params)
      (Expr.WellFormed (Glyph.lineOf source)) := by
  unfold closure
  refine (expect_accounts _).bind fun _ => (hdeep.expr.weaken fun _ => trivial).bind fun body =>
    .pure ?_
  rintro ⟨hbody, -, hparams, -⟩
  exact .intro params.balanced (List.forall_mem_cons.2 ⟨hbody, Node.everywhere_exprs hparams⟩)

theorem separator_accounts : Accounts source given Grammar.separator fun _ => True := by
  unfold Grammar.separator
  refine skipLineBreaks_accounts.bind fun _ => (accept_accounts _).bind fun accepted => ?_
  split
  · exact skipLineBreaks_accounts.bind fun _ => .pure fun _ => trivial
  · exact .pure fun _ => trivial

/-- Entries are what each of them promises to be. -/
theorem entries_accounts {α : Type} {promise : α → Prop} (closing : Token.Kind) {entry : Parse α}
    (hentry : Accounts source True entry promise) :
    Accounts source given (entries closing entry) fun list => ∀ a ∈ list, promise a := by
  unfold entries
  refine skipLineBreaks_accounts.bind fun _ =>
    .loop (fun list => ∀ a ∈ list, promise a) (fun _ => by simp) fun list => ?_
  refine kind_accounts.bind fun kind => ?_
  split
  · exact .pure fun h => h.2.1
  · refine (hentry.weaken fun _ => trivial).bind fun a => separator_accounts.bind fun more => ?_
    split
    · exact .pure fun ⟨_, ha, _, hlist, _⟩ =>
        List.forall_mem_append.2 ⟨hlist, List.forall_mem_singleton.2 ha⟩
    · exact .pure fun ⟨_, ha, _, hlist, _⟩ =>
        List.forall_mem_append.2 ⟨hlist, List.forall_mem_singleton.2 ha⟩

theorem array_accounts (hdeep : deep.Accounts source) :
    Accounts source given (array deep) (Expr.WellFormed (Glyph.lineOf source)) := by
  unfold array
  exact (expect_accounts _).bind fun _ => (entries_accounts _ hdeep.expr).bind fun elements =>
    (expect_accounts _).bind fun _ => .pure fun ⟨_, helements, _⟩ =>
      .intro trivial (Node.everywhere_exprs helements)

theorem dictKey_accounts : Accounts source given dictKey fun _ => True := by
  unfold dictKey
  refine token_accounts.bind fun token => ?_
  dsimp only
  split
  · exact next_accounts.bind fun _ => .pure fun _ => trivial
  · exact failExpected_accounts _

theorem dictEntry_accounts (hdeep : deep.Accounts source) :
    Accounts source given (dictEntry deep) fun entry =>
      entry.value.WellFormed (Glyph.lineOf source) := by
  unfold dictEntry
  exact pos_accounts.bind fun _ => dictKey_accounts.bind fun _ => (expect_accounts _).bind fun _ =>
    (hdeep.expr.weaken fun _ => trivial).bind fun _ => .pure fun ⟨hvalue, _⟩ => hvalue

theorem dict_accounts (hdeep : deep.Accounts source) :
    Accounts source given (dict deep) (Expr.WellFormed (Glyph.lineOf source)) := by
  unfold dict
  exact (expect_accounts _).bind fun _ =>
    (entries_accounts _ (dictEntry_accounts hdeep)).bind fun entries =>
      (expect_accounts _).bind fun _ => .pure fun ⟨_, hentries, _⟩ =>
        .intro trivial (List.forall_mem_map.2 hentries)

/-- The key and the value of an entry are well formed. -/
def KeyValueGood (source : List Glyph) (entry : KeyValue Expr) : Prop :=
  ∀ e ∈ entry.parts, e.WellFormed (Glyph.lineOf source)

theorem keyValue_accounts (hdeep : deep.Accounts source) :
    Accounts source given (keyValue deep) (KeyValueGood source) := by
  unfold keyValue
  refine argName_accounts.bind fun key => (accept_accounts _).bind fun accepted => ?_
  split
  · refine (hdeep.expr.weaken fun _ => trivial).bind fun value => .pure ?_
    rintro ⟨hvalue, -, hkey, -⟩
    exact List.forall_mem_cons.2 ⟨hkey, List.forall_mem_singleton.2 hvalue⟩
  · exact .pure fun ⟨_, hkey, _⟩ => List.forall_mem_singleton.2 hkey

theorem everywhere_keyValues {entries : List (KeyValue Expr)}
    (h : ∀ entry ∈ entries, KeyValueGood source entry) :
    ∀ m ∈ (entries.flatMap KeyValue.parts).map Node.expr,
      Node.Everywhere (Node.Legal (Glyph.lineOf source)) m := by
  refine Node.everywhere_exprs fun e he => ?_
  obtain ⟨entry, hentry, he⟩ := List.mem_flatMap.1 he
  exact h entry hentry e he

theorem parenthesized_accounts (hdeep : deep.Accounts source) :
    Accounts source given (parenthesized deep) (Expr.WellFormed (Glyph.lineOf source)) := by
  unfold parenthesized
  refine (expect_accounts _).bind fun lparen => token_accounts.bind fun token => ?_
  split
  · exact next_accounts.bind fun _ => (entries_accounts _ (keyValue_accounts hdeep)).bind
      fun list => (expect_accounts _).bind fun _ => .pure fun ⟨_, hlist, _⟩ =>
        .intro trivial (everywhere_keyValues hlist)
  · refine (argList_accounts hdeep).bind fun (args, separated) =>
      (expect_accounts _).bind fun rparen => kind_accounts.bind fun kind => ?_
    split
    · exact ((paramsOfArgs_accounts _ args _).weaken fun h => ⟨h.2.2.1, trivial⟩).bind
        fun params => closure_accounts hdeep _ params
    · split
      · next e hsingle =>
        refine .pure fun h => ?_
        have hargs : args.WellFormed (Glyph.lineOf source) := h.2.2.1
        rw [Args.eq_of_single? hsingle] at hargs
        exact .intro trivial (List.forall_mem_singleton.2 (hargs e (by simp [Args.parts])))
      · exact .pure fun h => .intro trivial (Node.everywhere_exprs h.2.2.1)

theorem func_accounts (hdeep : deep.Accounts source) :
    Accounts source given (func deep) (Expr.WellFormed (Glyph.lineOf source)) := by
  unfold func
  refine (expect_accounts _).bind fun pos => kind_accounts.bind fun kind => ?_
  refine .ite_bind (fun _ => True) (expectIdent_accounts.map fun _ _ _ => trivial)
    (.pure fun _ => trivial) fun name => (expect_accounts _).bind fun lparen =>
      (paramList_accounts hdeep lparen).bind fun params => (expect_accounts _).bind fun rparen =>
        kind_accounts.bind fun kind => ?_
  split
  · exact (closure_accounts hdeep pos { params with rparen }).weaken fun h => ⟨h.2.2.1, trivial⟩
  · refine (block_accounts hdeep).bind fun body => .pure ?_
    rintro ⟨hbody, -, -, hparams, -⟩
    exact .intro (Params.balanced _) (List.forall_mem_append.2
      ⟨Node.everywhere_exprs hparams, Node.everywhere_block hbody⟩)

theorem load_accounts (kind : LoadKind) :
    Accounts source given (load kind) (Expr.WellFormed (Glyph.lineOf source)) := by
  unfold load
  refine pos_accounts.bind fun pos => next_accounts.bind fun _ => (expect_accounts _).bind
    fun _ => token_accounts.bind fun token => ?_
  dsimp only
  split
  · exact next_accounts.bind fun _ => (expect_accounts _).bind fun _ => .pure fun _ =>
      .leaf trivial rfl
  · exact failExpected_accounts _

theorem single_accounts {e : Expr} (h : e.WellFormed (Glyph.lineOf source)) :
    Accounts source given (single e) (Expr.WellFormed (Glyph.lineOf source)) :=
  next_accounts.bind fun _ => .pure fun _ => h

theorem operand_accounts (hdeep : deep.Accounts source) :
    Accounts source given (operand deep) (Expr.WellFormed (Glyph.lineOf source)) := by
  unfold operand
  refine token_accounts.bind fun token => ?_
  dsimp only
  split
  case h_1 =>
    refine expectIdent_accounts.bind fun ident => kind_accounts.bind fun kind => ?_
    split
    · exact (closure_accounts hdeep _ _).weaken fun _ =>
        ⟨fun e he => by simp [Params.defaults] at he, trivial⟩
    · exact .pure fun _ => Expr.wellFormed_ident _
  case h_18 => exact array_accounts hdeep
  case h_19 => exact dict_accounts hdeep
  case h_20 => exact parenthesized_accounts hdeep
  case h_21 => exact func_accounts hdeep
  case h_22 => exact load_accounts _
  case h_23 => exact load_accounts _
  case h_24 =>
    refine next_accounts.bind fun _ => atExprEnd_accounts.bind fun ends => ?_
    split
    · exact .pure fun _ => .leaf trivial rfl
    · exact (hdeep.expr.weaken fun _ => trivial).bind fun result => .pure fun h =>
        .intro trivial (List.forall_mem_singleton.2 h.1)
  case h_25 => exact failAt_accounts _ _
  all_goals first
    | exact literal_accounts
    | exact single_accounts (Expr.wellFormed_literal _)
    | exact single_accounts (Expr.wellFormed_word _ _)

/-! ### What follows an operand -/

theorem selection_accounts (hdeep : deep.Accounts source) {base : Expr} :
    Accounts source (base.WellFormed (Glyph.lineOf source) ∧ given) (selection deep base)
      (Expr.WellFormed (Glyph.lineOf source)) := by
  unfold selection
  refine kind_accounts.bind fun kind => next_accounts.bind fun _ => token_accounts.bind
    fun token => ?_
  split
  · refine next_accounts.bind fun _ => (hdeep.expr.weaken fun _ => trivial).bind fun name =>
      (expect_accounts _).bind fun _ => .pure ?_
    rintro ⟨-, hname, -, -, -, -, hbase, -⟩
    exact .intro trivial (List.forall_mem_cons.2 ⟨hbase, List.forall_mem_singleton.2 hname⟩)
  · split
    · refine next_accounts.bind fun _ => .pure ?_
      rintro ⟨-, -, -, -, hbase, -⟩
      exact .intro trivial (List.forall_mem_cons.2
        ⟨hbase, List.forall_mem_singleton.2 (Expr.wellFormed_literal _)⟩)
    · exact failExpected_accounts _

theorem sliceEnd_accounts (hdeep : deep.Accounts source) {base : Expr} {lbrack : Pos}
    {low : Option Expr} :
    Accounts source (base.WellFormed (Glyph.lineOf source) ∧
        (∀ e ∈ low, e.WellFormed (Glyph.lineOf source)) ∧ given)
      (sliceEnd deep base lbrack low) (Expr.WellFormed (Glyph.lineOf source)) := by
  unfold sliceEnd
  refine next_accounts.bind fun _ => kind_accounts.bind fun kind => ?_
  refine .ite_bind (fun high => ∀ e ∈ high, e.WellFormed (Glyph.lineOf source))
    (.pure fun _ e he => nomatch he)
    ((hdeep.expr.weaken fun _ => trivial).map fun _ e he => by simpa using he) fun high =>
      (expect_accounts _).bind fun _ => .pure ?_
  rintro ⟨-, hhigh, -, -, hbase, hlow, -⟩
  refine .intro trivial (List.forall_mem_cons.2 ⟨hbase, Node.everywhere_exprs ?_⟩)
  simpa only [List.forall_mem_append, Option.mem_toList] using ⟨hlow, hhigh⟩

theorem indexOrSlice_accounts (hdeep : deep.Accounts source) {base : Expr} :
    Accounts source (base.WellFormed (Glyph.lineOf source) ∧ given) (indexOrSlice deep base)
      (Expr.WellFormed (Glyph.lineOf source)) := by
  unfold indexOrSlice
  refine (expect_accounts _).bind fun lbrack => kind_accounts.bind fun kind => ?_
  split
  · exact (sliceEnd_accounts hdeep).weaken fun h => ⟨h.2.2.1, by simp, trivial⟩
  · refine (hdeep.expr.weaken fun _ => trivial).bind fun low => kind_accounts.bind fun kind => ?_
    split
    · exact (sliceEnd_accounts hdeep).weaken fun h => ⟨h.2.2.2.2.1, by simpa using h.2.1, trivial⟩
    · refine (expect_accounts _).bind fun rbrack => .pure ?_
      rintro ⟨-, -, hlow, -, -, hbase, -⟩
      exact .intro trivial (List.forall_mem_cons.2 ⟨hbase, List.forall_mem_singleton.2 hlow⟩)

theorem callArgs_accounts (hdeep : deep.Accounts source) :
    Accounts source given (callArgs deep) fun call =>
      call.2.1.WellFormed (Glyph.lineOf source) := by
  unfold callArgs
  exact (expect_accounts _).bind fun _ => (argList_accounts hdeep).bind fun _ =>
    (expect_accounts _).bind fun _ => .pure fun ⟨_, hargs, _⟩ => hargs

theorem pipedFunc_accounts (hdeep : deep.Accounts source) :
    Accounts source given (pipedFunc deep) (Expr.WellFormed (Glyph.lineOf source)) := by
  unfold pipedFunc
  refine (operand_accounts hdeep).bind fun first =>
    .loop (Expr.WellFormed (Glyph.lineOf source)) (fun h => h.1) fun f => ?_
  refine kind_accounts.bind fun kind => ?_
  split
  · exact ((selection_accounts hdeep).weaken fun h => h.2).bind fun _ => .pure fun h => h.1
  · exact .pure fun h => h.2.1

theorem pipe_accounts (hdeep : deep.Accounts source) {first : Expr} :
    Accounts source (first.WellFormed (Glyph.lineOf source) ∧ given) (pipe deep first)
      (Expr.WellFormed (Glyph.lineOf source)) := by
  unfold pipe
  refine next_accounts.bind fun _ => (pipedFunc_accounts hdeep).bind fun f => kind_accounts.bind
    fun kind => ?_
  refine .ite_bind (fun call => call.2.1.WellFormed (Glyph.lineOf source))
    (callArgs_accounts hdeep) (.pure fun _ e he => by simp [Args.parts] at he)
    fun (lparen, args, rparen) => .pure ?_
  rintro ⟨hargs, -, hf, -, hfirst, -⟩
  refine .intro (fun _ => by simp) (List.forall_mem_cons.2 ⟨hf, Node.everywhere_exprs ?_⟩)
  exact Args.All.withPositional hargs
    (List.forall_mem_cons.2 ⟨hfirst, (Args.wellFormed_iff.1 hargs).1⟩)

theorem primary_accounts (hdeep : deep.Accounts source) :
    Accounts source given (primary deep) (Expr.WellFormed (Glyph.lineOf source)) := by
  unfold primary
  refine (operand_accounts hdeep).bind fun first =>
    .loop (Expr.WellFormed (Glyph.lineOf source)) (fun h => h.1) fun e => ?_
  refine kind_accounts.bind fun kind => ?_
  split
  · exact ((selection_accounts hdeep).weaken fun h => h.2).bind fun _ => .pure fun h => h.1
  · exact ((selection_accounts hdeep).weaken fun h => h.2).bind fun _ => .pure fun h => h.1
  · exact ((indexOrSlice_accounts hdeep).weaken fun h => h.2).bind fun _ => .pure fun h => h.1
  · refine (callArgs_accounts hdeep).bind fun (lparen, args, rparen) => .pure ?_
    rintro ⟨hargs, -, he, -⟩
    exact .intro nofun (List.forall_mem_cons.2 ⟨he, Node.everywhere_exprs hargs⟩)
  · exact ((pipe_accounts hdeep).weaken fun h => h.2).bind fun _ => .pure fun h => h.1
  · exact .pure fun h => h.2.1

/-! ### Operations -/

theorem wellFormed_unary {line : Pos → Nat} {op : UnaryOp} {pos : Pos} {e : Expr}
    (h : e.WellFormed line) : (Expr.unary op pos e).WellFormed line :=
  .intro trivial (List.forall_mem_singleton.2 h)

theorem unary_accounts (hdeep : deep.Accounts source) :
    Accounts source given (unary deep) (Expr.WellFormed (Glyph.lineOf source)) := by
  unfold unary
  refine token_accounts.bind fun token => ?_
  split
  · exact next_accounts.bind fun _ => (hdeep.unary.weaken fun _ => trivial).bind fun e =>
      .pure fun ⟨he, _⟩ => wellFormed_unary he
  · exact primary_accounts hdeep

/-- A comparison with a bare `nil` becomes a test, so none is left among the binary operations. -/
theorem wellFormed_operation {line : Pos → Nat} {lhs rhs : Expr} {op : Token.Kind} {pos : Pos}
    (hop : op.precedence ≠ 0) (hlhs : lhs.WellFormed line) (hrhs : rhs.WellFormed line) :
    (operation lhs op pos rhs).WellFormed line := by
  unfold operation
  split
  · exact wellFormed_unary hlhs
  · exact wellFormed_unary hlhs
  · next hequal hnotEqual =>
    refine .intro ⟨hop, fun hkind hnil => ?_⟩
      (List.forall_mem_cons.2 ⟨hlhs, List.forall_mem_singleton.2 hrhs⟩)
    cases rhs with
    | word w wpos =>
      cases w with
      | nil =>
        rcases hkind with rfl | rfl
        · exact hequal wpos rfl rfl
        · exact hnotEqual wpos rfl rfl
      | _ => exact hnil
    | _ => exact hnil

theorem binary_accounts (hdeep : deep.Accounts source) (least : Nat) :
    Accounts source given (binary deep least) (Expr.WellFormed (Glyph.lineOf source)) := by
  unfold binary
  refine (unary_accounts hdeep).bind fun first =>
    .loop (Expr.WellFormed (Glyph.lineOf source)) (fun h => h.1) fun lhs => ?_
  refine token_accounts.bind fun token => ?_
  dsimp only
  split
  · exact .pure fun h => h.2.1
  · next hprecedence =>
    refine next_accounts.bind fun _ => ((hdeep.binary _).weaken fun _ => trivial).bind fun rhs =>
      .pure ?_
    rintro ⟨hrhs, -, -, hlhs, -⟩
    exact wellFormed_operation (fun h => hprecedence (by simp [h])) hlhs hrhs

/-- What follows the test of a conditional and its first mark. -/
theorem branches_accounts (hdeep : deep.Accounts source) {test : Expr} {question : Pos}
    {r : Reader} (hr : r.InSource source) (hquestion : question ≤ r.cursor.offset) :
    Accounted source r
      (fun e => test.WellFormed (Glyph.lineOf source) → e.WellFormed (Glyph.lineOf source))
      ((do
        next
        let yes ← deep.expr
        let token ← token
        if token.isInsertedSemicolon then failAt token.pos .ternaryLineBreak
        else if token.kind ≠ .colon then failExpected ":"
        else if (← line token.pos) ≠ (← line question) then failAt token.pos .ternaryLineBreak
        else
          next
          let no ← deep.expr
          return .cond test question yes token.pos no : Parse Expr) r) := by
  refine (next_accounts.run hr).bind fun _ r₁ h₁ =>
    (hdeep.expr.run h₁.inSource).bind fun yes r₂ h₂ => ?_
  have hquestion : question ≤ r₂.cursor.offset :=
    Nat.le_trans hquestion (Nat.le_trans h₁.offset_le h₂.offset_le)
  rw [token_bind]
  split
  · exact failAt_accounts _ _ r₂ h₂.inSource
  · split
    · exact failExpected_accounts _ r₂ h₂.inSource
    · refine line_accounted h₂.inSource h₂.inSource.token
        (line_accounted h₂.inSource hquestion ?_)
      split
      · exact failAt_accounts _ _ r₂ h₂.inSource
      · next hline =>
        refine (next_accounts.run h₂.inSource).bind fun _ r₃ h₃ =>
          (hdeep.expr.run h₃.inSource).bind fun no r₄ h₄ => ⟨.refl h₄.inSource, ?_⟩
        intro _ hno _ hyes _ htest
        have hsame : Glyph.lineOf source question = Glyph.lineOf source r₂.token.pos :=
          (not_not.1 hline).symm
        exact .intro hsame (List.forall_mem_cons.2 ⟨htest, List.forall_mem_cons.2
          ⟨hyes, List.forall_mem_singleton.2 hno⟩⟩)

theorem expr_accounts (hdeep : deep.Accounts source) :
    Accounts source given (expr deep) (Expr.WellFormed (Glyph.lineOf source)) := by
  intro r hr
  unfold expr
  refine ((binary_accounts hdeep 1).run hr).bind fun test r₁ h₁ => ?_
  rw [kind_bind]
  split
  · exact ⟨.refl h₁.inSource, fun _ htest _ => htest⟩
  · rw [pos_bind]
    refine (branches_accounts hdeep h₁.inSource h₁.inSource.token).imp ?_
    exact fun e he htest _ => he htest

theorem exprs_accounts (hdeep : deep.Accounts source) :
    Accounts source given (exprs deep) fun list =>
      list ≠ [] ∧ ∀ e ∈ list, e.WellFormed (Glyph.lineOf source) := by
  unfold exprs
  refine (expr_accounts hdeep).bind fun first => ?_
  refine Accounts.loop (fun list : List Expr =>
    list ≠ [] ∧ ∀ e ∈ list, e.WellFormed (Glyph.lineOf source)) ?_ fun list => ?_
  · rintro ⟨hfirst, -⟩
    exact ⟨List.cons_ne_nil _ _, List.forall_mem_singleton.2 hfirst⟩
  refine (accept_accounts _).bind fun accepted => ?_
  split
  · refine (expr_accounts hdeep).bind fun e => .pure ?_
    rintro ⟨he, -, hlist, -⟩
    exact ⟨List.append_ne_nil_of_left_ne_nil hlist.1 _,
      List.forall_mem_append.2 ⟨hlist.2, List.forall_mem_singleton.2 he⟩⟩
  · exact .pure fun h => h.2.1

end Grammar

end TemplateScript
