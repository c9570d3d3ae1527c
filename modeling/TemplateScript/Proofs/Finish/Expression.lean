import TemplateScript.Proofs.Built.Expression
import TemplateScript.Proofs.Finish.Params

/-!
# Expressions that end

An expression takes its first token before it reads the expressions in it, so those may nest one
deep less. The marks of a conditional are looked up when both have been read, so the place of the
first one must have been kept in mind.
-/

namespace TemplateScript

open Parse

namespace Grammar

variable {m : Terms} {moved : Bool} {seen : Token → Prop} {deep : Nested}

/-! ### Blocks -/

theorem closeBlock_finishes : Finishes m moved seen closeBlock (fun _ => True) fun _ => moved := by
  unfold closeBlock
  refine .pos_bind fun pos hpos => .isFull_bind fun full => ?_
  split
  · exact .pure (fun _ => trivial) id
  · refine .kind_bind fun t _ => ?_
    split
    · next hkind =>
      exact (next_at hkind (by decide)).bind fun _ _ => .pure (fun _ => trivial) fun _ => rfl
    · exact .errorAt_bind hpos (.pure (fun _ => trivial) id)
    · exact .failExpected

theorem block_finishes (hdeep : deep.Finishes m.source m.sure m.depth) :
    Finishes m moved seen (block deep) (fun _ => True) fun _ => true := by
  unfold block
  exact (expect_finishes (by decide)).bind fun lbrace _ => (hdeep.stmts rfl).bind fun stmts _ =>
    closeBlock_finishes.bind fun rbrace _ => .pure (fun _ => trivial) id

/-! ### Operands -/

theorem closure_finishes (hdeep : deep.Finishes m.source m.sure m.depth) {pos : Pos}
    (hpos : m.sure → pos ≤ m.size) (params : Params Expr) :
    Finishes m moved seen (closure deep pos params) (·.pos ≤ m.size) fun _ => true := by
  unfold closure
  exact (expect_finishes (by decide)).bind fun arrow _ => (hdeep.expr rfl).bind fun body _ =>
    .pure hpos id

theorem separator_finishes :
    Finishes m moved seen Grammar.separator (fun _ => True) fun _ => moved := by
  unfold Grammar.separator
  refine skipLineBreaks_finishes.bind fun _ _ =>
    .accept (by decide) ?_ (.pure (fun _ => trivial) id)
  exact skipLineBreaks_finishes.bind fun _ _ => .pure (fun _ => trivial) fun _ => rfl

theorem entries_finishes {α : Type} {closing : Token.Kind} {entry : Parse α}
    (hentry : ∀ {seen}, Finishes (m.begun moved) false seen entry (fun _ => True) fun _ => true) :
    Finishes m moved seen (entries closing entry) (fun _ => True) fun _ => moved := by
  unfold entries
  refine skipLineBreaks_finishes.bind fun _ _ => .loop (fun _ => True) (fun _ => trivial)
    fun list _ => .kind_bind fun _ _ => ?_
  split
  · exact .still rfl (fun _ => trivial)
  · refine hentry.bind fun e _ => separator_finishes.bind fun more _ => ?_
    split
    · exact .pure (fun _ => trivial) fun _ => rfl
    · exact .still rfl (fun _ => trivial)

theorem array_finishes (hdeep : deep.Finishes m.source m.sure m.depth) :
    Finishes m moved seen (array deep) (·.pos ≤ m.size) fun _ => true := by
  unfold array
  refine (expect_finishes (by decide)).bind fun lbrack hpos => (entries_finishes ?_).bind fun _ _ =>
    (expect_finishes (by decide)).bind fun rbrack _ => .pure hpos id
  exact (hdeep.expr rfl).promised fun _ _ _ => trivial

theorem dictKey_finishes : Finishes m moved seen dictKey (fun _ => True) fun _ => true := by
  unfold dictKey
  refine .token_bind fun t _ _ => ?_
  dsimp only
  split
  · next key hkey =>
    have ht : t.kind ≠ .eof := by
      intro h
      rw [h] at hkey
      cases hkey
    exact (next_seen ht).bind fun _ _ => .pure (fun _ => trivial) id
  · exact .failExpected

theorem dictEntry_finishes (hdeep : deep.Finishes m.source m.sure m.depth) :
    Finishes m moved seen (dictEntry deep) (fun _ => True) fun _ => true := by
  unfold dictEntry
  exact .pos_bind fun pos _ => dictKey_finishes.bind fun key _ => (expect_finishes (by decide)).bind
    fun _ _ => (hdeep.expr rfl).bind fun value _ => .pure (fun _ => trivial) id

theorem dict_finishes (hdeep : deep.Finishes m.source m.sure m.depth) :
    Finishes m moved seen (dict deep) (·.pos ≤ m.size) fun _ => true := by
  unfold dict
  exact (expect_finishes (by decide)).bind fun lbrace hpos =>
    (entries_finishes (dictEntry_finishes hdeep)).bind fun _ _ => (expect_finishes (by decide)).bind
      fun rbrace _ => .pure hpos id

theorem keyValue_finishes (hdeep : deep.Finishes m.source m.sure m.depth) :
    Finishes m moved seen (keyValue deep) (fun _ => True) fun _ => true := by
  unfold keyValue
  refine argName_finishes.bind fun key _ => .accept (by decide) ?_ (.pure (fun _ => trivial) id)
  exact (hdeep.expr rfl).bind fun value _ => .pure (fun _ => trivial) id

theorem parenthesized_finishes (hdeep : deep.Finishes m.source m.sure m.depth) :
    Finishes m moved seen (parenthesized deep) (·.pos ≤ m.size) fun _ => true := by
  unfold parenthesized
  refine (expect_finishes (by decide)).bind fun lparen hpos => .token_bind fun t _ _ => ?_
  split
  · next hsemicolon =>
    exact (next_seen (ne_eof_of_isExplicitSemicolon hsemicolon)).bind fun _ _ =>
      (entries_finishes (keyValue_finishes hdeep)).bind fun _ _ =>
        (expect_finishes (by decide)).bind fun rparen _ => .pure hpos id
  · refine (argList_finishes hdeep rfl).bind fun read hargs => ?_
    obtain ⟨args, separated⟩ := read
    refine (expect_finishes (by decide)).bind fun rparen _ => .kind_bind fun _ _ => ?_
    split
    · exact (paramsOfArgs_finishes hargs lparen rparen).bind fun params _ =>
        closure_finishes hdeep hpos params
    · split
      · exact .pure hpos id
      · exact .pure hpos id

theorem func_finishes (hdeep : deep.Finishes m.source m.sure m.depth) :
    Finishes m moved seen (func deep) (·.pos ≤ m.size) fun _ => true := by
  unfold func
  refine (expect_finishes (by decide)).bind fun pos hpos => .kind_bind fun _ _ => ?_
  refine .ite_bind (fun _ => True) (fun _ => true)
    (fun _ => expectIdent_finishes.map (fun _ _ _ => trivial) fun _ => id)
    (fun _ => .pure (fun _ => trivial) id) fun name _ => (expect_finishes (by decide)).bind
      fun lparen _ => (paramList_finishes hdeep lparen).bind fun params _ =>
        (expect_finishes (by decide)).bind fun rparen _ => .kind_bind fun _ _ => ?_
  split
  · exact closure_finishes hdeep hpos _
  · exact (block_finishes hdeep).bind fun body _ => .pure hpos id

theorem load_finishes {t : Token} (ht : t.kind ≠ .eof) (kind : LoadKind) :
    Finishes m moved (· = t) (load kind) (·.pos ≤ m.size) fun _ => true := by
  unfold load
  refine .pos_bind fun pos hpos => (next_seen ht).bind fun _ _ => (expect_finishes (by decide)).bind
    fun _ _ => .token_bind fun u _ _ => ?_
  dsimp only
  split
  · next path hpath =>
    have hu : u.kind ≠ .eof := by
      intro h
      rw [h] at hpath
      cases hpath
    exact (next_seen hu).bind fun _ _ => (expect_finishes (by decide)).bind fun rparen _ =>
      .pure hpos id
  · exact .failExpected

theorem single_finishes {t : Token} (ht : t.kind ≠ .eof) {e : Expr} (he : m.sure → e.pos ≤ m.size) :
    Finishes m moved (· = t) (single e) (·.pos ≤ m.size) fun _ => true :=
  (next_seen ht).bind fun _ _ => .pure he id

theorem operand_finishes (hdeep : deep.Finishes m.source m.sure m.depth) :
    Finishes m moved seen (operand deep) (·.pos ≤ m.size) fun _ => true := by
  unfold operand
  refine .token_bind fun t _ hpos => ?_
  dsimp only
  split
  case h_1 =>
    refine expectIdent_finishes.bind fun ident hident => .kind_bind fun _ _ => ?_
    split
    · exact closure_finishes hdeep hpos _
    · exact .pure hident id
  case h_18 => exact array_finishes hdeep
  case h_19 => exact dict_finishes hdeep
  case h_20 => exact parenthesized_finishes hdeep
  case h_21 => exact func_finishes hdeep
  case h_22 hkind => exact load_finishes (ne_of_eq_of_ne hkind (by decide)) _
  case h_23 hkind => exact load_finishes (ne_of_eq_of_ne hkind (by decide)) _
  case h_24 hkind =>
    refine (next_at hkind (by decide)).bind fun _ _ => .atExprEnd_bind fun atEnd => ?_
    split
    · exact .pure hpos id
    · exact (hdeep.expr rfl).bind fun result _ => .pure hpos id
  case h_25 => exact .failAt hpos
  all_goals
    next hkind =>
      first
      | exact literal_finishes (ne_of_eq_of_ne hkind (by decide))
      | exact single_finishes (ne_of_eq_of_ne hkind (by decide)) hpos

/-! ### What follows an operand -/

theorem selection_finishes (hdeep : deep.Finishes m.source m.sure m.depth) {t : Token}
    (ht : t.kind ≠ .eof) {base : Expr} (hbase : m.sure → base.pos ≤ m.size) :
    Finishes m moved (· = t) (selection deep base) (·.pos ≤ m.size) fun _ => true := by
  unfold selection
  refine .kind_bind fun u hu => (next_seen (hu ▸ ht)).bind fun _ _ => .token_bind fun v _ _ => ?_
  split
  · next hkind =>
    exact (next_at hkind (by decide)).bind fun _ _ => (hdeep.expr rfl).bind fun name _ =>
      (expect_finishes (by decide)).bind fun _ _ => .pure hbase id
  · split
    · next hname =>
      have hv : v.kind ≠ .eof := by
        intro h
        rw [h] at hname
        cases hname
      exact (next_seen hv).bind fun _ _ => .pure hbase id
    · exact .failExpected

theorem sliceEnd_finishes (hdeep : deep.Finishes m.source m.sure m.depth) {t : Token}
    (ht : t.kind ≠ .eof) {base : Expr} (hbase : m.sure → base.pos ≤ m.size) (lbrack : Pos)
    (low : Option Expr) :
    Finishes m moved (· = t) (sliceEnd deep base lbrack low) (·.pos ≤ m.size) fun _ => true := by
  unfold sliceEnd
  refine (next_seen ht).bind fun _ _ => .kind_bind fun _ _ => ?_
  exact .ite_bind (fun _ => True) (fun _ => true) (fun _ => .pure (fun _ => trivial) id)
    (fun _ => (hdeep.expr rfl).map (fun _ _ _ => trivial) fun _ => id) fun high _ =>
      (expect_finishes (by decide)).bind fun rbrack _ => .pure hbase id

theorem indexOrSlice_finishes (hdeep : deep.Finishes m.source m.sure m.depth) {base : Expr}
    (hbase : m.sure → base.pos ≤ m.size) :
    Finishes m moved seen (indexOrSlice deep base) (·.pos ≤ m.size) fun _ => true := by
  unfold indexOrSlice
  refine (expect_finishes (by decide)).bind fun lbrack _ => .kind_bind fun t _ => ?_
  split
  · next hkind => exact sliceEnd_finishes hdeep (ne_of_eq_of_ne hkind (by decide)) hbase _ _
  · refine (hdeep.expr rfl).bind fun low _ => .kind_bind fun t _ => ?_
    split
    · next hkind => exact sliceEnd_finishes hdeep (ne_of_eq_of_ne hkind (by decide)) hbase _ _
    · exact (expect_finishes (by decide)).bind fun rbrack _ => .pure hbase id

theorem callArgs_finishes (hdeep : deep.Finishes m.source m.sure m.depth) :
    Finishes m moved seen (callArgs deep) (fun _ => True) fun _ => true := by
  unfold callArgs
  exact (expect_finishes (by decide)).bind fun _ _ => (argList_finishes hdeep rfl).bind fun _ _ =>
    (expect_finishes (by decide)).bind fun _ _ => .pure (fun _ => trivial) id

theorem pipedFunc_finishes (hdeep : deep.Finishes m.source m.sure m.depth) :
    Finishes m moved seen (pipedFunc deep) (fun _ => True) fun _ => true := by
  unfold pipedFunc
  refine (operand_finishes hdeep).bind fun first hfirst =>
    .loop (·.pos ≤ m.size) hfirst fun f hf => .kind_bind fun t _ => ?_
  split
  · next hkind =>
    have ht : t.kind ≠ .eof := by
      intro h
      rw [h] at hkind
      cases hkind
    exact (selection_finishes (m := m.begun true) hdeep ht hf).bind fun _ he =>
      .pure he fun _ => rfl
  · exact .still rfl (fun _ => trivial)

theorem pipe_finishes (hdeep : deep.Finishes m.source m.sure m.depth) {t : Token}
    (ht : t.kind ≠ .eof) {first : Expr} (hfirst : m.sure → first.pos ≤ m.size) :
    Finishes m moved (· = t) (pipe deep first) (·.pos ≤ m.size) fun _ => true := by
  unfold pipe
  refine (next_seen ht).bind fun _ _ => (pipedFunc_finishes hdeep).bind fun f _ =>
    .kind_bind fun _ _ => ?_
  exact .ite_bind (fun _ => True) (fun _ => true) (fun _ => callArgs_finishes hdeep)
    (fun _ => .pure (fun _ => trivial) id) fun (lparen, args, rparen) _ => .pure hfirst id

theorem primary_finishes (hdeep : deep.Finishes m.source m.sure m.depth) :
    Finishes m moved seen (primary deep) (·.pos ≤ m.size) fun _ => true := by
  unfold primary
  refine (operand_finishes hdeep).bind fun first hfirst =>
    .loop (·.pos ≤ m.size) hfirst fun e he => .kind_bind fun t _ => ?_
  have hdeep' : deep.Finishes (m.begun true).source (m.begun true).sure (m.begun true).depth :=
    hdeep
  split
  · next hkind =>
    exact (selection_finishes hdeep' (ne_of_eq_of_ne hkind (by decide)) he).bind fun _ he =>
      .pure he fun _ => rfl
  · next hkind =>
    exact (selection_finishes hdeep' (ne_of_eq_of_ne hkind (by decide)) he).bind fun _ he =>
      .pure he fun _ => rfl
  · exact (indexOrSlice_finishes hdeep' he).bind fun _ he => .pure he fun _ => rfl
  · refine (callArgs_finishes hdeep').bind fun (lparen, args, rparen) _ => .pure ?_ fun _ => rfl
    intro hsure
    change (Expr.call e lparen args rparen false).pos ≤ _
    rw [call_pos]
    exact he hsure
  · next hkind =>
    exact (pipe_finishes hdeep' (ne_of_eq_of_ne hkind (by decide)) he).bind fun _ he =>
      .pure he fun _ => rfl
  · exact .still rfl he

/-! ### Operations -/

theorem unary_finishes (hdeep : deep.Finishes m.source m.sure m.depth) :
    Finishes m moved seen (unary deep) (·.pos ≤ m.size) fun _ => true := by
  unfold unary
  refine .token_bind fun t _ hpos => ?_
  split
  · next op hop =>
    have ht : t.kind ≠ .eof := by
      intro h
      rw [h] at hop
      cases hop
    refine (next_seen ht).bind fun _ _ => (hdeep.unary rfl).bind fun e he => .pure ?_ id
    intro hsure
    dsimp only [Expr.pos]
    split
    · exact he hsure
    · exact hpos hsure
  · exact primary_finishes hdeep

theorem binary_finishes (hdeep : deep.Finishes m.source m.sure m.depth) (least : Nat) :
    Finishes m moved seen (binary deep least) (·.pos ≤ m.size) fun _ => true := by
  unfold binary
  refine (unary_finishes hdeep).bind fun first hfirst =>
    .loop (·.pos ≤ m.size) hfirst fun lhs hlhs => .token_bind fun t _ _ => ?_
  dsimp only
  split
  · exact .still rfl hlhs
  · next hprecedence =>
    have ht : t.kind ≠ .eof := by
      intro h
      simp [h, Token.Kind.precedence] at hprecedence
    refine (next_seen ht).bind fun _ _ => (hdeep.binary _ rfl).bind fun rhs _ =>
      .pure ?_ fun _ => rfl
    intro hsure
    change (operation lhs t.kind t.pos rhs).pos ≤ _
    rw [operation_pos]
    exact hlhs hsure

theorem expr_finishes (hdeep : deep.Finishes m.source m.sure m.depth) :
    Finishes m moved seen (expr deep) (·.pos ≤ m.size) fun _ => true := by
  unfold expr
  refine (binary_finishes hdeep 1).bind fun test htest => .kind_bind fun t _ => ?_
  split
  · exact .pure htest id
  · next hkind =>
    refine .pos_bind fun question hquestion =>
      (next_at (not_not.1 hkind) (by decide)).bind fun _ _ =>
      (hdeep.expr rfl).bind fun yes _ => .token_bind fun u _ hu => ?_
    split
    · exact .failAt hu
    · split
      · exact .failExpected
      · next hcolon =>
        refine .line_bind hu fun _ => .line_bind hquestion fun _ => ?_
        split
        · exact .failAt hu
        · exact (next_at (not_not.1 hcolon) (by decide)).bind fun _ _ => (hdeep.expr rfl).bind
            fun no _ => .pure htest id

theorem exprs_finishes (hdeep : deep.Finishes m.source m.sure m.depth) :
    Finishes m moved seen (exprs deep) (∀ e ∈ ·, e.pos ≤ m.size) fun _ => true := by
  unfold exprs
  refine (expr_finishes hdeep).bind fun first hfirst =>
    .loop (∀ e ∈ ·, e.pos ≤ m.size) (fun hsure => List.forall_mem_singleton.2 (hfirst hsure))
      fun list hlist => .accept (by decide) ?_ (.still rfl hlist)
  refine (expr_finishes (m := m.begun true) hdeep).bind fun e he =>
    .pure (fun hsure => ?_) fun _ => rfl
  exact List.forall_mem_append.2 ⟨hlist hsure, List.forall_mem_singleton.2 (he hsure)⟩

end Grammar

end TemplateScript
