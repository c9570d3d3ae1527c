import TemplateScript.Proofs.InOrder.Params

/-!
# Expressions with statements in order

An expression begins where its first token does, however much follows its first operand, and uses
that token. The blocks in it are those of functions.
-/

namespace TemplateScript

namespace Grammar

open Parse

variable {source : List Glyph} {deep : Nested} {t : Token} {pos : Pos}

/-! ### Blocks -/

theorem block_yields (hdeep : deep.Yields source) :
    Yields source t (block deep) fun body u =>
      t.Before u ∧ body.lbrace = t.pos ∧ body.Ordered 0 (Glyph.widths source) := by
  unfold block
  refine .expect_bind fun u _ hu => .begun hu ?_
  exact (hdeep.stmts u).bind fun stmts v _ hstmts => .seq closeBlock_built fun rbrace w _ =>
    .pure ⟨rfl, hstmts⟩

/-! ### Operands -/

theorem closure_yields (hdeep : deep.Yields source) {params : Params Expr}
    (hparams : params.Ordered 0 (Glyph.widths source)) :
    Yields source t (closure deep pos params) fun e _ => e.BeginsAt source pos := by
  unfold closure
  refine .expect_bind fun u _ _ => (hdeep.expr u).bind fun body v _ hbody => .pure ⟨rfl, ?_⟩
  exact .of_parts rfl (List.forall_mem_cons.2 ⟨hbody, Node.ordered_exprs hparams⟩)

/-- Entries are what each of them promises to be. -/
theorem entries_yields {α : Type} {promise : α → Prop} (closing : Token.Kind) {entry : Parse α}
    (hentry : ∀ t, Yields source t entry fun a _ => promise a) :
    Yields source t (entries closing entry) fun list _ => ∀ a ∈ list, promise a := by
  unfold entries
  refine .seq skipLineBreaks_built fun _ u _ => .loop (fun list _ => ∀ a ∈ list, promise a)
    (List.forall_mem_nil _) fun list v hlist => .kind_bind ?_
  split
  · exact .pure hlist
  · refine (hentry v).bind fun a w _ ha => .seq separator_built fun more x _ => ?_
    have hmore : ∀ b ∈ list ++ [a], promise b :=
      List.forall_mem_append.2 ⟨hlist, List.forall_mem_singleton.2 ha⟩
    split
    · exact .pure hmore
    · exact .pure hmore

theorem array_yields (hdeep : deep.Yields source) :
    Yields source t (array deep) (Expr.ReadFrom source t) := by
  unfold array
  refine .expect_bind fun u _ hu => .readFrom hu ?_
  exact (entries_yields _ hdeep.expr).bind fun elements v _ helements =>
    .expect_bind fun w _ _ => .pure ⟨rfl, .of_parts rfl (Node.ordered_exprs helements)⟩

theorem dictEntry_yields (hdeep : deep.Yields source) :
    Yields source t (dictEntry deep) fun entry _ =>
      entry.value.Ordered 0 (Glyph.widths source) := by
  unfold dictEntry
  exact .pos_bind (.seq dictKey_built fun key u _ => .expect_bind fun v _ _ =>
    (hdeep.expr v).bind fun value w _ hvalue => .pure hvalue)

theorem dict_yields (hdeep : deep.Yields source) :
    Yields source t (dict deep) (Expr.ReadFrom source t) := by
  unfold dict
  refine .expect_bind fun u _ hu => .readFrom hu ?_
  exact (entries_yields _ fun t => dictEntry_yields hdeep).bind fun entries v _ hentries =>
    .expect_bind fun w _ _ => .pure ⟨rfl, .of_parts rfl (List.forall_mem_map.2 hentries)⟩

theorem keyValue_yields (hdeep : deep.Yields source) :
    Yields source t (keyValue deep) fun entry _ =>
      ∀ e ∈ entry.parts, e.Ordered 0 (Glyph.widths source) := by
  unfold keyValue
  refine argName_yields.bind fun key u _ hkey => .accept_bind (fun v _ => ?_) fun _ => ?_
  · exact (hdeep.expr v).bind fun value w _ hvalue =>
      .pure (List.forall_mem_cons.2 ⟨hkey, List.forall_mem_singleton.2 hvalue⟩)
  · exact .pure (List.forall_mem_singleton.2 hkey)

theorem ordered_keyValues {entries : List (KeyValue Expr)}
    (h : ∀ entry ∈ entries, ∀ e ∈ entry.parts, e.Ordered 0 (Glyph.widths source)) :
    ∀ m ∈ (entries.flatMap KeyValue.parts).map Node.expr, m.Ordered 0 (Glyph.widths source) :=
  Node.ordered_exprs (List.forall_mem_flatMap.2 h)

theorem parenthesized_yields (hdeep : deep.Yields source) :
    Yields source t (parenthesized deep) (Expr.ReadFrom source t) := by
  unfold parenthesized
  refine .expect_bind fun u _ hu => .readFrom hu (.token_bind ?_)
  split
  · exact .next_bind fun v _ => (entries_yields _ fun t => keyValue_yields hdeep).bind
      fun list w _ hlist => .expect_bind fun x _ _ =>
        .pure ⟨rfl, .of_parts rfl (ordered_keyValues hlist)⟩
  · refine (argList_yields hdeep).bind fun (args, separated) v _ hargs =>
      .expect_bind fun w _ _ => .kind_bind ?_
    split
    · exact (paramsOfArgs_yields hargs _ _).bind fun params x _ hparams =>
        closure_yields hdeep hparams
    · split
      · next e hsingle =>
        rw [Args.eq_of_single? hsingle] at hargs
        have he : e.Ordered 0 (Glyph.widths source) := hargs e (by simp [Args.parts])
        exact .pure ⟨rfl, .of_parts rfl (List.forall_mem_singleton.2 he)⟩
      · exact .pure ⟨rfl, .of_parts rfl (Node.ordered_exprs hargs)⟩

theorem func_yields (hdeep : deep.Yields source) :
    Yields source t (func deep) (Expr.ReadFrom source t) := by
  unfold func
  refine .expect_bind fun u _ hu => .readFrom hu (.kind_bind ?_)
  refine .ite_bind (fun _ _ => True)
    (fun _ => (Yields.of_built expectIdent_built).map fun _ _ _ _ => trivial)
    (fun _ => .pure trivial) fun name v _ _ => .expect_bind fun w _ _ =>
      (paramList_yields hdeep _).bind fun params x _ hparams => .expect_bind fun y _ _ =>
        .kind_bind ?_
  split
  · exact closure_yields hdeep hparams
  · refine (block_yields hdeep).bind fun body z _ hbody => .pure ⟨rfl, ?_⟩
    obtain ⟨-, -, hbody⟩ := hbody
    exact .intro (List.forall_mem_singleton.2 hbody.toInOrder) (List.forall_mem_append.2
      ⟨Node.ordered_exprs hparams, Node.ordered_block hbody⟩)

theorem load_yields (kind : LoadKind) :
    Yields source t (load kind) (Expr.ReadFrom source t) := by
  unfold load
  refine .pos_bind (.next_bind fun u hu => .readFrom hu (.expect_bind fun v _ _ =>
    .token_bind ?_))
  dsimp only
  split
  · exact .next_bind fun w _ => .expect_bind fun x _ _ => .pure ⟨rfl, .leaf rfl rfl⟩
  · exact .failExpected _

theorem single_yields {e : Expr} (he : e.BeginsAt source t.pos) :
    Yields source t (single e) (Expr.ReadFrom source t) :=
  .next_bind fun _ hu => .pure ⟨he, hu⟩

theorem operand_yields (hdeep : deep.Yields source) :
    Yields source t (operand deep) (Expr.ReadFrom source t) := by
  unfold operand
  refine .token_bind ?_
  dsimp only
  split
  case h_1 =>
    refine .expectIdent_bind fun u hu => .readFrom hu (.kind_bind ?_)
    split
    · exact closure_yields hdeep (List.forall_mem_nil _)
    · exact .pure ⟨rfl, .leaf rfl rfl⟩
  case h_18 => exact array_yields hdeep
  case h_19 => exact dict_yields hdeep
  case h_20 => exact parenthesized_yields hdeep
  case h_21 => exact func_yields hdeep
  case h_22 => exact load_yields _
  case h_23 => exact load_yields _
  case h_24 =>
    refine .next_bind fun u hu => .readFrom hu (.atExprEnd_bind fun ends => ?_)
    split
    · exact .pure ⟨rfl, .leaf rfl rfl⟩
    · exact (hdeep.expr u).bind fun result v _ hresult =>
        .pure ⟨rfl, .of_parts rfl (List.forall_mem_singleton.2 hresult)⟩
  case h_25 => exact .failAt _ _
  all_goals first
    | exact literal_yields
    | exact single_yields ⟨rfl, .leaf rfl rfl⟩

/-! ### What follows an operand -/

theorem selection_yields (hdeep : deep.Yields source) {base : Expr}
    (hbase : base.BeginsAt source pos) :
    Yields source t (selection deep base) fun e _ => e.BeginsAt source pos := by
  unfold selection
  refine .kind_bind (.next_bind fun u _ => .token_bind ?_)
  split
  · exact .next_bind fun v _ => (hdeep.expr v).bind fun name w _ hname =>
      .expect_bind fun x _ _ => .pure ⟨hbase.pos_eq, .of_parts rfl (List.forall_mem_cons.2
        ⟨hbase.ordered, List.forall_mem_singleton.2 hname⟩)⟩
  · split
    · exact .next_bind fun v _ => .pure ⟨hbase.pos_eq, .of_parts rfl (List.forall_mem_cons.2
        ⟨hbase.ordered, List.forall_mem_singleton.2 (.leaf rfl rfl)⟩)⟩
    · exact .failExpected _

theorem sliceEnd_yields (hdeep : deep.Yields source) {base : Expr}
    (hbase : base.BeginsAt source pos) (lbrack : Pos) {low : Option Expr}
    (hlow : ∀ e ∈ low, e.Ordered 0 (Glyph.widths source)) :
    Yields source t (sliceEnd deep base lbrack low) fun e _ => e.BeginsAt source pos := by
  unfold sliceEnd
  refine .next_bind fun u _ => .kind_bind (.ite_bind
    (fun high _ => ∀ e ∈ high, e.Ordered 0 (Glyph.widths source))
    (fun _ => .pure (by simp)) (fun _ => (hdeep.expr u).map fun _ e _ he => by simpa using he)
    fun high v _ hhigh => .expect_bind fun w _ _ => .pure ⟨hbase.pos_eq, .of_parts rfl ?_⟩)
  refine List.forall_mem_cons.2 ⟨hbase.ordered, Node.ordered_exprs ?_⟩
  simpa only [List.forall_mem_append, Option.mem_toList] using ⟨hlow, hhigh⟩

theorem indexOrSlice_yields (hdeep : deep.Yields source) {base : Expr}
    (hbase : base.BeginsAt source pos) :
    Yields source t (indexOrSlice deep base) fun e _ => e.BeginsAt source pos := by
  unfold indexOrSlice
  refine .expect_bind fun u _ _ => .kind_bind ?_
  split
  · exact sliceEnd_yields hdeep hbase _ (by simp)
  · refine (hdeep.expr u).bind fun low v _ hlow => .kind_bind ?_
    split
    · exact sliceEnd_yields hdeep hbase _ (by simpa using hlow)
    · exact .expect_bind fun w _ _ => .pure ⟨hbase.pos_eq, .of_parts rfl
        (List.forall_mem_cons.2 ⟨hbase.ordered, List.forall_mem_singleton.2 hlow⟩)⟩

theorem callArgs_yields (hdeep : deep.Yields source) :
    Yields source t (callArgs deep) fun call _ =>
      call.2.1.All (Expr.Ordered 0 (Glyph.widths source)) := by
  unfold callArgs
  exact .expect_bind fun u _ _ => (argList_yields hdeep).bind fun _ v _ hargs =>
    .expect_bind fun w _ _ => .pure hargs

theorem pipedFunc_yields (hdeep : deep.Yields source) :
    Yields source t (pipedFunc deep) fun f _ => f.Ordered 0 (Glyph.widths source) := by
  unfold pipedFunc
  refine (operand_yields hdeep).bind fun first u _ hfirst =>
    .loop (fun (f : Expr) _ => f.BeginsAt source t.pos) hfirst.toBeginsAt fun f v hf =>
      .kind_bind ?_
  split
  · exact (selection_yields hdeep hf).bind fun _ _ _ h => .pure h
  · exact .pure hf.ordered

theorem pipe_yields (hdeep : deep.Yields source) {first : Expr}
    (hfirst : first.BeginsAt source pos) :
    Yields source t (pipe deep first) fun e _ => e.BeginsAt source pos := by
  unfold pipe
  refine .next_bind fun u _ => (pipedFunc_yields hdeep).bind fun f v _ hf => .kind_bind (.ite_bind
    (fun call _ => call.2.1.All (Expr.Ordered 0 (Glyph.widths source)))
    (fun _ => callArgs_yields hdeep) (fun _ => .pure (List.forall_mem_nil _))
    fun (lparen, args, rparen) w _ hargs => .pure ⟨hfirst.pos_eq, .of_parts rfl ?_⟩)
  refine List.forall_mem_cons.2 ⟨hf, Node.ordered_exprs ?_⟩
  exact hargs.withPositional (List.forall_mem_cons.2 ⟨hfirst.ordered, (Args.all_iff.1 hargs).1⟩)

theorem primary_yields (hdeep : deep.Yields source) :
    Yields source t (primary deep) (Expr.ReadFrom source t) := by
  unfold primary
  refine (operand_yields hdeep).bind fun first u _ hfirst =>
    .loop (fun e v => e.ReadFrom source t v) hfirst fun e v he => .kind_bind ?_
  have hmore {p : Parse Expr} (hp : Yields source v p fun e _ => e.BeginsAt source t.pos) :
      Yields source v (p >>= fun e => pure (.again e))
        (Yields.Keeps (fun e v => e.ReadFrom source t v) (Expr.ReadFrom source t)) :=
    (hp.readFrom he.before).bind fun _ _ _ h => .pure h
  split
  · exact hmore (selection_yields hdeep he.toBeginsAt)
  · exact hmore (selection_yields hdeep he.toBeginsAt)
  · exact hmore (indexOrSlice_yields hdeep he.toBeginsAt)
  · refine (callArgs_yields hdeep).bind fun (lparen, args, rparen) w hw hargs => .pure
      ⟨⟨(call_pos _ _ _ _).trans he.pos_eq, .of_parts rfl ?_⟩, he.before.then hw⟩
    exact List.forall_mem_cons.2 ⟨he.ordered, Node.ordered_exprs hargs⟩
  · exact hmore (pipe_yields hdeep he.toBeginsAt)
  · exact .pure he

/-! ### Operations -/

theorem ordered_unary {lo hi : Pos} {op : UnaryOp} {opPos : Pos} {e : Expr}
    (h : e.Ordered lo hi) : (Expr.unary op opPos e).Ordered lo hi :=
  .of_parts rfl (List.forall_mem_singleton.2 h)

/-- An operator that is written before its operand is no test. -/
theorem unary_pos {kind : Token.Kind} {op : UnaryOp} (h : unaryOp? kind = some op) (opPos : Pos)
    (e : Expr) : (Expr.unary op opPos e).pos = opPos := by
  unfold unaryOp? at h
  split at h <;> cases h <;> rfl

theorem unary_yields (hdeep : deep.Yields source) :
    Yields source t (unary deep) (Expr.ReadFrom source t) := by
  unfold unary
  refine .token_bind ?_
  split
  · next op hop =>
    exact .next_bind fun u hu => .readFrom hu ((hdeep.unary u).bind fun e v _ he =>
      .pure ⟨unary_pos hop _ _, ordered_unary he⟩)
  · exact primary_yields hdeep

theorem ordered_operation {lo hi : Pos} {lhs rhs : Expr} (op : Token.Kind) (opPos : Pos)
    (hlhs : lhs.Ordered lo hi) (hrhs : rhs.Ordered lo hi) :
    (operation lhs op opPos rhs).Ordered lo hi := by
  unfold operation
  split
  · exact ordered_unary hlhs
  · exact ordered_unary hlhs
  · exact .of_parts rfl (List.forall_mem_cons.2 ⟨hlhs, List.forall_mem_singleton.2 hrhs⟩)

theorem binary_yields (hdeep : deep.Yields source) (least : Nat) :
    Yields source t (binary deep least) (Expr.ReadFrom source t) := by
  unfold binary
  refine (unary_yields hdeep).bind fun first u _ hfirst =>
    .loop (fun e v => e.ReadFrom source t v) hfirst fun lhs v hlhs => .token_bind ?_
  dsimp only
  split
  · exact .pure hlhs
  · exact .next_bind fun w hw => (hdeep.binary _ w).bind fun rhs x hx hrhs => .pure
      ⟨⟨(operation_pos _ _ _ _).trans hlhs.pos_eq, ordered_operation _ _ hlhs.ordered hrhs⟩,
        hlhs.before.then (hw.upTo.trans hx)⟩

theorem expr_yields (hdeep : deep.Yields source) :
    Yields source t (expr deep) (Expr.ReadFrom source t) := by
  unfold expr
  refine (binary_yields hdeep 1).bind fun test u hu htest => .kind_bind ?_
  split
  · exact .pure htest
  · refine .pos_bind (.next_bind fun v hv => .readFrom (htest.before.trans hv)
      ((hdeep.expr v).bind fun yes w _ hyes => .token_bind ?_))
    split
    · exact .failAt _ _
    split
    · exact .failExpected _
    · refine .seq (line_built _) fun line x _ => .seq (line_built _) fun line' y _ => ?_
      split
      · exact .failAt _ _
      · exact .next_bind fun z _ => (hdeep.expr z).bind fun no _ _ hno => .pure
          ⟨htest.pos_eq, .of_parts rfl (List.forall_mem_cons.2 ⟨htest.ordered,
            List.forall_mem_cons.2 ⟨hyes, List.forall_mem_singleton.2 hno⟩⟩)⟩

/-- Expressions of which the first begins at a place. -/
structure ListBeginsAt (source : List Glyph) (pos : Pos) (list : List Expr) : Prop where
  first : ∃ first rest, list = first :: rest ∧ first.pos = pos
  ordered : ∀ e ∈ list, e.Ordered 0 (Glyph.widths source)

theorem ListBeginsAt.concat {list : List Expr} (h : ListBeginsAt source pos list) {e : Expr}
    (he : e.Ordered 0 (Glyph.widths source)) : ListBeginsAt source pos (list ++ [e]) := by
  obtain ⟨first, rest, rfl, hpos⟩ := h.first
  exact ⟨⟨first, rest ++ [e], rfl, hpos⟩,
    List.forall_mem_append.2 ⟨h.ordered, List.forall_mem_singleton.2 he⟩⟩

theorem exprs_yields (hdeep : deep.Yields source) :
    Yields source t (exprs deep) fun list u => t.Before u ∧ ListBeginsAt source t.pos list := by
  unfold exprs
  refine (expr_yields hdeep).bind fun first u _ hfirst => .begun hfirst.before ?_
  refine .loop (fun list _ => ListBeginsAt source t.pos list)
    ⟨⟨first, [], rfl, hfirst.pos_eq⟩, List.forall_mem_singleton.2 hfirst.ordered⟩
    fun list v hlist => .accept_bind (fun w _ => ?_) fun _ => .pure hlist
  exact (expr_yields hdeep).bind fun e x _ he => .pure (hlist.concat he.ordered)

end Grammar

end TemplateScript
