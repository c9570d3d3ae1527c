import TemplateScript.Proofs.Built.Document
import TemplateScript.Proofs.Grammar.Yield
import TemplateScript.Proofs.Tree.InOrder

/-!
# Arguments and parameters with statements in order

A function among arguments, or in the default of a parameter, has a block of its own. Whatever is
read has its statements in order, if the phrases inside it keep them so.
-/

namespace TemplateScript

variable {source : List Glyph}

/-- The phrases inside a phrase read trees with their statements in order. -/
structure Nested.Yields (source : List Glyph) (deep : Nested) : Prop where
  expr (t : Token) : Parse.Yields source t deep.expr fun e _ => e.Ordered 0 (Glyph.widths source)
  binary (least : Nat) (t : Token) :
    Parse.Yields source t (deep.binary least) fun e _ => e.Ordered 0 (Glyph.widths source)
  unary (t : Token) :
    Parse.Yields source t deep.unary fun e _ => e.Ordered 0 (Glyph.widths source)
  stmts (t : Token) :
    Parse.Yields source t deep.stmts fun list _ => OrderedStmts 0 (Glyph.widths source) list
  ifStmt (t : Token) :
    Parse.Yields source t deep.ifStmt fun s _ => s.Ordered 0 (Glyph.widths source)

namespace Node

/-- A node begins at a place, with all statements in it in order. -/
structure BeginsAt (source : List Glyph) (pos : Pos) (node : Node) : Prop where
  pos_eq : node.pos = pos
  ordered : node.Ordered 0 (Glyph.widths source)

/-- A node begins with one token and ends before another. -/
structure ReadFrom (source : List Glyph) (t : Token) (node : Node) (u : Token) : Prop
    extends node.BeginsAt source t.pos where
  before : t.Before u

end Node

/-- An expression begins at a place, with all statements in it in order. -/
abbrev Expr.BeginsAt (source : List Glyph) (pos : Pos) (e : Expr) : Prop :=
  (Node.expr e).BeginsAt source pos

/-- An expression begins with one token and ends before another. -/
abbrev Expr.ReadFrom (source : List Glyph) (t : Token) (e : Expr) (u : Token) : Prop :=
  (Node.expr e).ReadFrom source t u

/-- A statement begins at a place, with all statements in it in order. -/
abbrev Stmt.BeginsAt (source : List Glyph) (pos : Pos) (s : Stmt) : Prop :=
  (Node.stmt s).BeginsAt source pos

/-- A statement begins with one token and ends before another. -/
abbrev Stmt.ReadFrom (source : List Glyph) (t : Token) (s : Stmt) (u : Token) : Prop :=
  (Node.stmt s).ReadFrom source t u

/-- What begins with a token that is used ends before another one. -/
theorem Parse.Yields.readFrom {α : Type} {f : α → Node} {s t : Token} {p : Parse α}
    (hs : s.Before t) (h : Parse.Yields source t p fun a _ => (f a).BeginsAt source s.pos) :
    Parse.Yields source t p fun a u => (f a).ReadFrom source s u :=
  h.promised fun _ _ hu ha => ⟨ha, hs.then hu⟩

namespace Grammar

open Parse

variable {deep : Nested} {t : Token}

/-! ### Literals and parameters -/

theorem literal_yields : Yields source t literal (Expr.ReadFrom source t) := by
  unfold literal
  refine .token_bind (.next_bind fun u hu => ?_)
  split
  · exact .pure ⟨⟨rfl, .leaf rfl rfl⟩, hu⟩
  · exact .errorAt_bind _ _ (.pure ⟨⟨rfl, .leaf rfl rfl⟩, hu⟩)

theorem param_yields (hdeep : deep.Yields source) {list : ParamList}
    (hlist : list.params.Ordered 0 (Glyph.widths source)) :
    Yields source t (param deep list) fun list _ =>
      list.params.Ordered 0 (Glyph.widths source) := by
  unfold param
  refine .pos_bind (.kind_bind ?_)
  split
  · split
    · exact .failAt _ _
    · split
      · exact .failAt _ _
      · exact .next_bind fun u _ => .seq typedIdent_built fun ident v _ => .pure hlist
  · split
    · exact .failAt _ _
    · exact .next_bind fun u _ => .seq typedIdent_built fun ident v _ => .pure hlist
  · refine .seq typedIdent_built fun ident u _ => .kind_bind ?_
    split
    · split
      · exact .failAt _ _
      · exact .next_bind fun v _ => (hdeep.expr v).bind fun value w _ hvalue =>
          .pure (hlist.withNamed ident hvalue)
    · split
      · exact .failAt _ _
      · split
        · exact .failAt _ _
        · exact .pure hlist

theorem paramList_yields (hdeep : deep.Yields source) (lparen : Pos) :
    Yields source t (paramList deep lparen) fun params _ =>
      params.Ordered 0 (Glyph.widths source) := by
  unfold paramList
  refine .loop (fun (list : ParamList) _ => list.params.Ordered 0 (Glyph.widths source))
    (List.forall_mem_nil _) fun list u hlist => .seq skipLineBreaks_built fun _ v _ =>
      .kind_bind ?_
  split
  · exact .pure hlist
  · refine .token_bind ?_
    split
    · split
      · exact .failExpected _
      · exact .next_bind fun w _ => .pure hlist
    · refine (param_yields hdeep hlist).bind fun list w _ hlist =>
        .seq skipLineBreaks_built fun lineEnded x _ => .kind_bind ?_
      split
      · exact .next_bind fun y _ => .pure hlist
      · exact .pure hlist
      · split
        · exact .pure hlist
        · exact .pure hlist

/-! ### Arguments -/

theorem argName_yields :
    Yields source t argName fun e _ => e.Ordered 0 (Glyph.widths source) := by
  unfold argName
  refine .kind_bind ?_
  split
  · exact .expectIdent_bind fun u _ => .pure (.leaf rfl rfl)
  · split
    · exact literal_yields.promised fun _ _ _ h => h.ordered
    · exact .failExpected _

theorem arg_yields (hdeep : deep.Yields source) {list : ArgList}
    (hlist : list.args.All (Expr.Ordered 0 (Glyph.widths source))) :
    Yields source t (arg deep list) fun list _ =>
      list.args.All (Expr.Ordered 0 (Glyph.widths source)) := by
  unfold arg
  refine .pos_bind (.kind_bind ?_)
  split
  · split
    · exact .failAt _ _
    · split
      · exact .failAt _ _
      · exact .next_bind fun u _ => (hdeep.expr u).bind fun e v _ he => .pure (hlist.withSpread he)
  · split
    · exact .failAt _ _
    · exact .next_bind fun u _ => (hdeep.expr u).bind fun e v _ he =>
        .pure (hlist.withNamedSpread he)
  · split
    · split
      · exact .failAt _ _
      · refine argName_yields.bind fun name u _ hname => .accept_bind (fun v _ => ?_) fun _ => ?_
        · exact (hdeep.expr v).bind fun value w _ hvalue => .pure (hlist.withNamed hname hvalue)
        · exact .pure (hlist.withNamed hname (.leaf rfl rfl))
    · refine (hdeep.expr t).bind fun e u _ he => .kind_bind ?_
      split
      · exact .next_bind fun v _ => (hdeep.expr v).bind fun value w _ hvalue =>
          .pure (hlist.withNamed he hvalue)
      · split
        · exact .failAt _ _
        · exact .pure (hlist.withArg he)

theorem argList_yields (hdeep : deep.Yields source) :
    Yields source t (argList deep) fun read _ =>
      read.1.All (Expr.Ordered 0 (Glyph.widths source)) := by
  unfold argList
  refine .loop (fun (list : ArgList) _ => list.args.All (Expr.Ordered 0 (Glyph.widths source)))
    (List.forall_mem_nil _) fun list u hlist => .seq skipLineBreaks_built fun _ v _ =>
      .kind_bind ?_
  split
  · exact .pure hlist
  · refine .token_bind ?_
    split
    · split
      · exact .failExpected _
      · exact .next_bind fun w _ => .pure hlist
    · refine (arg_yields hdeep hlist).bind fun list w _ hlist =>
        .seq skipLineBreaks_built fun _ x _ => .kind_bind ?_
      split
      · exact .next_bind fun y _ => .pure hlist
      · exact .pure hlist
      · exact .pure hlist

/-! ### Parameters written as arguments -/

theorem paramOfExpr_yields (e : Expr) : Yields source t (paramOfExpr e) fun _ _ => True := by
  unfold paramOfExpr
  split
  · exact .pure trivial
  · exact .failAt _ _

theorem paramOfExpr?_yields (e : Option Expr) :
    Yields source t (paramOfExpr? e) fun _ _ => True := by
  cases e with
  | none => exact .pure trivial
  | some e => exact (paramOfExpr_yields e).map fun _ _ _ _ => trivial

theorem paramsOfExprs_yields (list : List Expr) :
    Yields source t (paramsOfExprs list) fun _ _ => True := by
  induction list generalizing t with
  | nil => exact .pure trivial
  | cons e rest ih =>
    exact (paramOfExpr_yields e).bind fun _ _ _ _ => ih.bind fun _ _ _ _ => .pure trivial

/-- Named arguments keep their values when they become parameters. -/
theorem paramsOfNamed_yields (named : List (Expr × Expr)) :
    Yields source t (paramsOfNamed named) fun list _ => list.map (·.2) = named.map (·.2) := by
  induction named generalizing t with
  | nil => exact .pure rfl
  | cons arg rest ih =>
    refine (paramOfExpr_yields arg.1).bind fun _ u _ _ => ih.bind fun list v _ hlist => .pure ?_
    rw [List.map_cons, List.map_cons, hlist]

theorem paramsOfArgs_yields {args : Args Expr}
    (hargs : args.All (Expr.Ordered 0 (Glyph.widths source))) (lparen rparen : Pos) :
    Yields source t (paramsOfArgs lparen args rparen) fun params _ =>
      params.Ordered 0 (Glyph.widths source) := by
  unfold paramsOfArgs
  refine (paramsOfExprs_yields _).bind fun _ u _ _ => (paramOfExpr?_yields _).bind fun _ v _ _ =>
    (paramsOfNamed_yields _).bind fun named w _ hnamed => (paramOfExpr?_yields _).bind
      fun _ x _ _ => .pure ?_
  intro e he
  rw [Params.defaults, hnamed] at he
  obtain ⟨arg, harg, rfl⟩ := List.mem_map.1 he
  exact ((Args.all_iff.1 hargs).2.2.1 arg harg).2

end Grammar

end TemplateScript
