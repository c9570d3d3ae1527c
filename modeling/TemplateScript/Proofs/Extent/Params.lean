import TemplateScript.Proofs.Grammar.Cover
import TemplateScript.Proofs.Tree.Extent

/-!
# Extents of arguments and parameters

What is read between two tokens lies between them. Arguments that are names alone are the exception:
the flag that stands for the value of one is longer than the name may be.
-/

namespace TemplateScript

/-- Phrases that read trees between the token they begin at and the one behind them. -/
structure Nested.Covers (deep : Nested) : Prop where
  expr (t : Token) : Parse.Covers True t deep.expr fun e u => e.Within t.pos u.pos
  binary (least : Nat) (t : Token) :
    Parse.Covers True t (deep.binary least) fun e u => e.Within t.pos u.pos
  unary (t : Token) : Parse.Covers True t deep.unary fun e u => e.Within t.pos u.pos
  stmts (t : Token) :
    Parse.Covers True t deep.stmts fun list u => ∀ s ∈ list, s.Within t.pos u.pos
  ifStmt (t : Token) : Parse.Covers True t deep.ifStmt fun s u => s.Within t.pos u.pos

namespace Grammar

open Parse

variable {given : Prop} {deep : Nested} {t : Token} {lo : Pos}

/-! ### Names and literals -/

theorem within_ident {u : Token} (hkind : t.kind = .ident) (hu : t.Precedes u) :
    (Expr.ident ⟨t.literal, t.pos⟩).Within t.pos u.pos :=
  .leaf rfl (Nat.le_refl _) (Nat.le_add_right ..) (hu.name_le (.inl hkind)).2

/-- A literal without a value is recorded. -/
theorem literal_covers (hkind : t.kind ∈ literalKinds) :
    Covers given t literal fun e u =>
      e.Within t.pos u.pos ∧ e.pos = t.pos ∧ t.pos < u.pos := by
  unfold literal
  refine .token_bind (.next_bind fun u hu => ?_)
  obtain ⟨hlt, hstop⟩ := hu.name_le (.inr hkind)
  split
  · exact .pure fun _ => ⟨.leaf rfl (Nat.le_refl _) (Nat.le_add_right ..) hstop, rfl, hlt⟩
  · exact (Covers.errorAt _ _).bind fun _ _ _ => .pure fun h => h.1.elim

/-- The types of a name, of which there is at least one. -/
theorem types_covers {ident : Ident} (hlo : lo ≤ t.pos) :
    Covers given t (do
      let first ← expectIdent
      let types ← loop [first] fun types => do
        if ← accept .or then
          let type ← expectIdent
          return .again (types ++ [type])
        else return .done types
      return ⟨ident, types⟩)
      fun (ident : TypedIdent) u => lo ≤ ident.stop ∧ ident.stop ≤ u.pos := by
  refine .expectIdent_bind fun u hkind hu => ?_
  have hfirst := (hu.name_le (.inl hkind)).2
  refine (Covers.loop_kept (fun types u => ∃ last ∈ types.getLast?, lo ≤ last.stop ∧
    last.stop ≤ u.pos) (fun _ => ⟨_, rfl, Nat.le_trans hlo (Nat.le_add_right ..), hfirst⟩)
    fun types v hv => ?_).bind fun types v hv => .pure ?_
  · refine .accept_bind (fun w hor hw => ?_) fun _ => .pure fun h => h.1
    refine .expectIdent_bind fun x hkind hx => .pure fun _ => ?_
    refine ⟨_, List.getLast?_concat, Nat.le_trans ?_ (Nat.le_add_right ..),
      (hx.name_le (.inl hkind)).2⟩
    exact Nat.le_trans hlo (Nat.le_trans hu.le (Nat.le_trans hv hw.le))
  · rintro ⟨⟨last, hlast, hends⟩, -⟩
    rw [TypedIdent.stop, Option.mem_def.1 hlast]
    exact hends

theorem typedIdent_covers :
    Covers given t typedIdent fun ident u => t.pos ≤ ident.stop ∧ ident.stop ≤ u.pos := by
  unfold typedIdent
  refine .expectIdent_bind fun u hkind hu => ?_
  have hbare : t.pos ≤ (⟨⟨t.literal, t.pos⟩, []⟩ : TypedIdent).stop := Nat.le_add_right ..
  have hname := (hu.name_le (.inl hkind)).2
  refine .accept_bind (fun v _ hv => .kind_bind ?_) fun _ => .kind_bind ?_
  · exact types_covers (Nat.le_trans hu.le hv.le)
  · split
    · exact types_covers hu.le
    · exact .pure fun _ => ⟨hbare, hname⟩

/-! ### Parameters -/

/-- The defaults of parameters lie in a range. -/
def DefaultsWithin (lo hi : Pos) (params : Params Expr) : Prop :=
  ∀ e ∈ params.defaults, e.Within lo hi

theorem DefaultsWithin.mono {hi hi' : Pos} {params : Params Expr}
    (h : DefaultsWithin lo hi params) (hhi : hi ≤ hi') :
    DefaultsWithin lo hi' params :=
  fun e he => (h e he).mono (Nat.le_refl _) hhi

theorem param_covers (hdeep : deep.Covers) (hlo : lo ≤ t.pos) (list : ParamList) :
    Covers (DefaultsWithin lo t.pos list.params ∧ given) t (param deep list)
      fun list u => DefaultsWithin lo u.pos list.params := by
  unfold param
  refine .pos_bind (.kind_bind ?_)
  split
  · split
    · exact .failAt _ _
    · split
      · exact .failAt _ _
      · exact .next_bind fun u hu => typedIdent_covers.bind fun ident v hv => .pure fun h =>
          h.2.1.mono (Nat.le_trans hu.le hv)
  · split
    · exact .failAt _ _
    · exact .next_bind fun u hu => typedIdent_covers.bind fun ident v hv => .pure fun h =>
        h.2.1.mono (Nat.le_trans hu.le hv)
  · refine typedIdent_covers.bind fun ident u hu => .kind_bind ?_
    split
    · split
      · exact .failAt _ _
      · refine .next_bind fun v hv => ((hdeep.expr v).weaken fun _ => trivial).bind
          fun value w hw => .pure ?_
        rintro ⟨hvalue, -, hlist, -⟩ e he
        simp only [Params.defaults, List.map_append, List.map_cons, List.map_nil] at he
        rcases List.mem_append.1 he with he | he
        · exact (hlist e he).mono (Nat.le_refl _) (Nat.le_trans hu (Nat.le_trans hv.le hw))
        · rw [List.mem_singleton.1 he]
          exact hvalue.mono (Nat.le_trans hlo (Nat.le_trans hu hv.le)) (Nat.le_refl _)
    · split
      · exact .failAt _ _
      · split
        · exact .failAt _ _
        · exact .pure fun h => h.2.1.mono hu

theorem paramList_covers (hdeep : deep.Covers) (lparen : Pos) :
    Covers given t (paramList deep lparen) fun params u =>
      DefaultsWithin t.pos u.pos params := by
  unfold paramList
  refine .loop (fun (list : ParamList) u => DefaultsWithin t.pos u.pos list.params)
    (fun _ e he => by simp [Params.defaults] at he) fun list u hu => ?_
  refine Covers.skipLineBreaks.bind fun _ v hv => .kind_bind ?_
  split
  · exact .pure fun h => h.2.1.mono hv
  · refine .token_bind ?_
    split
    · split
      · exact .failExpected _
      · exact .next_bind fun w hw => .pure fun h => h.2.1.mono (Nat.le_trans hv hw.le)
    · refine ((param_covers hdeep (Nat.le_trans hu hv) list).weaken fun h =>
        ⟨h.2.1.mono hv, trivial⟩).bind fun list w hw => Covers.skipLineBreaks.bind
        fun lineEnded x hx => .kind_bind ?_
      split
      · exact .next_bind fun y hy => .pure fun h => h.2.1.mono (Nat.le_trans hx hy.le)
      · exact .pure fun h => h.2.1.mono hx
      · split
        · exact .pure fun h => h.2.1.mono hx
        · exact .pure fun h => h.2.1.mono hx

/-! ### Arguments -/

theorem argName_covers :
    Covers given t argName fun e u =>
      e.Within t.pos u.pos ∧ e.pos = t.pos ∧ t.pos < u.pos := by
  have hsubset : nameLiteralKinds ⊆ literalKinds := by decide
  unfold argName
  refine .kind_bind ?_
  split
  · refine .expectIdent_bind fun u hkind hu => .pure fun _ => ?_
    exact ⟨within_ident hkind hu, rfl, (hu.name_le (.inl hkind)).1⟩
  · split
    · next hkind => exact literal_covers (hsubset (List.contains_iff_mem.1 hkind))
    · exact .failExpected _

/-- The flag that stands for the value of a name alone may be longer than the name, by two bytes if
the name has one. -/
theorem within_flag {hi : Pos} {sure : Prop} (hlo : lo ≤ t.pos) (hhi : t.pos < hi)
    (hsure : ¬ sure) :
    (Node.expr (.literal ⟨.flag true, "yes", t.pos⟩)).WithinIf sure lo hi := by
  refine .closed_if hlo (Nat.le_refl _) (Nat.le_add_right ..) (Nat.le_of_lt hhi) ?_
    (List.forall_mem_nil _)
  rintro slack (hslack | hwritten)
  · change t.pos + 3 ≤ hi + slack
    lia
  · exact absurd hwritten.1 hsure

theorem arg_covers (hdeep : deep.Covers) (hlo : lo ≤ t.pos) (list : ArgList) :
    Covers (list.args.Within lo t.pos ∧ given) t (arg deep list)
      fun list u => list.args.Within lo u.pos := by
  have hexpr (given : Prop) (t : Token) := (hdeep.expr t).weaken fun _ : given => trivial
  unfold arg
  refine .pos_bind (.kind_bind ?_)
  split
  · split
    · exact .failAt _ _
    · split
      · exact .failAt _ _
      · refine .next_bind fun u hu => (hexpr _ u).bind fun e v hv => .pure ?_
        rintro ⟨he, hlist, -⟩
        exact (hlist.mono (Nat.le_refl _) (Nat.le_trans hu.le hv)).withSpread
          (he.mono (Nat.le_trans hlo hu.le) (Nat.le_refl _))
  · split
    · exact .failAt _ _
    · refine .next_bind fun u hu => (hexpr _ u).bind fun e v hv => .pure ?_
      rintro ⟨he, hlist, -⟩
      exact (hlist.mono (Nat.le_refl _) (Nat.le_trans hu.le hv)).withNamedSpread
        (he.mono (Nat.le_trans hlo hu.le) (Nat.le_refl _))
  · split
    · split
      · exact .failAt _ _
      · refine (argName_covers).bind fun name u hu => .accept_bind (fun v _ hv => ?_) fun _ => ?_
        · refine (hexpr _ v).bind fun value w hw => .pure ?_
          rintro ⟨hvalue, ⟨hname, -⟩, hlist, -⟩
          have hend := Nat.le_trans hv.le hw
          exact (hlist.mono (Nat.le_refl _) (Nat.le_trans hu hend)).withNamed
            (hname.mono hlo hend)
            (hvalue.mono (Nat.le_trans hlo (Nat.le_trans hu hv.le)) (Nat.le_refl _)).anywhere
        · refine .pure ?_
          rintro ⟨⟨hname, hpos, hlt⟩, hlist, -⟩
          refine (hlist.mono (Nat.le_refl _) hu).withNamed (hname.mono hlo (Nat.le_refl _)) ?_
          exact within_flag hlo hlt fun hne => hne hpos.symm
    · refine (hexpr _ t).bind fun e u hu => .kind_bind ?_
      split
      · refine .next_bind fun v hv => (hexpr _ v).bind fun value w hw => .pure ?_
        rintro ⟨hvalue, he, hlist, -⟩
        have hend := Nat.le_trans hv.le hw
        exact (hlist.mono (Nat.le_refl _) (Nat.le_trans hu hend)).withNamed (he.mono hlo hend)
          (hvalue.mono (Nat.le_trans hlo (Nat.le_trans hu hv.le)) (Nat.le_refl _)).anywhere
      · split
        · exact .failAt _ _
        · exact .pure fun ⟨he, hlist, _⟩ => (hlist.mono (Nat.le_refl _) hu).withArg
            (he.mono hlo (Nat.le_refl _))

theorem argList_covers (hdeep : deep.Covers) :
    Covers given t (argList deep) fun list u => list.1.Within t.pos u.pos := by
  unfold argList
  refine .loop (fun (list : ArgList) u => list.args.Within t.pos u.pos)
    (fun _ => .empty) fun list u hu => ?_
  refine Covers.skipLineBreaks.bind fun _ v hv => .kind_bind ?_
  split
  · exact .pure fun h => h.2.1.mono (Nat.le_refl _) hv
  · refine .token_bind ?_
    split
    · split
      · exact .failExpected _
      · exact .next_bind fun w hw => .pure fun h =>
          h.2.1.mono (Nat.le_refl _) (Nat.le_trans hv hw.le)
    · refine ((arg_covers hdeep (Nat.le_trans hu hv) list).weaken fun h =>
        ⟨h.2.1.mono (Nat.le_refl _) hv, trivial⟩).bind fun list w hw =>
        Covers.skipLineBreaks.bind fun _ x hx => .kind_bind ?_
      split
      · exact .next_bind fun y hy => .pure fun h =>
          h.2.1.mono (Nat.le_refl _) (Nat.le_trans hx hy.le)
      · exact .pure fun h => h.2.1.mono (Nat.le_refl _) hx
      · exact .pure fun h => h.2.1.mono (Nat.le_refl _) hx

/-! ### Parameters written as arguments -/

theorem paramOfExpr_covers (e : Expr) :
    Covers given t (paramOfExpr e) fun param _ => e = .ident param.ident := by
  unfold paramOfExpr
  split
  · next ident hident =>
    refine .pure fun _ => ?_
    cases e with
    | ident id => rw [Option.some.inj hident]
    | _ => cases hident
  · exact .failAt _ _

theorem paramOfExpr?_covers (e : Option Expr) :
    Covers given t (paramOfExpr? e) fun _ _ => True := by
  cases e with
  | none => exact .pure fun _ => trivial
  | some e => exact (paramOfExpr_covers e).bind fun _ _ _ => .pure fun _ => trivial

theorem paramsOfExprs_covers (list : List Expr) :
    Covers given t (paramsOfExprs list) fun _ _ => True := by
  induction list generalizing given t with
  | nil => exact .pure fun _ => trivial
  | cons e rest ih =>
    exact (paramOfExpr_covers e).bind fun _ _ _ => ih.bind fun _ _ _ => .pure fun _ => trivial

/-- Named arguments keep their names and values when they become parameters. -/
theorem paramsOfNamed_covers (named : List (Expr × Expr)) :
    Covers given t (paramsOfNamed named) fun list _ =>
      named = list.map fun param => (.ident param.1.ident, param.2) := by
  induction named generalizing given t with
  | nil => exact .pure fun _ => rfl
  | cons arg rest ih =>
    refine (paramOfExpr_covers arg.1).bind fun param u _ => ih.bind fun list v _ => .pure ?_
    rintro ⟨hrest, hname, -⟩
    rw [List.map_cons, ← hrest, ← hname]

theorem paramsOfArgs_covers (lparen : Pos) (args : Args Expr) (rparen : Pos) :
    Covers (args.Within lo t.pos ∧ given) t (paramsOfArgs lparen args rparen)
      fun params u => params.Within lo u.pos := by
  unfold paramsOfArgs
  refine (paramsOfExprs_covers _).bind fun _ u hu => (paramOfExpr?_covers _).bind fun _ v hv =>
    (paramsOfNamed_covers _).bind fun named w hw => (paramOfExpr?_covers _).bind fun _ x hx =>
      .pure ?_
  rintro ⟨-, hnamed, -, -, hargs, -⟩ e he
  obtain ⟨param, hparam, rfl⟩ := List.mem_map.1 he
  have harg : (Expr.ident param.1.ident, param.2) ∈ args.named := by
    rw [hnamed]
    exact List.mem_map_of_mem hparam
  have hvalue := ((Args.all_iff.1 hargs).2.2.1 _ harg).2
  have hend := Nat.le_trans hu (Nat.le_trans hv (Nat.le_trans hw hx))
  refine (hvalue.mono (Nat.le_refl _) hend).surely fun hwritten arg harg => ?_
  rw [hnamed] at harg
  obtain ⟨param, hparam, rfl⟩ := List.mem_map.1 harg
  exact hwritten param hparam

end Grammar

end TemplateScript
