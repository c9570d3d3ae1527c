import TemplateScript.Proofs.Grammar.Built
import TemplateScript.Proofs.Tree.WellFormed

/-!
# What arguments and parameters are built of

Every phrase is built of operations on a reader if the phrases inside it are. What is read makes
known where it begins, for that is where a diagnostic about it stands. This module has the phrases
for literals, arguments and parameters.
-/

namespace TemplateScript

open Parse

/-- The phrases inside a phrase are built of operations on a reader. -/
structure Nested.Built (deep : Nested) : Prop where
  expr : Parse.Built [] deep.expr fun e => [e.pos]
  binary (least : Nat) : Parse.Built [] (deep.binary least) fun e => [e.pos]
  unary : Parse.Built [] deep.unary fun e => [e.pos]
  stmts : Parse.Built [] deep.stmts fun _ => []
  ifStmt : Parse.Built [] deep.ifStmt fun _ => []

/-- Where arguments begin. -/
def Args.marks (args : Args Expr) : List Nat := args.parts.map Expr.pos

theorem Args.marks_subset_iff {args : Args Expr} {known : List Nat} :
    args.marks ⊆ known ↔ args.All (·.pos ∈ known) := by
  simp [marks, All, List.subset_def]

namespace Grammar

variable {known : List Nat} {deep : Nested}

/-! ### Literals and names -/

theorem literal_built : Built known literal fun e => [e.pos] := by
  refine .bind .token fun t => .bind .next fun _ => ?_
  split
  · exact .pure (by simp [Expr.pos])
  · exact .bind (.errorAt (by simp) _) fun _ => .pure (by simp [Expr.pos])

theorem typedIdent_built : Built known typedIdent fun _ => [] := by
  refine .bind expectIdent_built fun ident => .bind (accept_built _) fun announced =>
    .bind kind_built fun kind => ?_
  split
  · refine .bind expectIdent_built fun first => .seq
      (.loop (fun _ => []) (by simp) fun types known _ => .bind (accept_built _) fun accepted => ?_)
      fun types => .pure (by simp)
    split
    · exact .bind expectIdent_built fun type => .pure (by simp)
    · exact .pure (by simp)
  · exact .pure (by simp)

/-! ### Parameters -/

theorem param_built (hdeep : deep.Built) (list : ParamList) :
    Built known (param deep list) fun _ => [] := by
  refine .bind pos_built fun pos => .bind kind_built fun kind => ?_
  split
  · split
    · exact failAt_built (by simp) _
    · split
      · exact failAt_built (by simp) _
      · exact .bind .next fun _ => .bind typedIdent_built fun ident => .pure (by simp)
  · split
    · exact failAt_built (by simp) _
    · exact .bind .next fun _ => .bind typedIdent_built fun ident => .pure (by simp)
  · refine .bind typedIdent_built fun ident => .bind kind_built fun kind => ?_
    split
    · split
      · exact failAt_built (by simp) _
      · exact .bind .next fun _ => .bind hdeep.expr.anywhere fun value => .pure (by simp)
    · split
      · exact failAt_built (by simp) _
      · split
        · exact failAt_built (by simp) _
        · exact .pure (by simp)

theorem paramList_built (hdeep : deep.Built) (lparen : Pos) :
    Built known (paramList deep lparen) fun _ => [] := by
  refine .loop (fun _ => []) (by simp) fun list known _ => .bind skipLineBreaks_built fun _ =>
    .bind kind_built fun kind => ?_
  split
  · exact .pure (by simp)
  · refine .bind .token fun t => ?_
    split
    · split
      · exact failExpected_built _
      · exact .bind .next fun _ => .pure (by simp)
    · refine .bind (param_built hdeep list) fun list => .bind skipLineBreaks_built fun lineEnded =>
        .bind kind_built fun kind => ?_
      split
      · exact .bind .next fun _ => .pure (by simp)
      · exact .pure (by simp)
      · split
        · exact .pure (by simp)
        · exact .pure (by simp)

/-! ### Arguments -/

theorem argName_built : Built known argName fun e => [e.pos] := by
  refine .bind kind_built fun kind => ?_
  split
  · exact .bind expectIdent_built fun ident => .pure (by simp [Expr.pos])
  · split
    · exact literal_built
    · exact failExpected_built _

theorem arg_built (hdeep : deep.Built) {list : ArgList}
    (hlist : list.args.All (·.pos ∈ known)) :
    Built known (arg deep list) fun list => list.args.marks := by
  refine .bind pos_built fun pos => .bind kind_built fun kind => ?_
  -- What is known of the arguments read before stays known whatever is read of this one.
  have hread {more : List Nat} (hmore : ∀ o ∈ known, o ∈ more) : list.args.All (·.pos ∈ more) :=
    fun e he => hmore e.pos (hlist e he)
  split
  · split
    · exact failAt_built (by simp) _
    · split
      · exact failAt_built (by simp) _
      · exact .bind .next fun _ => .bind hdeep.expr.anywhere fun e =>
          .pure (Args.marks_subset_iff.2 ((hread (by simp +contextual)).withSpread (by simp)))
  · split
    · exact failAt_built (by simp) _
    · exact .bind .next fun _ => .bind hdeep.expr.anywhere fun e =>
        .pure (Args.marks_subset_iff.2 ((hread (by simp +contextual)).withNamedSpread (by simp)))
  · split
    · split
      · exact failAt_built (by simp) _
      · refine .bind argName_built fun name => .bind (accept_built _) fun accepted => ?_
        split
        · exact .bind hdeep.expr.anywhere fun value =>
            .pure (Args.marks_subset_iff.2 ((hread (by simp +contextual)).withNamed (by simp) (by simp)))
        · exact .pure (Args.marks_subset_iff.2
            ((hread (by simp +contextual)).withNamed (by simp) (by simp [Expr.pos])))
    · refine .bind hdeep.expr.anywhere fun e => .bind kind_built fun kind => ?_
      split
      · exact .bind .next fun _ => .bind hdeep.expr.anywhere fun value =>
          .pure (Args.marks_subset_iff.2 ((hread (by simp +contextual)).withNamed (by simp) (by simp)))
      · split
        · exact failAt_built (by simp) _
        · exact .pure (Args.marks_subset_iff.2 ((hread (by simp +contextual)).withArg (by simp)))

theorem argList_built (hdeep : deep.Built) :
    Built known (argList deep) fun read => read.1.marks := by
  refine .loop (fun list : ArgList => list.args.marks) (by simp [Args.marks, Args.parts])
    fun list known hlist => .bind skipLineBreaks_built fun _ => .bind kind_built fun kind => ?_
  split
  · exact .pure (by simpa using hlist)
  · refine .bind .token fun t => ?_
    split
    · split
      · exact failExpected_built _
      · exact .bind .next fun _ => .pure fun o ho => by simp [hlist ho]
    · refine .bind (arg_built hdeep ?_) fun list => .bind skipLineBreaks_built fun _ =>
        .bind kind_built fun kind => ?_
      · exact fun e he => by simp [Args.marks_subset_iff.1 hlist e he]
      · split
        · exact .bind .next fun _ => .pure (by simp)
        · exact .pure (by simp)
        · exact .pure (by simp)

/-! ### Parameters written as arguments -/

theorem paramOfExpr_built {e : Expr} (he : e.pos ∈ known) :
    Built known (paramOfExpr e) fun _ => [] := by
  unfold paramOfExpr
  split
  · exact .pure (by simp)
  · exact failAt_built he _

theorem paramOfExpr?_built {e? : Option Expr} (he : ∀ e ∈ e?, e.pos ∈ known) :
    Built known (paramOfExpr? e?) fun _ => [] := by
  cases e? with
  | none => exact .pure (by simp)
  | some e => exact .bind (paramOfExpr_built (he e rfl)) fun ident => .pure (by simp)

theorem paramsOfExprs_built {list : List Expr} (hlist : ∀ e ∈ list, e.pos ∈ known) :
    Built known (paramsOfExprs list) fun _ => [] := by
  induction list generalizing known with
  | nil => exact .pure (by simp)
  | cons e rest ih =>
    obtain ⟨he, hrest⟩ := List.forall_mem_cons.1 hlist
    exact .bind (paramOfExpr_built he) fun ident => .bind (ih hrest) fun others => .pure (by simp)

theorem paramsOfNamed_built {named : List (Expr × Expr)}
    (hnamed : ∀ arg ∈ named, arg.1.pos ∈ known) :
    Built known (paramsOfNamed named) fun _ => [] := by
  induction named generalizing known with
  | nil => exact .pure (by simp)
  | cons arg rest ih =>
    obtain ⟨harg, hrest⟩ := List.forall_mem_cons.1 hnamed
    exact .bind (paramOfExpr_built harg) fun ident => .bind (ih hrest) fun others => .pure (by simp)

theorem paramsOfArgs_built {args : Args Expr} (hargs : args.All (·.pos ∈ known))
    (lparen rparen : Pos) : Built known (paramsOfArgs lparen args rparen) fun _ => [] := by
  obtain ⟨hpositional, hspread, hnamed, hnamedSpread⟩ := Args.all_iff.1 hargs
  exact .bind (paramsOfExprs_built hpositional) fun _ => .bind (paramOfExpr?_built hspread) fun _ =>
    .bind (paramsOfNamed_built fun arg harg => (hnamed arg harg).1) fun _ =>
      .bind (paramOfExpr?_built hnamedSpread) fun _ => .pure (by simp)

end Grammar

end TemplateScript
