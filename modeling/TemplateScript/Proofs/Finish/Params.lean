import TemplateScript.Grammar.Document
import TemplateScript.Proofs.Grammar.Finish
import TemplateScript.Proofs.Tree.WellFormed

/-!
# Arguments and parameters that end

Every phrase comes to an end, under the assumption that the phrases inside it do so once a token has
been taken. What is read begins in the source, so that a diagnostic about it has a place there. This
module has the phrases for literals, arguments and parameters.
-/

namespace TemplateScript

open Parse

/-- The phrases inside a phrase come to an end once a token has been taken. -/
structure Nested.Finishes (source : List Glyph) (sure : Prop) (depth : Nat) (deep : Nested) :
    Prop where
  expr {near moved : Bool} {seen : Token → Prop} (h : (moved || near) = true) :
    Parse.Finishes ⟨source, sure, depth, near⟩ moved seen deep.expr (·.pos ≤ Glyph.widths source)
      fun _ => true
  binary {near moved : Bool} {seen : Token → Prop} (least : Nat) (h : (moved || near) = true) :
    Parse.Finishes ⟨source, sure, depth, near⟩ moved seen (deep.binary least)
      (·.pos ≤ Glyph.widths source) fun _ => true
  unary {near moved : Bool} {seen : Token → Prop} (h : (moved || near) = true) :
    Parse.Finishes ⟨source, sure, depth, near⟩ moved seen deep.unary (·.pos ≤ Glyph.widths source)
      fun _ => true
  stmts {near moved : Bool} {seen : Token → Prop} (h : (moved || near) = true) :
    Parse.Finishes ⟨source, sure, depth, near⟩ moved seen deep.stmts (fun _ => True) fun _ => moved
  ifStmt {near moved : Bool} {seen : Token → Prop} (h : (moved || near) = true) :
    Parse.Finishes ⟨source, sure, depth, near⟩ moved seen deep.ifStmt (fun _ => True) fun _ => true

namespace Grammar

variable {m : Terms} {moved : Bool} {seen : Token → Prop} {deep : Nested}

/-! ### Literals and names -/

theorem literal_finishes {t : Token} (ht : t.kind ≠ .eof) :
    Finishes m moved (· = t) literal (·.pos ≤ m.size) fun _ => true := by
  unfold literal
  refine .token_bind fun u hu hpos => (next_seen (hu ▸ ht)).bind fun _ _ => ?_
  split
  · exact .pure hpos id
  · exact .errorAt_bind hpos (.pure hpos id)

theorem typedIdent_finishes : Finishes m moved seen typedIdent (fun _ => True) fun _ => true := by
  unfold typedIdent
  refine expectIdent_finishes.bind fun ident _ =>
    (accept_finishes (by decide)).bind fun announced _ => .kind_bind fun t _ => ?_
  split
  · refine expectIdent_finishes.bind fun first _ =>
      .seq (.loop (fun _ => True) (fun _ => trivial) fun types _ => ?_) fun types =>
        .pure (fun _ => trivial) id
    refine .accept (by decide) (expectIdent_finishes.bind fun type _ => ?_) ?_
    · exact .pure (fun _ => trivial) id
    · exact .still rfl (fun _ => trivial)
  · exact .pure (fun _ => trivial) fun _ => rfl

/-! ### Parameters -/

theorem param_finishes (hdeep : deep.Finishes m.source m.sure m.depth) (list : ParamList) :
    Finishes m moved seen (param deep list) (fun _ => True) fun _ => true := by
  unfold param
  refine .pos_bind fun pos hpos => .kind_bind fun t _ => ?_
  split
  · next hkind =>
    split
    · exact .failAt hpos
    · split
      · exact .failAt hpos
      · exact (next_at hkind (by decide)).bind fun _ _ => typedIdent_finishes.bind fun _ _ =>
          .pure (fun _ => trivial) id
  · next hkind =>
    split
    · exact .failAt hpos
    · exact (next_at hkind (by decide)).bind fun _ _ => typedIdent_finishes.bind fun _ _ =>
        .pure (fun _ => trivial) id
  · refine typedIdent_finishes.bind fun ident _ => .kind_bind fun t _ => ?_
    split
    · next hkind =>
      split
      · exact .failAt hpos
      · exact (next_at hkind (by decide)).bind fun _ _ => (hdeep.expr rfl).bind fun value _ =>
          .pure (fun _ => trivial) id
    · split
      · exact .failAt hpos
      · split
        · exact .failAt hpos
        · exact .pure (fun _ => trivial) id

theorem paramList_finishes (hdeep : deep.Finishes m.source m.sure m.depth) (lparen : Pos) :
    Finishes m moved seen (paramList deep lparen) (fun _ => True) fun _ => moved := by
  unfold paramList
  refine .loop (fun _ => True) (fun _ => trivial) fun list _ => skipLineBreaks_finishes.bind
    fun _ _ => .kind_bind fun _ _ => ?_
  split
  · exact .still rfl (fun _ => trivial)
  · refine .token_bind fun t _ _ => ?_
    split
    · next hsemicolon =>
      split
      · exact .failExpected
      · exact (next_seen (ne_eof_of_isExplicitSemicolon hsemicolon)).bind fun _ _ =>
          .pure (fun _ => trivial) fun _ => rfl
    · refine (param_finishes (m := m.begun moved) hdeep list).bind fun list _ =>
        skipLineBreaks_finishes.bind fun lineEnded _ => .kind_bind fun t _ => ?_
      split
      · next hkind =>
        exact (next_at hkind (by decide)).bind fun _ _ => .pure (fun _ => trivial) fun _ => rfl
      · exact .pure (fun _ => trivial) fun _ => rfl
      · split
        · exact .pure (fun _ => trivial) fun _ => rfl
        · exact .still rfl (fun _ => trivial)

/-! ### Arguments -/

theorem argName_finishes : Finishes m moved seen argName (·.pos ≤ m.size) fun _ => true := by
  unfold argName
  refine .kind_bind fun t _ => ?_
  split
  · exact expectIdent_finishes.bind fun ident hpos => .pure hpos id
  · split
    · next hliteral =>
      refine literal_finishes ?_
      intro h
      rw [h] at hliteral
      cases hliteral
    · exact .failExpected

theorem arg_finishes (hdeep : deep.Finishes m.source m.sure m.depth)
    (hnear : (moved || m.near) = true) (list : ArgList)
    (hlist : m.sure → list.args.All (·.pos ≤ m.size)) :
    Finishes m moved seen (arg deep list) (·.args.All (·.pos ≤ m.size)) fun _ => true := by
  unfold arg
  refine .pos_bind fun pos hpos => .kind_bind fun t _ => ?_
  split
  · next hkind =>
    split
    · exact .failAt hpos
    · split
      · exact .failAt hpos
      · exact (next_at hkind (by decide)).bind fun _ _ => (hdeep.expr rfl).bind fun e he =>
          .pure (fun hsure => (hlist hsure).withSpread (he hsure)) id
  · next hkind =>
    split
    · exact .failAt hpos
    · exact (next_at hkind (by decide)).bind fun _ _ => (hdeep.expr rfl).bind fun e he =>
        .pure (fun hsure => (hlist hsure).withNamedSpread (he hsure)) id
  · split
    · split
      · exact .failAt hpos
      · refine argName_finishes.bind fun name hname => .accept (by decide) ?_ ?_
        · exact (hdeep.expr rfl).bind fun value hvalue =>
            .pure (fun hsure => (hlist hsure).withNamed (hname hsure) (hvalue hsure)) id
        · exact .pure (fun hsure => (hlist hsure).withNamed (hname hsure) (hpos hsure)) id
    · refine (hdeep.expr hnear).bind fun e he => .kind_bind fun t _ => ?_
      split
      · next hassign =>
        have hkind : t.kind = .assign := of_decide_eq_true (Bool.and_eq_true_iff.1 hassign).1
        exact (next_at hkind (by decide)).bind fun _ _ => (hdeep.expr rfl).bind fun value hvalue =>
          .pure (fun hsure => (hlist hsure).withNamed (he hsure) (hvalue hsure)) id
      · split
        · exact .failAt hpos
        · exact .pure (fun hsure => (hlist hsure).withArg (he hsure)) id

theorem argList_finishes (hdeep : deep.Finishes m.source m.sure m.depth)
    (hnear : (moved || m.near) = true) :
    Finishes m moved seen (argList deep) (·.1.All (·.pos ≤ m.size)) fun _ => moved := by
  unfold argList
  refine .loop (fun list : ArgList => list.args.All (·.pos ≤ m.size))
    (fun _ e he => by simp [Args.parts] at he) fun list hlist => skipLineBreaks_finishes.bind
      fun _ _ => .kind_bind fun _ _ => ?_
  split
  · exact .still rfl hlist
  · refine .token_bind fun t _ _ => ?_
    split
    · next hsemicolon =>
      split
      · exact .failExpected
      · exact (next_seen (ne_eof_of_isExplicitSemicolon hsemicolon)).bind fun _ _ =>
          .pure hlist fun _ => rfl
    · refine (arg_finishes (m := m.begun moved) hdeep hnear list hlist).bind fun list hlist =>
        skipLineBreaks_finishes.bind fun _ _ => .kind_bind fun t _ => ?_
      split
      · next hkind => exact (next_at hkind (by decide)).bind fun _ _ => .pure hlist fun _ => rfl
      · exact .pure hlist fun _ => rfl
      · exact .still rfl hlist

/-! ### Parameters written as arguments -/

theorem paramOfExpr_finishes {e : Expr} (he : m.sure → e.pos ≤ m.size) :
    Finishes m moved seen (paramOfExpr e) (fun _ => True) fun _ => moved := by
  unfold paramOfExpr
  split
  · exact .pure (fun _ => trivial) id
  · exact .failAt he

theorem paramOfExpr?_finishes {e? : Option Expr} (he : m.sure → ∀ e ∈ e?, e.pos ≤ m.size) :
    Finishes m moved seen (paramOfExpr? e?) (fun _ => True) fun _ => moved := by
  cases e? with
  | none => exact .pure (fun _ => trivial) id
  | some e =>
    exact (paramOfExpr_finishes fun hsure => he hsure e rfl).bind fun _ _ =>
      .pure (fun _ => trivial) id

theorem paramsOfExprs_finishes {list : List Expr} (hlist : m.sure → ∀ e ∈ list, e.pos ≤ m.size) :
    Finishes m moved seen (paramsOfExprs list) (fun _ => True) fun _ => moved := by
  induction list generalizing seen with
  | nil => exact .pure (fun _ => trivial) id
  | cons e rest ih =>
    refine (paramOfExpr_finishes fun hsure => hlist hsure e List.mem_cons_self).bind fun _ _ => ?_
    refine (ih fun hsure e he => hlist hsure e (List.mem_cons_of_mem _ he)).bind fun _ _ => ?_
    exact .pure (fun _ => trivial) id

theorem paramsOfNamed_finishes {named : List (Expr × Expr)}
    (hnamed : m.sure → ∀ arg ∈ named, arg.1.pos ≤ m.size) :
    Finishes m moved seen (paramsOfNamed named) (fun _ => True) fun _ => moved := by
  induction named generalizing seen with
  | nil => exact .pure (fun _ => trivial) id
  | cons arg rest ih =>
    refine (paramOfExpr_finishes fun hsure => hnamed hsure arg List.mem_cons_self).bind
      fun _ _ => ?_
    refine (ih fun hsure arg harg => hnamed hsure arg (List.mem_cons_of_mem _ harg)).bind ?_
    exact fun _ _ => .pure (fun _ => trivial) id

theorem paramsOfArgs_finishes {args : Args Expr} (hargs : m.sure → args.All (·.pos ≤ m.size))
    (lparen rparen : Pos) :
    Finishes m moved seen (paramsOfArgs lparen args rparen) (fun _ => True) fun _ => moved := by
  unfold paramsOfArgs
  refine (paramsOfExprs_finishes fun hsure => (Args.all_iff.1 (hargs hsure)).1).bind fun _ _ => ?_
  refine (paramOfExpr?_finishes fun hsure => (Args.all_iff.1 (hargs hsure)).2.1).bind fun _ _ => ?_
  refine (paramsOfNamed_finishes fun hsure arg harg =>
    ((Args.all_iff.1 (hargs hsure)).2.2.1 arg harg).1).bind fun _ _ => ?_
  refine (paramOfExpr?_finishes fun hsure => (Args.all_iff.1 (hargs hsure)).2.2.2).bind
    fun _ _ => ?_
  exact .pure (fun _ => trivial) id

end Grammar

end TemplateScript
