import TemplateScript.Grammar.Document
import TemplateScript.Proofs.Grammar.Account
import TemplateScript.Proofs.Tree.WellFormed

/-!
# Well-formed arguments and parameters

Every phrase accounts for its failures and promises a tree that is well formed, under the assumption
that the phrases inside it do so. This module has the phrases for literals, arguments and
parameters.
-/

namespace TemplateScript

/-- All arguments are well formed. -/
def Args.WellFormed (line : Pos → Nat) (args : Args Expr) : Prop :=
  ∀ e ∈ args.parts, e.WellFormed line

/-- All defaults are well formed. -/
def Params.WellFormed (line : Pos → Nat) (params : Params Expr) : Prop :=
  ∀ e ∈ params.defaults, e.WellFormed line

/-- All statements of a block are well formed. -/
def Block.WellFormed (line : Pos → Nat) (body : Block Stmt) : Prop :=
  ∀ s ∈ body.stmts, s.WellFormed line

namespace Node

variable {line : Pos → Nat}

theorem everywhere_exprs {list : List Expr} (h : ∀ e ∈ list, e.WellFormed line) :
    ∀ m ∈ list.map Node.expr, Everywhere (Legal line) m :=
  List.forall_mem_map.2 h

theorem everywhere_block {body : Block Stmt} (h : body.WellFormed line) :
    ∀ m ∈ ofBlock body, Everywhere (Legal line) m :=
  List.forall_mem_map.2 h

end Node

theorem Args.wellFormed_iff {line : Pos → Nat} {args : Args Expr} :
    args.WellFormed line ↔
      (∀ e ∈ args.positional, e.WellFormed line) ∧ (∀ e ∈ args.spread, e.WellFormed line) ∧
        (∀ arg ∈ args.named, arg.1.WellFormed line ∧ arg.2.WellFormed line) ∧
          ∀ e ∈ args.namedSpread, e.WellFormed line := all_iff

theorem Params.WellFormed.withNamed {line : Pos → Nat} {params : Params Expr}
    (h : params.WellFormed line) {ident : TypedIdent} {value : Expr} (hvalue : value.WellFormed line) :
    ({ params with named := params.named ++ [(ident, value)] } : Params Expr).WellFormed line := by
  intro e he
  simp only [Params.defaults, List.map_append, List.map_cons, List.map_nil, List.mem_append,
    List.mem_singleton] at he
  rcases he with he | rfl
  · exact h e he
  · exact hvalue

/-- Each parameter that has a default is kept with it. -/
theorem Params.balanced (params : Params Expr) : params.Balanced := by
  simp [Params.Balanced, Params.names, Params.defaults]

namespace Expr

variable {line : Pos → Nat}

/-- Expressions without parts. -/
theorem WellFormed.leaf {e : Expr} (legal : e.Legal line) (hchildren : e.children = []) :
    e.WellFormed line := .intro legal (by simp [Node.children, hchildren])

theorem wellFormed_ident (id : Ident) : (Expr.ident id).WellFormed line := .leaf trivial rfl

theorem wellFormed_literal (lit : Literal) : (Expr.literal lit).WellFormed line :=
  .leaf trivial rfl

theorem wellFormed_word (word : Word) (pos : Pos) : (Expr.word word pos).WellFormed line :=
  .leaf trivial rfl

end Expr

/-- The phrases inside a phrase keep what they should. -/
structure Nested.Accounts (source : List Glyph) (deep : Nested) : Prop where
  expr : Parse.Accounts source True deep.expr (Expr.WellFormed (Glyph.lineOf source))
  binary (least : Nat) :
    Parse.Accounts source True (deep.binary least) (Expr.WellFormed (Glyph.lineOf source))
  unary : Parse.Accounts source True deep.unary (Expr.WellFormed (Glyph.lineOf source))
  stmts : Parse.Accounts source True deep.stmts fun list =>
    ∀ s ∈ list, s.WellFormed (Glyph.lineOf source)
  ifStmt : Parse.Accounts source True deep.ifStmt (Stmt.WellFormed (Glyph.lineOf source))

namespace Grammar

open Parse

variable {source : List Glyph} {given : Prop} {deep : Nested}

/-! ### Literals and parameters -/

theorem literal_accounts :
    Accounts source given literal (Expr.WellFormed (Glyph.lineOf source)) := by
  unfold literal
  refine token_accounts.bind fun token => next_accounts.bind fun _ => ?_
  split
  · exact .pure fun _ => Expr.wellFormed_literal _
  · exact (errorAt_accounts _ _).bind fun _ => .pure fun h => h.1.elim

theorem typedIdent_accounts : Accounts source given typedIdent fun _ => True := by
  unfold typedIdent
  refine expectIdent_accounts.bind fun ident => (accept_accounts _).bind fun announced =>
    kind_accounts.bind fun kind => ?_
  split
  · refine expectIdent_accounts.bind fun first =>
      .seq (.loop (fun _ => True) (fun _ => trivial) fun types => ?_) fun types =>
        .pure fun _ => trivial
    refine (accept_accounts _).bind fun accepted => ?_
    split
    · exact expectIdent_accounts.bind fun _ => .pure fun _ => trivial
    · exact .pure fun _ => trivial
  · exact .pure fun _ => trivial

theorem param_accounts (hdeep : deep.Accounts source) (list : ParamList) :
    Accounts source (list.params.WellFormed (Glyph.lineOf source) ∧ given) (param deep list)
      fun list => list.params.WellFormed (Glyph.lineOf source) := by
  unfold param
  refine pos_accounts.bind fun pos => kind_accounts.bind fun kind => ?_
  split
  · split
    · exact failAt_accounts _ _
    · split
      · exact failAt_accounts _ _
      · exact next_accounts.bind fun _ => typedIdent_accounts.bind fun _ => .pure fun h =>
          h.2.2.2.2.1
  · split
    · exact failAt_accounts _ _
    · exact next_accounts.bind fun _ => typedIdent_accounts.bind fun _ => .pure fun h =>
        h.2.2.2.2.1
  · refine typedIdent_accounts.bind fun ident => kind_accounts.bind fun kind => ?_
    split
    · split
      · exact failAt_accounts _ _
      · refine next_accounts.bind fun _ => (hdeep.expr.weaken fun _ => trivial).bind fun value =>
          .pure ?_
        rintro ⟨hvalue, -, -, -, -, -, hlist, -⟩
        exact hlist.withNamed hvalue
    · split
      · exact failAt_accounts _ _
      · split
        · exact failAt_accounts _ _
        · exact .pure fun h => h.2.2.2.2.1

theorem paramList_accounts (hdeep : deep.Accounts source) (lparen : Pos) :
    Accounts source given (paramList deep lparen) (Params.WellFormed (Glyph.lineOf source)) := by
  unfold paramList
  refine .loop (fun list : ParamList => list.params.WellFormed (Glyph.lineOf source))
    (fun _ e he => by simp [Params.defaults] at he) fun list => ?_
  refine skipLineBreaks_accounts.bind fun _ => kind_accounts.bind fun kind => ?_
  split
  · exact .pure fun h => h.2.2.1
  · refine token_accounts.bind fun token => ?_
    split
    · split
      · exact failExpected_accounts _
      · exact next_accounts.bind fun _ => .pure fun h => h.2.2.2.2.1
    · refine ((param_accounts hdeep list).weaken fun h => h.2.2.2).bind fun list =>
        skipLineBreaks_accounts.bind fun lineEnded => kind_accounts.bind fun kind => ?_
      split
      · exact next_accounts.bind fun _ => .pure fun h => h.2.2.2.1
      · exact .pure fun h => h.2.2.1
      · split
        · exact .pure fun h => h.2.2.1
        · exact .pure fun h => h.2.2.1

/-! ### Arguments -/

theorem argName_accounts :
    Accounts source given argName (Expr.WellFormed (Glyph.lineOf source)) := by
  unfold argName
  refine kind_accounts.bind fun kind => ?_
  split
  · exact expectIdent_accounts.bind fun ident => .pure fun _ => Expr.wellFormed_ident ident
  · split
    · exact literal_accounts
    · exact failExpected_accounts _

theorem arg_accounts (hdeep : deep.Accounts source) (list : ArgList) :
    Accounts source (list.args.WellFormed (Glyph.lineOf source) ∧ given) (arg deep list)
      fun list => list.args.WellFormed (Glyph.lineOf source) := by
  have hexpr (given : Prop) := hdeep.expr.weaken fun _ : given => trivial
  unfold arg
  refine pos_accounts.bind fun pos => kind_accounts.bind fun kind => ?_
  split
  · split
    · exact failAt_accounts _ _
    · split
      · exact failAt_accounts _ _
      · refine next_accounts.bind fun _ => (hexpr _).bind fun e => .pure ?_
        rintro ⟨he, -, -, -, hlist, -⟩
        exact Args.All.withSpread hlist he
  · split
    · exact failAt_accounts _ _
    · refine next_accounts.bind fun _ => (hexpr _).bind fun e => .pure ?_
      rintro ⟨he, -, -, -, hlist, -⟩
      obtain ⟨hpositional, hspread, hnamed, -⟩ := Args.wellFormed_iff.1 hlist
      exact Args.wellFormed_iff.2 ⟨hpositional, hspread, hnamed, by simpa using he⟩
  · split
    · split
      · exact failAt_accounts _ _
      · refine argName_accounts.bind fun name => (accept_accounts _).bind fun accepted => ?_
        split
        · refine (hexpr _).bind fun value => .pure ?_
          rintro ⟨hvalue, -, hname, -, -, hlist, -⟩
          exact Args.All.withNamed hlist hname hvalue
        · exact .pure fun ⟨_, hname, _, _, hlist, _⟩ =>
            Args.All.withNamed hlist hname (Expr.wellFormed_literal _)
    · refine (hexpr _).bind fun e => kind_accounts.bind fun kind => ?_
      split
      · refine next_accounts.bind fun _ => (hexpr _).bind fun value => .pure ?_
        rintro ⟨hvalue, -, -, he, -, -, hlist, -⟩
        exact Args.All.withNamed hlist he hvalue
      · split
        · exact failAt_accounts _ _
        · exact .pure fun ⟨_, he, _, _, hlist, _⟩ => Args.All.withArg hlist he

theorem argList_accounts (hdeep : deep.Accounts source) :
    Accounts source given (argList deep) fun list =>
      list.1.WellFormed (Glyph.lineOf source) := by
  unfold argList
  refine .loop (fun list : ArgList => list.args.WellFormed (Glyph.lineOf source))
    (fun _ e he => by simp [Args.parts] at he) fun list => ?_
  refine skipLineBreaks_accounts.bind fun _ => kind_accounts.bind fun kind => ?_
  split
  · exact .pure fun h => h.2.2.1
  · refine token_accounts.bind fun token => ?_
    split
    · split
      · exact failExpected_accounts _
      · exact next_accounts.bind fun _ => .pure fun h => h.2.2.2.2.1
    · refine ((arg_accounts hdeep list).weaken fun h => h.2.2.2).bind fun list =>
        skipLineBreaks_accounts.bind fun _ => kind_accounts.bind fun kind => ?_
      split
      · exact next_accounts.bind fun _ => .pure fun h => h.2.2.2.1
      · exact .pure fun h => h.2.2.1
      · exact .pure fun h => h.2.2.1

theorem paramOfExpr_accounts (e : Expr) :
    Accounts source given (paramOfExpr e) fun _ => True := by
  unfold paramOfExpr
  split
  · exact .pure fun _ => trivial
  · exact failAt_accounts _ _

theorem paramOfExpr?_accounts (e : Option Expr) :
    Accounts source given (paramOfExpr? e) fun _ => True := by
  cases e with
  | none => exact .pure fun _ => trivial
  | some e => exact (paramOfExpr_accounts e).bind fun _ => .pure fun _ => trivial

theorem paramsOfExprs_accounts (list : List Expr) :
    Accounts source given (paramsOfExprs list) fun _ => True := by
  induction list generalizing given with
  | nil => exact .pure fun _ => trivial
  | cons e rest ih =>
    exact (paramOfExpr_accounts e).bind fun _ => ih.bind fun _ => .pure fun _ => trivial

/-- Named arguments keep their values when they become parameters. -/
theorem paramsOfNamed_accounts (named : List (Expr × Expr)) :
    Accounts source given (paramsOfNamed named) fun list =>
      list.map (·.2) = named.map (·.2) := by
  induction named generalizing given with
  | nil => exact .pure fun _ => rfl
  | cons arg rest ih =>
    refine (paramOfExpr_accounts arg.1).bind fun _ => ih.bind fun _ => .pure ?_
    rintro ⟨hrest, -⟩
    rw [List.map_cons, List.map_cons, hrest]

theorem paramsOfArgs_accounts (lparen : Pos) (args : Args Expr) (rparen : Pos) :
    Accounts source (args.WellFormed (Glyph.lineOf source) ∧ given)
      (paramsOfArgs lparen args rparen) (Params.WellFormed (Glyph.lineOf source)) := by
  unfold paramsOfArgs
  refine (paramsOfExprs_accounts _).bind fun _ => (paramOfExpr?_accounts _).bind fun _ =>
    (paramsOfNamed_accounts _).bind fun named => (paramOfExpr?_accounts _).bind fun _ => .pure ?_
  rintro ⟨-, hnamed, -, -, hargs, -⟩ e he
  rw [Params.defaults, hnamed] at he
  obtain ⟨arg, harg, rfl⟩ := List.mem_map.1 he
  exact ((Args.wellFormed_iff.1 hargs).2.2.1 arg harg).2

end Grammar

end TemplateScript
