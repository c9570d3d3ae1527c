import TemplateScript.Grammar.Document
import TemplateScript.Proofs.Grammar.Track

/-!
# Expressions along a track

No phrase for an expression leaves a track, so an expression is read or given up on it, and behind
an expression the reader is inside the same brackets as before. Blocks and dicts begin with a brace,
and so they are not read on a track.
-/

namespace TemplateScript

open Parse Track

variable {σ : Type}

/-- Phrases for expressions that stay on a track. -/
structure Nested.Stays (track : Track σ) (deep : Nested) : Prop where
  expr (t : Token) (s : σ) : track.Stays t s deep.expr
  binary (least : Nat) (t : Token) (s : σ) : track.Stays t s (deep.binary least)
  unary (t : Token) (s : σ) : track.Stays t s deep.unary

namespace Token.Kind

variable {kind : Kind}

/-! ### Kinds that are used by expressions -/

theorem not_landmark_of_name (h : Grammar.nameLiteralKinds.contains kind = true) :
    kind ∉ landmarks := by
  have hnames : ∀ kind ∈ Grammar.nameLiteralKinds, kind ∉ landmarks := by decide
  exact hnames kind (List.contains_iff_mem.1 h)

theorem not_landmark_of_keyword (h : kind.isKeyword = true) : kind ∉ landmarks := by
  have hwords : ∀ kind ∈ keywords, kind ∉ landmarks := by decide
  exact hwords kind (List.contains_iff_mem.1 h)

theorem not_landmark_of_precedence (h : kind.precedence ≠ 0) : kind ∉ landmarks := by
  have hmarks : ∀ kind ∈ landmarks, kind.precedence = 0 := by decide
  exact fun hkind => h (hmarks kind hkind)

theorem not_landmark_of_unary {op : UnaryOp} (h : Grammar.unaryOp? kind = some op) :
    kind ∉ landmarks := by
  have hmarks : ∀ kind ∈ landmarks, Grammar.unaryOp? kind = none := by decide
  intro hkind
  rw [hmarks kind hkind] at h
  cases h

theorem not_landmark_of_assign (h : kind.isAssign = true) : kind ∉ landmarks := by
  have hassign : ∀ kind ∈ assignments, kind ∉ landmarks := by decide
  exact hassign kind (List.contains_iff_mem.1 h)

theorem eq_semicolon_of_explicit {t : Token} (h : t.isExplicitSemicolon = true) :
    t.kind = .semicolon :=
  of_decide_eq_true (Bool.and_eq_true_iff.1 h).1

end Token.Kind

namespace Grammar

open Token.Kind

variable {track : Track σ} {deep : Nested} {t : Token} {s : σ} {closer : Token.Kind}

/-! ### Names and literals -/

theorem literal_stays (hkind : t.kind ∉ landmarks) : track.Stays t s literal := by
  unfold literal
  refine .token_bind (.next_bind hkind fun u => ?_)
  split
  · exact .pure _
  · exact (Leads.errorAt _ (by nofun)).bind fun _ _ => .pure _

theorem typedIdent_stays : track.Stays t s typedIdent := by
  have hor {types : List Ident} {u : Token} : track.Stays u s (do
      if ← accept .or then
        let type ← expectIdent
        return Round.again (types ++ [type])
      else return Round.done types) := by
    refine (Leads.accept (by decide)).bind fun more v => ?_
    split
    · exact Leads.expectIdent.bind fun _ _ => .pure _
    · exact .pure _
  unfold typedIdent
  refine Leads.expectIdent.bind fun ident u => (Leads.accept (by decide)).bind fun announced v =>
    .kind_bind ?_
  split
  · exact Leads.expectIdent.bind fun _ _ => (Leads.loop (fun _ _ => hor) _).bind fun _ _ => .pure _
  · exact .pure _

/-! ### Parameters and arguments -/

theorem param_stays (hdeep : deep.Stays track) (list : ParamList) :
    track.Stays t s (param deep list) := by
  unfold param
  refine .pos_bind (.kind_bind ?_)
  split
  · next hkind =>
    split
    · exact .failAt _ nofun
    · split
      · exact .failAt _ nofun
      · exact .next_bind (hkind ▸ by decide) fun _ => typedIdent_stays.bind fun _ _ => .pure _
  · next hkind =>
    split
    · exact .failAt _ nofun
    · exact .next_bind (hkind ▸ by decide) fun _ => typedIdent_stays.bind fun _ _ => .pure _
  · refine typedIdent_stays.bind fun ident u => .kind_bind ?_
    split
    · next hkind =>
      split
      · exact .failAt _ nofun
      · exact .next_bind (hkind ▸ by decide) fun v => (hdeep.expr v s).bind fun _ _ => .pure _
    · split
      · exact .failAt _ nofun
      · split
        · exact .failAt _ nofun
        · exact .pure _

theorem paramList_stays (hdeep : deep.Stays track) (lparen : Pos) :
    track.Stays t (track.inside closer s) (paramList deep lparen) := by
  unfold paramList
  refine .loop (fun list u => Leads.skipLineBreaks.bind fun _ v => .kind_bind ?_) _
  split
  · exact .pure _
  · refine .token_bind ?_
    split
    · next hsemicolon =>
      split
      · exact .failExpected _
      · exact .next_semicolon_bind (eq_semicolon_of_explicit hsemicolon) fun _ => .pure _
    · refine (param_stays hdeep list).bind fun list w => Leads.skipLineBreaks.bind
        fun lineEnded x => .kind_bind ?_
      split
      · next hkind => exact .next_bind (hkind ▸ by decide) fun _ => .pure _
      · exact .pure _
      · split
        · exact .pure _
        · exact .pure _

theorem argName_stays : track.Stays t s argName := by
  unfold argName
  refine .kind_bind ?_
  split
  · exact Leads.expectIdent.bind fun _ _ => .pure _
  · split
    · next hkind => exact literal_stays (not_landmark_of_name hkind)
    · exact .failExpected _

theorem arg_stays (hdeep : deep.Stays track) (list : ArgList) :
    track.Stays t s (arg deep list) := by
  unfold arg
  refine .pos_bind (.kind_bind ?_)
  split
  · next hkind =>
    split
    · exact .failAt _ nofun
    · split
      · exact .failAt _ nofun
      · exact .next_bind (hkind ▸ by decide) fun u => (hdeep.expr u s).bind fun _ _ => .pure _
  · next hkind =>
    split
    · exact .failAt _ nofun
    · exact .next_bind (hkind ▸ by decide) fun u => (hdeep.expr u s).bind fun _ _ => .pure _
  · split
    · split
      · exact .failAt _ nofun
      · refine argName_stays.bind fun name u => (Leads.accept (by decide)).bind fun given v => ?_
        split
        · exact (hdeep.expr v s).bind fun _ _ => .pure _
        · exact .pure _
    · refine (hdeep.expr t s).bind fun e u => .kind_bind ?_
      split
      · next hassign =>
        have hkind : u.kind = .assign := of_decide_eq_true (Bool.and_eq_true_iff.1 hassign).1
        exact .next_bind (hkind ▸ by decide) fun v => (hdeep.expr v s).bind fun _ _ => .pure _
      · split
        · exact .failAt _ nofun
        · exact .pure _

theorem argList_stays (hdeep : deep.Stays track) :
    track.Stays t (track.inside closer s) (argList deep) := by
  unfold argList
  refine .loop (fun list u => Leads.skipLineBreaks.bind fun _ v => .kind_bind ?_) _
  split
  · exact .pure _
  · refine .token_bind ?_
    split
    · next hsemicolon =>
      split
      · exact .failExpected _
      · exact .next_semicolon_bind (eq_semicolon_of_explicit hsemicolon) fun _ => .pure _
    · refine (arg_stays hdeep list).bind fun list w => Leads.skipLineBreaks.bind
        fun _ x => .kind_bind ?_
      split
      · next hkind => exact .next_bind (hkind ▸ by decide) fun _ => .pure _
      · exact .pure _
      · exact .pure _

theorem paramOfExpr_stays (e : Expr) : track.Stays t s (paramOfExpr e) := by
  unfold paramOfExpr
  split
  · exact .pure _
  · exact .failAt _ nofun

theorem paramOfExpr?_stays (e : Option Expr) : track.Stays t s (paramOfExpr? e) := by
  cases e with
  | none => exact .pure _
  | some e => exact (paramOfExpr_stays e).bind fun _ _ => .pure _

theorem paramsOfExprs_stays (list : List Expr) : track.Stays t s (paramsOfExprs list) := by
  induction list generalizing t with
  | nil => exact .pure _
  | cons e rest ih =>
    exact (paramOfExpr_stays e).bind fun _ _ => ih.bind fun _ _ => .pure _

theorem paramsOfNamed_stays (named : List (Expr × Expr)) :
    track.Stays t s (paramsOfNamed named) := by
  induction named generalizing t with
  | nil => exact .pure _
  | cons arg rest ih =>
    exact (paramOfExpr_stays arg.1).bind fun _ _ => ih.bind fun _ _ => .pure _

theorem paramsOfArgs_stays (lparen : Pos) (args : Args Expr) (rparen : Pos) :
    track.Stays t s (paramsOfArgs lparen args rparen) := by
  unfold paramsOfArgs
  exact (paramsOfExprs_stays _).bind fun _ _ => (paramOfExpr?_stays _).bind fun _ _ =>
    (paramsOfNamed_stays _).bind fun _ _ => (paramOfExpr?_stays _).bind fun _ _ => .pure _

/-! ### Operands -/

/-- No block begins on the track. -/
theorem block_stays : track.Stays t s (block deep) := .expect_lbrace_bind

/-- No dict begins on the track. -/
theorem dict_stays : track.Stays t s (dict deep) := .expect_lbrace_bind

theorem closure_stays (hdeep : deep.Stays track) (pos : Pos) (params : Params Expr) :
    track.Stays t s (closure deep pos params) :=
  .expect_bind (by decide) fun u => (hdeep.expr u s).bind fun _ _ => .pure _

theorem separator_stays : track.Stays t (track.inside closer s) Grammar.separator := by
  unfold Grammar.separator
  refine Leads.skipLineBreaks.bind fun _ _ => (Leads.accept (by decide)).bind fun more u => ?_
  split
  · exact Leads.skipLineBreaks.bind fun _ _ => .pure _
  · exact .pure _

theorem entries_stays {α : Type} (closing : Token.Kind) {entry : Parse α}
    (hentry : ∀ t, track.Stays t (track.inside closer s) entry) :
    track.Stays t (track.inside closer s) (entries closing entry) := by
  unfold entries
  refine Leads.skipLineBreaks.bind fun _ _ => .loop (fun list u => .kind_bind ?_) _
  split
  · exact .pure _
  · refine (hentry u).bind fun e v => separator_stays.bind fun more w => ?_
    split
    · exact .pure _
    · exact .pure _

theorem array_stays (hdeep : deep.Stays track) : track.Stays t s (array deep) :=
  .expect_opening_bind rfl fun _ => (entries_stays _ fun t => hdeep.expr t _).bind fun _ _ =>
    .expect_closing_bind (by decide) fun _ => .pure _

theorem keyValue_stays (hdeep : deep.Stays track) : track.Stays t s (keyValue deep) := by
  unfold keyValue
  refine argName_stays.bind fun key u => (Leads.accept (by decide)).bind fun given v => ?_
  split
  · exact (hdeep.expr v s).bind fun _ _ => .pure _
  · exact .pure _

theorem parenthesized_stays (hdeep : deep.Stays track) :
    track.Stays t s (parenthesized deep) := by
  unfold parenthesized
  refine .expect_opening_bind rfl fun u => .token_bind ?_
  split
  · next hsemicolon =>
    exact .next_semicolon_bind (eq_semicolon_of_explicit hsemicolon) fun _ =>
      (entries_stays _ fun _ => keyValue_stays hdeep).bind fun _ _ =>
        .expect_closing_bind (by decide) fun _ => .pure _
  · refine (argList_stays hdeep).bind fun (args, separated) _ => .expect_closing_bind (by decide)
      fun _ => .kind_bind ?_
    split
    · exact (paramsOfArgs_stays _ _ _).bind fun _ _ => closure_stays hdeep _ _
    · split
      · exact .pure _
      · exact .pure _

theorem func_stays (hdeep : deep.Stays track) : track.Stays t s (func deep) := by
  unfold func
  refine .expect_bind (by decide) fun u => .kind_bind ?_
  refine .ite_bind (fun _ => Leads.expectIdent.map) (fun _ => .pure _) fun name _ =>
    .expect_opening_bind rfl fun _ => (paramList_stays hdeep _).bind fun params _ =>
      .expect_closing_bind (by decide) fun _ => .kind_bind ?_
  split
  · exact closure_stays hdeep _ _
  · exact block_stays.bind fun _ _ => .pure _

theorem load_stays (kind : LoadKind) (hkind : t.kind ∉ landmarks) :
    track.Stays t s (load kind) := by
  unfold load
  refine .pos_bind (.next_bind hkind fun _ => .expect_opening_bind rfl fun u => .token_bind ?_)
  dsimp only
  split
  · next hpath =>
    have hname : u.kind ∉ landmarks := by
      split at hpath
      · next hliteral => exact not_landmark_of_name hliteral
      · cases hpath
    exact .next_bind hname fun _ => .expect_closing_bind (by decide) fun _ => .pure _
  · exact .failExpected _

theorem single_stays (e : Expr) (hkind : t.kind ∉ landmarks) : track.Stays t s (single e) :=
  .next_bind hkind fun _ => .pure _

theorem operand_stays (hdeep : deep.Stays track) : track.Stays t s (operand deep) := by
  unfold operand
  refine .token_bind ?_
  dsimp only
  split
  case h_1 =>
    refine Leads.expectIdent.bind fun ident u => .kind_bind ?_
    split
    · exact closure_stays hdeep _ _
    · exact .pure _
  case h_18 => exact array_stays hdeep
  case h_19 => exact dict_stays
  case h_20 => exact parenthesized_stays hdeep
  case h_21 => exact func_stays hdeep
  case h_22 hkind => exact load_stays _ (hkind ▸ by decide)
  case h_23 hkind => exact load_stays _ (hkind ▸ by decide)
  case h_24 hkind =>
    refine .next_bind (hkind ▸ by decide) fun u => .atExprEnd_bind fun atEnd => ?_
    split
    · exact .pure _
    · exact (hdeep.expr u s).bind fun _ _ => .pure _
  case h_25 => exact .failAt _ nofun
  -- what is left is a token alone: a literal, or a keyword that stands for a value
  all_goals
    next hkind =>
    first
    | exact literal_stays (hkind ▸ by decide)
    | exact single_stays _ (hkind ▸ by decide)

/-! ### What follows an operand -/

theorem selection_stays (hdeep : deep.Stays track) (base : Expr) (hkind : t.kind ∉ landmarks) :
    track.Stays t s (selection deep base) := by
  unfold selection
  refine .kind_bind (.next_bind hkind fun u => .token_bind ?_)
  split
  · next hparen =>
    have hopening : u.kind.closer? = some .rparen := by rw [hparen]; rfl
    exact .next_opening_bind hopening fun v => (hdeep.expr v _).bind fun _ _ =>
      .expect_closing_bind (by decide) fun _ => .pure _
  · split
    · next hname =>
      have hplain : u.kind ∉ landmarks := by
        rcases Bool.or_eq_true_iff.1 hname with hident | hword
        · rw [of_decide_eq_true hident]
          decide
        · exact not_landmark_of_keyword hword
      exact .next_bind hplain fun _ => .pure _
    · exact .failExpected _

theorem sliceEnd_leads (hdeep : deep.Stays track) (base : Expr) (lbrack : Pos) (low : Option Expr)
    (hkind : t.kind ∉ landmarks) :
    track.Leads t (track.inside .rbrack s) s (sliceEnd deep base lbrack low) := by
  unfold sliceEnd
  refine .next_bind hkind fun u => .kind_bind ?_
  exact .ite_bind (fun _ => .pure _) (fun _ => (hdeep.expr u _).map) fun _ _ =>
    .expect_closing_bind (by decide) fun _ => .pure _

theorem indexOrSlice_stays (hdeep : deep.Stays track) (base : Expr) :
    track.Stays t s (indexOrSlice deep base) := by
  unfold indexOrSlice
  refine .expect_opening_bind rfl fun u => .kind_bind ?_
  split
  · next hkind => exact sliceEnd_leads hdeep _ _ _ (hkind ▸ by decide)
  · refine (hdeep.expr u _).bind fun low v => .kind_bind ?_
    split
    · next hkind => exact sliceEnd_leads hdeep _ _ _ (hkind ▸ by decide)
    · exact .expect_closing_bind (by decide) fun _ => .pure _

theorem callArgs_stays (hdeep : deep.Stays track) : track.Stays t s (callArgs deep) :=
  .expect_opening_bind rfl fun _ => (argList_stays hdeep).bind fun _ _ =>
    .expect_closing_bind (by decide) fun _ => .pure _

theorem pipedFunc_stays (hdeep : deep.Stays track) : track.Stays t s (pipedFunc deep) := by
  unfold pipedFunc
  refine (operand_stays hdeep).bind fun _ _ => .loop (fun f u => .kind_bind ?_) _
  split
  · next hselects =>
    have hkind : u.kind ∉ landmarks := by
      rcases Bool.or_eq_true_iff.1 hselects with hkind | hkind <;>
        rw [of_decide_eq_true hkind] <;> decide
    exact (selection_stays hdeep f hkind).bind fun _ _ => .pure _
  · exact .pure _

theorem pipe_stays (hdeep : deep.Stays track) (first : Expr) (hkind : t.kind ∉ landmarks) :
    track.Stays t s (pipe deep first) := by
  unfold pipe
  refine .next_bind hkind fun _ => (pipedFunc_stays hdeep).bind fun f u => .kind_bind ?_
  exact .ite_bind (fun _ => callArgs_stays hdeep) (fun _ => .pure _) fun _ _ => .pure _

theorem primary_stays (hdeep : deep.Stays track) : track.Stays t s (primary deep) := by
  unfold primary
  refine (operand_stays hdeep).bind fun _ _ => .loop (fun e u => .kind_bind ?_) _
  split
  · next hkind => exact (selection_stays hdeep e (hkind ▸ by decide)).bind fun _ _ => .pure _
  · next hkind => exact (selection_stays hdeep e (hkind ▸ by decide)).bind fun _ _ => .pure _
  · exact (indexOrSlice_stays hdeep e).bind fun _ _ => .pure _
  · exact (callArgs_stays hdeep).bind fun _ _ => .pure _
  · next hkind => exact (pipe_stays hdeep e (hkind ▸ by decide)).bind fun _ _ => .pure _
  · exact .pure _

/-! ### Operations -/

theorem unary_stays (hdeep : deep.Stays track) : track.Stays t s (unary deep) := by
  unfold unary
  refine .token_bind ?_
  split
  · next hop =>
    exact .next_bind (not_landmark_of_unary hop) fun u => (hdeep.unary u s).bind fun _ _ => .pure _
  · exact primary_stays hdeep

theorem binary_stays (hdeep : deep.Stays track) (least : Nat) :
    track.Stays t s (binary deep least) := by
  unfold binary
  refine (unary_stays hdeep).bind fun _ _ => .loop (fun lhs u => .token_bind ?_) _
  dsimp only
  split
  · exact .pure _
  · next hbinds =>
    have hprecedence : u.kind.precedence ≠ 0 := fun hzero =>
      hbinds (Bool.or_eq_true_iff.2 (.inr (decide_eq_true hzero)))
    exact .next_bind (not_landmark_of_precedence hprecedence) fun v =>
      (hdeep.binary _ v s).bind fun _ _ => .pure _

theorem expr_stays (hdeep : deep.Stays track) : track.Stays t s (expr deep) := by
  unfold expr
  refine (binary_stays hdeep 1).bind fun test u => .kind_bind ?_
  split
  · exact .pure _
  · next hquestion =>
    have hmark : u.kind ∉ landmarks := by
      rw [Decidable.not_not.1 hquestion]
      decide
    refine .pos_bind (.next_bind hmark fun v => (hdeep.expr v s).bind fun yes w => .token_bind ?_)
    split
    · exact .failAt _ nofun
    · split
      · exact .failExpected _
      · next hcolon =>
        refine .line_bind fun _ => .line_bind fun _ => ?_
        split
        · exact .failAt _ nofun
        · have hmark : w.kind ∉ landmarks := by
            rw [Decidable.not_not.1 hcolon]
            decide
          exact .next_bind hmark fun x => (hdeep.expr x s).bind fun _ _ => .pure _

theorem exprs_stays (hdeep : deep.Stays track) : track.Stays t s (exprs deep) := by
  unfold exprs
  refine (expr_stays hdeep).bind fun _ _ => .loop (fun list u => ?_) _
  refine (Leads.accept (by decide)).bind fun more v => ?_
  split
  · exact (expr_stays hdeep).bind fun _ _ => .pure _
  · exact .pure _

/-! ### Simple statements -/

theorem checkTargets_stays (op : Token.Kind) (list : List Expr) :
    track.Stays t s (checkTargets op list) := by
  induction list generalizing t with
  | nil => exact .pure _
  | cons e rest ih =>
    unfold checkTargets
    split
    · exact (Leads.errorAt _ (by nofun)).bind fun _ _ => ih
    · exact ih

theorem assignment_stays (hdeep : deep.Stays track) (targets : List Expr)
    (hkind : t.kind.isAssign = true) : track.Stays t s (assignment deep targets) := by
  unfold assignment
  refine .token_bind (.next_bind (not_landmark_of_assign hkind) fun _ =>
    (checkTargets_stays _ _).bind fun _ _ => (exprs_stays hdeep).bind fun values _ => ?_)
  split
  · exact (Leads.errorAt _ (by nofun)).bind fun _ _ => .pure _
  · exact .pure _

theorem increment_stays (target : Expr) (hkind : t.kind ∉ landmarks) :
    track.Stays t s (increment target) := by
  unfold increment
  refine .token_bind ?_
  dsimp only
  split
  · exact .errorAt_bind _ (by nofun) (.next_bind hkind fun _ => .pure _)
  · exact .next_bind hkind fun _ => .pure _

theorem simpleStmtFrom_stays (hdeep : deep.Stays track) (list : List Expr) :
    track.Stays t s (simpleStmtFrom deep list) := by
  unfold simpleStmtFrom
  refine .kind_bind ?_
  split
  · next hassign => exact assignment_stays hdeep list hassign
  · split
    · split
      · next hstep =>
        have hkind : t.kind ∉ landmarks := by
          rcases Bool.or_eq_true_iff.1 hstep with hkind | hkind <;>
            rw [of_decide_eq_true hkind] <;> decide
        exact increment_stays _ hkind
      · exact .pure _
    · exact .failExpected _
    · exact .failExpected _

theorem simpleStmt_stays (hdeep : deep.Stays track) : track.Stays t s (simpleStmt deep) :=
  (exprs_stays hdeep).bind fun _ _ => simpleStmtFrom_stays hdeep _

/-! ### Declarations -/

theorem paramSpec_stays (hdeep : deep.Stays track) : track.Stays t s (paramSpec deep) := by
  unfold paramSpec
  refine .kind_bind ?_
  split
  · next hkind =>
    exact .next_bind (hkind ▸ by decide) fun _ => typedIdent_stays.bind fun _ _ => .pure _
  · next hkind =>
    exact .next_bind (hkind ▸ by decide) fun _ => typedIdent_stays.bind fun _ _ => .pure _
  · refine typedIdent_stays.bind fun ident u => (Leads.accept (by decide)).bind fun given _ => ?_
    split
    · exact (expr_stays hdeep).bind fun _ _ => .pure _
    · exact .pure _

theorem valueSpec_stays (hdeep : deep.Stays track) (word : Token.Kind) :
    track.Stays t s (valueSpec deep word) := by
  unfold valueSpec
  refine Leads.expectIdent.bind fun ident u => .kind_bind ?_
  split
  · next hassign =>
    have hkind : u.kind = .assign := of_decide_eq_true (Bool.and_eq_true_iff.1 hassign).2
    exact .next_bind (hkind ▸ by decide) fun _ => (expr_stays hdeep).bind fun _ _ => .pure _
  · split
    · exact .failExpected _
    · exact .pure _

/-- Inside brackets, semicolons are no ends. -/
theorem skipSemicolons_stays : track.Stays t (track.inside closer s) skipSemicolons := by
  refine .loop (fun _ u => ?_) _
  unfold Parse.accept
  rw [bind_assoc]
  refine .kind_bind ?_
  split
  · next hkind =>
    rw [bind_assoc]
    exact .next_semicolon_bind hkind fun _ => .pure _
  · exact .pure _

theorem valueSpecs_stays (hdeep : deep.Stays track) (word : Token.Kind) :
    track.Stays t (track.inside closer s) (valueSpecs deep word) := by
  refine .loop (fun list u => skipSemicolons_stays.bind fun _ v => .kind_bind ?_) _
  split
  · exact .pure _
  · refine (valueSpec_stays hdeep word).bind fun spec w => .kind_bind ?_
    split
    · next hkind => exact .next_bind (hkind ▸ by decide) fun _ => .pure _
    · next hkind => exact .next_semicolon_bind hkind fun _ => .pure _
    · exact .pure _
    · exact .failExpected _

theorem groupedSpecs_stays (hdeep : deep.Stays track) (word : Token.Kind) (lparen : Pos) :
    track.Stays t (track.inside closer s) (groupedSpecs deep word lparen) := by
  unfold groupedSpecs
  split
  · exact (paramList_stays hdeep _).bind fun _ _ => .pure _
  · exact valueSpecs_stays hdeep word

end Grammar

/-- Phrases of any depth stay on the track. -/
theorem Nested.stays_ofDepth (track : Track σ) (depth : Nat) : (ofDepth depth).Stays track := by
  induction depth with
  | zero => exact ⟨fun _ _ => .fault _, fun _ _ _ => .fault _, fun _ _ => .fault _⟩
  | succ depth ih =>
    exact {
      expr := fun _ _ => Grammar.expr_stays ih
      binary := fun least _ _ => Grammar.binary_stays ih least
      unary := fun _ _ => Grammar.unary_stays ih }

end TemplateScript
