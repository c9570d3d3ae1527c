import TemplateScript.Proofs.Grammar.Reads
import TemplateScript.Proofs.Tree.Unplaced

/-!
# Expressions before what ends them

An operand is a whole expression if nothing goes on with it, and a whole statement if nothing does
after that. What ends an expression also ends the names and literals it ends with.
-/

namespace TemplateScript

namespace Token.Kind

/-- What goes on with an operand that stands before it. -/
def extenders : List Kind := [.period, .nullishSelector, .lbrack, .lparen, .pipe]

/-- An expression ends before a token of the kind. -/
def endsExpr (kind : Kind) : Bool :=
  kind.precedence = 0 && !extenders.contains kind && kind ≠ .question && kind ≠ .lambda

/-- A row of expressions ends before a token of the kind. -/
def endsExprs (kind : Kind) : Bool := kind.endsExpr && kind ≠ .comma

/-- What begins with an expression and has no value of its own ends before a token of the kind. -/
def endsSimple (kind : Kind) : Bool :=
  kind.endsExprs && !kind.isAssign && kind ≠ .inc && kind ≠ .dec

variable {kind : Kind}

theorem endsExprs_of_endsSimple (h : kind.endsSimple = true) : kind.endsExprs = true := by
  simp only [endsSimple, Bool.and_eq_true] at h
  exact h.1.1.1

theorem endsExpr_of_endsExprs (h : kind.endsExprs = true) : kind.endsExpr = true :=
  (Bool.and_eq_true_iff.1 h).1

theorem endsExpr_iff : kind.endsExpr = true ↔
    kind.precedence = 0 ∧ kind ∉ extenders ∧ kind ≠ .question ∧ kind ≠ .lambda := by
  simp [endsExpr, and_assoc]

theorem ne_lambda_of_endsExpr (h : kind.endsExpr = true) : kind ≠ .lambda :=
  (endsExpr_iff.1 h).2.2.2

end Token.Kind

namespace Parse

/-- Of the tokens, before what ends an expression, the phrase makes the tree up to positions. -/
def ReadsAs (p : Parse Expr) (K : Token.Outlook) (m : Nat) (faces : List Token.Face) (tree : Expr) :
    Prop :=
  ∀ (g : Token.Face) (rest : List Token.Face), g.kind.endsExpr = true →
    p.ReadsIn K m (faces ++ g :: rest) (g :: rest) fun e => e.unplaced = tree

end Parse

namespace Grammar

open Parse

variable {deep : Nested} {K : Token.Outlook} {m : Nat} {before rest : List Token.Face}
  {f g : Token.Face} {P : Expr → Prop}

/-! ### Operands -/

theorem operand_ident {name : String} (hg : g.kind ≠ .lambda) :
    (operand deep).ReadsIn K m (⟨.ident, name⟩ :: g :: rest) (g :: rest)
      fun e => ∃ pos, e = .ident ⟨name, pos⟩ := by
  apply reads_token
  intro pos
  refine (reads_expectIdent rfl).bind fun ident hname => reads_kind ?_
  obtain ⟨found, stop⟩ := ident
  obtain rfl : found = name := hname
  rw [if_neg hg]
  exact reads_pure ⟨stop, rfl⟩

/-- A literal that has a value. -/
theorem operand_literal {kind : Token.Kind} {text : String} {value : Value}
    (hkind : kind ∈ literalKinds) (hvalue : Value.ofToken? kind text = some value) :
    (operand deep).ReadsIn K m (⟨kind, text⟩ :: g :: rest) (g :: rest)
      fun e => ∃ pos, e = .literal ⟨value, text, pos⟩ := by
  have hliteral : literal.ReadsIn K m (⟨kind, text⟩ :: g :: rest) (g :: rest)
      fun e => ∃ pos, e = .literal ⟨value, text, pos⟩ := by
    apply reads_token
    intro pos
    refine reads_next.bind fun _ _ => ?_
    rw [hvalue]
    exact reads_pure ⟨pos, rfl⟩
  apply reads_token
  intro pos
  simp only [literalKinds, List.mem_cons, List.not_mem_nil, or_false] at hkind
  rcases hkind with rfl | rfl | rfl | rfl | rfl | rfl | rfl | rfl <;> exact hliteral

/-! ### Expressions -/

/-- What goes on with an operand, unless nothing does. -/
def primaryRound (deep : Nested) (e : Expr) : Parse (Round Expr Expr) := do
  match ← kind with
  | .period | .nullishSelector => return .again (← selection deep e)
  | .lbrack => return .again (← indexOrSlice deep e)
  | .lparen =>
    let (lparen, args, rparen) ← callArgs deep
    return .again (.call e lparen args rparen false)
  | .pipe => return .again (← pipe deep e)
  | _ => return .done e

theorem primary_eq (deep : Nested) :
    primary deep = operand deep >>= fun first => loop first (primaryRound deep) := rfl

/-- An operand ends before what does not go on with it. -/
theorem primaryRound_done (hg : g.kind ∉ Token.Kind.extenders) {e : Expr} (he : P e) :
    (primaryRound deep e).ReadsIn K m (g :: rest) (g :: rest) (Round.Done P) := by
  refine reads_kind ?_
  simp only [Token.Kind.extenders, List.mem_cons, List.not_mem_nil, or_false, not_or] at hg
  obtain ⟨hperiod, hselector, hlbrack, hlparen, hpipe⟩ := hg
  split
  · next hkind => exact absurd hkind hperiod
  · next hkind => exact absurd hkind hselector
  · next hkind => exact absurd hkind hlbrack
  · next hkind => exact absurd hkind hlparen
  · next hkind => exact absurd hkind hpipe
  · exact reads_pure he

theorem primary_reads (h : (operand deep).ReadsIn K m before (g :: rest) P)
    (hg : g.kind ∉ Token.Kind.extenders) : (primary deep).ReadsIn K m before (g :: rest) P :=
  h.bind fun _ he => LoopsIn.reads (.done (primaryRound_done hg he))

theorem unary_reads (h : (primary deep).ReadsIn K m (f :: before) (g :: rest) P)
    (hf : unaryOp? f.kind = none) : (unary deep).ReadsIn K m (f :: before) (g :: rest) P := by
  apply reads_token
  intro pos
  simp only [hf]
  exact h

/-- A round of the loop that reads operations. -/
def binaryRound (deep : Nested) (least : Nat) (lhs : Expr) : Parse (Round Expr Expr) := do
  let token ← token
  let precedence := token.kind.precedence
  if precedence < least || precedence = 0 then return .done lhs
  else
    next
    let rhs ← deep.binary (if token.kind.isRightAssoc then precedence else precedence + 1)
    return .again (operation lhs token.kind token.pos rhs)

theorem binary_eq (deep : Nested) (least : Nat) :
    binary deep least = (unary deep >>= fun first => loop first (binaryRound deep least)) := rfl

/-- Operations end before what binds less tightly, and before what is no operator. -/
theorem binaryRound_done {least : Nat} (hg : g.kind.precedence < least ∨ g.kind.precedence = 0)
    {e : Expr} (he : P e) :
    (binaryRound deep least e).ReadsIn K m (g :: rest) (g :: rest) (Round.Done P) := by
  apply reads_token
  intro pos
  dsimp only
  rw [if_pos (by simpa using hg)]
  exact reads_pure he

theorem binary_of_unary (h : (unary deep).ReadsIn K m before (g :: rest) P)
    (hg : g.kind.precedence = 0) {least : Nat} :
    (binary deep least).ReadsIn K m before (g :: rest) P :=
  h.bind fun _ he => LoopsIn.reads (.done (binaryRound_done (.inr hg) he))

/-- Operations are a whole expression where there is no question. -/
theorem expr_of_binary (h : (binary deep 1).ReadsIn K m before (g :: rest) P)
    (hg : g.kind ≠ .question) : (expr deep).ReadsIn K m before (g :: rest) P := by
  refine h.bind fun e he => reads_kind ?_
  rw [if_pos hg]
  exact reads_pure he

/-- An operation with one operand is a whole expression. -/
theorem expr_of_unary (h : (unary deep).ReadsIn K m before (g :: rest) P)
    (hg : g.kind.endsExpr = true) : (expr deep).ReadsIn K m before (g :: rest) P := by
  obtain ⟨hprecedence, -, hquestion, -⟩ := Token.Kind.endsExpr_iff.1 hg
  exact expr_of_binary (binary_of_unary h hprecedence) hquestion

/-- An operand is a whole expression before what ends one. -/
theorem expr_reads (h : (operand deep).ReadsIn K m (f :: before) (g :: rest) P)
    (hf : unaryOp? f.kind = none) (hg : g.kind.endsExpr = true) :
    (expr deep).ReadsIn K m (f :: before) (g :: rest) P :=
  expr_of_unary (unary_reads (primary_reads h (Token.Kind.endsExpr_iff.1 hg).2.1) hf) hg

/-- A name is a whole expression before what ends one. -/
theorem expr_ident {name : String} (hg : g.kind.endsExpr = true) :
    (expr deep).ReadsIn K m (⟨.ident, name⟩ :: g :: rest) (g :: rest)
      fun e => ∃ pos, e = .ident ⟨name, pos⟩ :=
  expr_reads (operand_ident (Token.Kind.ne_lambda_of_endsExpr hg)) rfl hg

/-- A literal that has a value is a whole expression before what ends one. -/
theorem expr_literal {kind : Token.Kind} {text : String} {value : Value}
    (hkind : kind ∈ literalKinds) (hvalue : Value.ofToken? kind text = some value)
    (hg : g.kind.endsExpr = true) :
    (expr deep).ReadsIn K m (⟨kind, text⟩ :: g :: rest) (g :: rest)
      fun e => ∃ pos, e = .literal ⟨value, text, pos⟩ := by
  have hunary : ∀ kind ∈ literalKinds, unaryOp? kind = none := by decide
  exact expr_reads (operand_literal hkind hvalue) (hunary kind hkind) hg

/-- An expression is a row of its own before what ends one. -/
theorem exprs_reads (h : (expr deep).ReadsIn K m before (g :: rest) P)
    (hg : g.kind.endsExprs = true) :
    (exprs deep).ReadsIn K m before (g :: rest) fun list => ∃ e, list = [e] ∧ P e := by
  have hcomma : g.kind ≠ .comma := by simpa using (Bool.and_eq_true_iff.1 hg).2
  refine h.bind fun e he => LoopsIn.reads (.done ?_)
  refine (reads_accept_none hcomma).bind fun found hfound => ?_
  subst hfound
  exact reads_pure ⟨e, rfl, he⟩

/-- An expression is a statement before what ends one. -/
theorem simpleStmt_reads (h : (expr deep).ReadsIn K m before (g :: rest) P)
    (hg : g.kind.endsSimple = true) :
    (simpleStmt deep).ReadsIn K m before (g :: rest) fun s => ∃ e, s = .expr e ∧ P e := by
  have hends := hg
  simp only [Token.Kind.endsSimple, Bool.and_eq_true, Bool.not_eq_true', decide_eq_true_eq] at hends
  obtain ⟨⟨⟨-, hassign⟩, hinc⟩, hdec⟩ := hends
  refine (exprs_reads h (Token.Kind.endsExprs_of_endsSimple hg)).bind
    fun list ⟨e, hlist, he⟩ => reads_kind ?_
  subst hlist
  rw [hassign, if_neg Bool.false_ne_true]
  dsimp only
  rw [decide_eq_false hinc, decide_eq_false hdec, Bool.or_self, if_neg Bool.false_ne_true]
  exact reads_pure ⟨e, rfl, he⟩

/-- A name can be assigned to by every operator that assigns. -/
theorem assign_reads {name : String} {op : Token.Kind} (hop : op.isAssign = true)
    (h : (expr deep).ReadsIn K m (f :: before) (g :: rest) P) (hg : g.kind.endsExprs = true) :
    (simpleStmt deep).ReadsIn K m (⟨.ident, name⟩ :: ⟨op, ""⟩ :: f :: before) (g :: rest)
      fun s => ∃ pos opPos e, s = .assign [.ident ⟨name, pos⟩] op opPos [e] ∧ P e := by
  have hassigns : ∀ op ∈ Token.Kind.assignments, op.endsExprs = true := by decide
  have hends := hassigns op (List.contains_iff_mem.1 hop)
  refine (exprs_reads (expr_ident (Token.Kind.endsExpr_of_endsExprs hends)) hends).bind
    fun targets ⟨target, htargets, pos, htarget⟩ => reads_kind ?_
  subst htargets htarget
  rw [hop, if_pos rfl]
  apply reads_token
  intro opPos
  refine reads_next.bind fun _ _ => ?_
  have hcheck : checkTargets op [.ident ⟨name, pos⟩] = pure () := by
    rw [checkTargets, isTarget]
    split <;> rfl
  dsimp only
  rw [hcheck, pure_bind]
  refine (exprs_reads h hg).bind fun values ⟨e, hvalues, he⟩ => ?_
  subst hvalues
  have hbalanced : isBalanced op [.ident ⟨name, pos⟩] [e] = true := by
    rw [isBalanced]
    split <;> rfl
  rw [hbalanced]
  exact reads_pure ⟨pos, opPos, e, rfl, he⟩

end Grammar

end TemplateScript
