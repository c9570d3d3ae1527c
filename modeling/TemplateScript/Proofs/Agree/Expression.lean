import TemplateScript.Proofs.Agree.Params
import TemplateScript.Proofs.WellFormed.Expression

/-!
# Expressions that agree

An expression never uses up the source, since no semicolon ends it, and where the source has been
used up there is no expression. Every expression ends behind the start of the source, which matters
where a pipe takes the byte before its end for a parenthesis.
-/

namespace TemplateScript

open Parse Simulation

namespace Grammar

variable {S : Simulation} {given : Reader → Prop} {deep₁ deep₂ : Nested}

/-! ### Blocks -/

theorem closeBlock_agrees (hS : S.Lawful) :
    S.Agrees given .inside closeBlock closeBlock (· + S.gap) fun _ => True := by
  unfold closeBlock
  refine .pos_bind hS fun pos => .isFull_bind hS fun full => .ite Iff.rfl
    (fun _ => .pure rfl fun _ _ => trivial) fun _ => .kind_bind hS fun kind => ?_
  split
  · exact (next_agrees_of_kind hS (by decide)).bind fun _ => .pure rfl fun _ _ => trivial
  · exact (errorAt_agrees hS _ _).bind fun _ => .pure rfl fun _ _ => trivial
  · exact failExpected_agrees hS _

/-- There is no brace behind the end of the source. -/
theorem closeBlock_dies (hS : S.Lawful) : S.Dies closeBlock := by
  intro r hr
  have hin := hS.spent_inSource hr
  have hclose : closeBlock r =
      if r.isFull then .ok r.token.pos r
      else (errorAt r.token.pos .unclosedBrace >>= fun _ => Pure.pure r.token.pos) r := by
    unfold closeBlock
    rw [Parse.pos_bind, Parse.isFull_bind]
    split
    · rfl
    · rw [Parse.kind_bind, hS.spent_eof hr]
  rw [hclose]
  split
  · next hfull =>
    simp only [Reader.isFull, Bool.and_eq_true, decide_eq_true_eq] at hfull
    exact hS.lost_of_errors hr hin (List.length_pos_iff.1 (by omega))
  · have hrecorded : Accounted S.source r (fun _ => False) (errorAt r.token.pos .unclosedBrace r) :=
      (errorAt_accounts _ _).run hin
    rw [bind_run]
    generalize errorAt r.token.pos .unclosedBrace r = result at hrecorded
    cases result with
    | ok a r' => exact hS.lost_of_errors hr hrecorded.1.inSource hrecorded.2
    | error e r' =>
      cases e with
      | bail => exact hS.lost_of_errors hr hrecorded.1.inSource hrecorded.2
      | fault f => trivial

theorem block_agrees (hS : S.Lawful) (hdeep : deep₁.Agrees S deep₂) :
    S.Agrees given .inside (block deep₁) (block deep₂) (shiftBlock S.gap) fun _ => True := by
  unfold block
  refine (expect_agrees hS (by decide)).bind fun lbrace =>
    (hdeep.stmts.weaken fun _ _ => trivial).bind_dies (fun stmts => ?_) fun stmts =>
      (closeBlock_dies hS).map _
  exact (closeBlock_agrees hS).bind fun rbrace => .pure rfl fun _ _ => trivial

/-! ### Operands -/

theorem closure_agrees (hS : S.Lawful) (hdeep : deep₁.Agrees S deep₂) (pos : Pos)
    (params : Params Expr) :
    S.Agrees given .inside (closure deep₁ (pos + S.gap) (shiftParams S.gap params))
      (closure deep₂ pos params) (Expr.shift S.gap) (0 < ·.stop) := by
  unfold closure
  exact (expect_agrees hS (by decide)).bind fun arrow => (hdeep.expr.weaken fun _ _ => trivial).bind
    fun body => .pure rfl fun _ h => h.1

theorem separator_agrees (hS : S.Lawful) :
    S.Agrees given .beyond Grammar.separator Grammar.separator id fun _ => True := by
  unfold Grammar.separator
  refine (skipLineBreaks_agrees hS).bind_ends (fun _ => ?_) fun _ => ?_
  · refine (accept_agrees hS (by decide)).bind fun accepted => .ite Iff.rfl (fun _ => ?_) fun _ =>
      .pure rfl fun _ _ => trivial
    exact (skipLineBreaks_agrees hS).bind_ends (fun _ => .pure rfl fun _ _ => trivial) fun _ =>
      .pure trivial
  · refine (accept_ends hS (by decide)).bind ?_
    rintro _ rfl
    exact .pure trivial

/-- Entries agree if each of them does. -/
theorem entries_agrees {α : Type} (hS : S.Lawful) {closing : Token.Kind} (hclosing : closing ≠ .eof)
    {entry₁ entry₂ : Parse α} {move : α → α} {promise : α → Prop}
    (hentry : S.Agrees (fun _ => True) .inside entry₁ entry₂ move promise)
    (hbails : S.Bails entry₂) :
    S.Agrees given .beyond (entries closing entry₁) (entries closing entry₂) (List.map move)
      fun _ => True := by
  unfold entries
  refine (skipLineBreaks_agrees hS).bind_ends (fun _ => ?_) fun _ => ?_
  · refine .loop_beyond hS (List.map move) (fun _ => True) (fun list => ?_) (fun list => ?_) rfl
      fun _ _ => trivial
    · refine .kind_bind hS fun kind => .ite Iff.rfl (fun _ => .pure rfl fun _ _ => trivial) fun _ =>
        (hentry.weaken fun _ _ => trivial).bind fun e => (separator_agrees hS).bind_ends
          (fun more => ?_) fun more => ?_
      · exact .ite Iff.rfl (fun _ => .pure (by simp [Round.map]) fun _ _ => trivial) fun _ =>
          .pure (by simp [Round.map]) fun _ _ => trivial
      · split
        · exact .pure trivial
        · exact .pure trivial
    · refine .kind_bind hS ?_
      rw [if_neg hclosing.symm]
      exact (hbails.bind _).ends
  · refine .loop (fun _ => True) (fun list _ => .kind_bind hS ?_) trivial
    rw [if_neg hclosing.symm]
    exact (hbails.bind _).ends

theorem entries_ends {α : Type} (hS : S.Lawful) {closing : Token.Kind} (hclosing : closing ≠ .eof)
    {entry : Parse α} (hbails : S.Bails entry) :
    S.Ends (entries closing entry) fun _ => True := by
  unfold entries
  refine (skipLineBreaks_ends hS).bind fun _ _ =>
    .loop (fun _ => True) (fun list _ => .kind_bind hS ?_) trivial
  rw [if_neg hclosing.symm]
  exact (hbails.bind _).ends

theorem array_agrees (hS : S.Lawful) (hdeep : deep₁.Agrees S deep₂) :
    S.Agrees given .inside (array deep₁) (array deep₂) (Expr.shift S.gap) (0 < ·.stop) := by
  unfold array
  refine (expect_agrees hS (by decide)).bind fun lbrack =>
    (entries_agrees hS (by decide) hdeep.expr hdeep.expr_bails).bind_dies (fun elements => ?_)
      fun elements => ((expect_bails hS (by decide)).bind _).dies
  exact (expect_agrees hS (by decide)).bind fun rbrack => .pure
    (by simp only [Expr.shift, shiftExprs_eq_map]) fun _ _ => Nat.succ_pos _

theorem dictKey_agrees (hS : S.Lawful) :
    S.Agrees given .inside dictKey dictKey id fun _ => True := by
  unfold dictKey
  refine .token_bind hS fun t => ?_
  rw [Token.shift_kind, Token.shift_literal, Token.shift_text]
  generalize hkey : (if nameLiteralKinds.contains t.kind = true then Text.unquote t.literal
    else if (decide (t.kind = .ident) || t.kind.isKeyword) = true then some t.text
    else none) = key?
  cases key? with
  | none => exact failExpected_agrees hS _
  | some key =>
    refine (next_agrees hS ?_).bind fun _ => .pure rfl fun _ _ => trivial
    rintro r ⟨rfl, -⟩
    refine .inl fun h => ?_
    rw [h, if_neg (by decide), if_neg (by decide)] at hkey
    cases hkey

theorem dictKey_bails (hS : S.Lawful) : S.Bails dictKey := by
  unfold dictKey
  refine Ends.token_bind hS fun t ht => ?_
  simp only [ht]
  exact failExpected_bails hS _

theorem dictEntry_agrees (hS : S.Lawful) (hdeep : deep₁.Agrees S deep₂) :
    S.Agrees given .inside (dictEntry deep₁) (dictEntry deep₂) (DictEntry.shift S.gap)
      fun _ => True := by
  unfold dictEntry
  exact .pos_bind hS fun pos => (dictKey_agrees hS).bind fun key =>
    (expect_agrees hS (by decide)).bind fun _ => (hdeep.expr.weaken fun _ _ => trivial).bind
      fun value => .pure rfl fun _ _ => trivial

theorem dictEntry_bails (hS : S.Lawful) (deep : Nested) : S.Bails (dictEntry deep) := by
  unfold dictEntry
  exact Ends.pos_bind fun pos => (dictKey_bails hS).bind _

theorem dict_agrees (hS : S.Lawful) (hdeep : deep₁.Agrees S deep₂) :
    S.Agrees given .inside (dict deep₁) (dict deep₂) (Expr.shift S.gap) (0 < ·.stop) := by
  unfold dict
  refine (expect_agrees hS (by decide)).bind fun lbrace =>
    (entries_agrees hS (by decide) (dictEntry_agrees hS hdeep) (dictEntry_bails hS _)).bind_dies
      (fun list => ?_) fun list => ((expect_bails hS (by decide)).bind _).dies
  exact (expect_agrees hS (by decide)).bind fun rbrace => .pure
    (by simp only [Expr.shift, shiftEntries_eq_map]) fun _ _ => Nat.succ_pos _

theorem keyValue_agrees (hS : S.Lawful) (hdeep : deep₁.Agrees S deep₂) :
    S.Agrees given .inside (keyValue deep₁) (keyValue deep₂) (KeyValue.shift S.gap)
      fun _ => True := by
  unfold keyValue
  refine (argName_agrees hS).bind fun key => (accept_agrees hS (by decide)).bind fun accepted =>
    .ite Iff.rfl (fun _ => ?_) fun _ => .pure rfl fun _ _ => trivial
  exact (hdeep.expr.weaken fun _ _ => trivial).bind fun value => .pure rfl fun _ _ => trivial

theorem keyValue_bails (hS : S.Lawful) (deep : Nested) : S.Bails (keyValue deep) :=
  (argName_bails hS).bind _

theorem parenthesized_agrees (hS : S.Lawful) (hdeep : deep₁.Agrees S deep₂) :
    S.Agrees given .inside (parenthesized deep₁) (parenthesized deep₂) (Expr.shift S.gap)
      (0 < ·.stop) := by
  unfold parenthesized
  refine (expect_agrees hS (by decide)).bind fun lparen => .token_bind hS fun t =>
    .ite Iff.rfl (fun _ => ?_) fun _ => ?_
  · refine ((next_agrees_edge hS).beyond hS).bind_dies (fun _ => ?_) fun _ => ?_
    · refine (entries_agrees hS (by decide) (keyValue_agrees hS hdeep)
        (keyValue_bails hS _)).bind_dies
        (fun list => ?_) fun list => ((expect_bails hS (by decide)).bind _).dies
      exact (expect_agrees hS (by decide)).bind fun rparen => .pure
        (by simp only [Expr.shift, shiftKeyValues_eq_map]) fun _ _ => Nat.succ_pos _
    · refine (entries_ends hS (by decide) (keyValue_bails hS _)).dies_bind fun list _ =>
        ((expect_bails hS (by decide)).bind _).dies
  · refine (argList_agrees hS hdeep).bind_dies (fun list => ?_) fun list =>
      ((expect_bails hS (by decide)).bind _).dies
    obtain ⟨args, separated⟩ := list
    refine (expect_agrees hS (by decide)).bind fun rparen => .kind_bind hS fun kind =>
      .ite Iff.rfl (fun _ => ?_) fun _ => ?_
    · exact (paramsOfArgs_agrees hS lparen args rparen).bind fun params =>
        closure_agrees hS hdeep lparen params
    · dsimp only
      rw [shiftArgs_single?]
      cases args.single? with
      | none => exact .pure rfl fun _ _ => Nat.succ_pos _
      | some e =>
        cases separated with
        | true => exact .pure rfl fun _ _ => Nat.succ_pos _
        | false => exact .pure rfl fun _ _ => Nat.succ_pos _

theorem func_agrees (hS : S.Lawful) (hdeep : deep₁.Agrees S deep₂) :
    S.Agrees given .inside (func deep₁) (func deep₂) (Expr.shift S.gap) (0 < ·.stop) := by
  unfold func
  refine (expect_agrees hS (by decide)).bind fun pos => .kind_bind hS fun kind => ?_
  refine .ite_bind (Option.map (Ident.shift S.gap)) (fun _ => True)
    (fun _ => (expectIdent_agrees hS).map (fun _ => rfl) fun _ _ _ _ => trivial)
    (fun _ => .pure rfl fun _ _ => trivial) fun name => ?_
  refine (expect_agrees hS (by decide)).bind fun lparen =>
    (paramList_agrees hS hdeep lparen).bind_dies (fun params => ?_) fun params =>
      ((expect_bails hS (by decide)).bind _).dies
  obtain ⟨lparen, positional, variadic, named, namedVariadic, _⟩ := params
  refine (expect_agrees hS (by decide)).bind fun rparen => .kind_bind hS fun kind =>
    .ite Iff.rfl (fun _ => ?_) fun _ => ?_
  · exact closure_agrees hS hdeep pos ⟨lparen, positional, variadic, named, namedVariadic, rparen⟩
  · exact (block_agrees hS hdeep).bind fun body => .pure rfl fun _ _ => Nat.succ_pos _

theorem load_agrees (hS : S.Lawful) (kind : LoadKind)
    (hgiven : ∀ r, given r → r.token.kind ≠ .semicolon) :
    S.Agrees given .inside (load kind) (load kind) (Expr.shift S.gap) (0 < ·.stop) := by
  unfold load
  refine .pos_bind hS fun pos => (next_agrees hS fun r h => .inl (hgiven r h.2)).bind fun _ =>
    (expect_agrees hS (by decide)).bind fun _ => .token_bind hS fun t => ?_
  rw [Token.shift_kind, Token.shift_literal]
  generalize hpath : (if nameLiteralKinds.contains t.kind = true then Text.unquote t.literal
    else none) = path?
  cases path? with
  | none => exact failExpected_agrees hS _
  | some path =>
    refine (next_agrees hS ?_).bind fun _ => (expect_agrees hS (by decide)).bind fun rparen =>
      .pure rfl fun _ _ => Nat.succ_pos _
    rintro r ⟨rfl, -⟩
    refine .inl fun h => ?_
    rw [h, if_neg (by decide)] at hpath
    cases hpath

theorem single_agrees (hS : S.Lawful) (e : Expr) (he : 0 < e.stop)
    (hgiven : ∀ r, given r → r.token.kind ≠ .semicolon) :
    S.Agrees given .inside (single (e.shift S.gap)) (single e) (Expr.shift S.gap) (0 < ·.stop) := by
  unfold single
  exact (next_agrees hS fun r h => .inl (hgiven r h)).bind fun _ => .pure rfl fun _ _ => he

/-- A token of a kind that is spelled has a text, its own or that of its kind. -/
theorem text_pos {t : Token} {k : Token.Kind} (hk : t.kind = k)
    (hspelled : 0 < k.spelling.utf8ByteSize) : 0 < t.text.utf8ByteSize := by
  unfold Token.text
  split
  · rwa [hk]
  · next hliteral =>
    exact Nat.pos_of_ne_zero fun h => hliteral (String.utf8ByteSize_eq_zero_iff.1 h)

theorem operand_agrees (hS : S.Lawful) (hdeep : deep₁.Agrees S deep₂) :
    S.Agrees given .inside (operand deep₁) (operand deep₂) (Expr.shift S.gap) (0 < ·.stop) := by
  unfold operand
  refine .token_bind hS fun t => ?_
  have hkind {k : Token.Kind} (h : t.kind = k) (hk : k ≠ .semicolon) (r : Reader) :
      r.token = t ∧ given r → r.token.kind ≠ .semicolon := by
    rintro ⟨rfl, -⟩
    rwa [h]
  have hliteral {k : Token.Kind} (h : t.kind = k) (hk : k ∈ literalKinds) (r : Reader) :
      r.token = t ∧ given r → r.token.kind ∈ literalKinds := by
    rintro ⟨rfl, -⟩
    rwa [h]
  rw [Token.shift_kind]
  dsimp only [Token.shift_pos, Token.shift_text]
  split
  case h_1 =>
    refine (expectIdent_agrees hS).bind fun ident => .kind_bind hS fun kind =>
      .ite Iff.rfl (fun _ => ?_) fun _ => .pure rfl ?_
    · rw [Ident.stop_shift]
      exact closure_agrees hS hdeep t.pos
        { lparen := t.pos, positional := [⟨ident, []⟩], rparen := ident.stop }
    · rintro - ⟨-, hname, -⟩
      exact Nat.add_pos_right _ hname
  case h_18 => exact array_agrees hS hdeep
  case h_19 => exact dict_agrees hS hdeep
  case h_20 => exact parenthesized_agrees hS hdeep
  case h_21 => exact func_agrees hS hdeep
  case h_22 h => exact load_agrees hS _ (hkind h (by decide))
  case h_23 h => exact load_agrees hS _ (hkind h (by decide))
  case h_24 h =>
    refine (next_agrees hS fun r hr => .inl (hkind h (by decide) r hr)).bind fun _ => ?_
    refine (atExprEnd_agrees hS).bind fun ends => .ite Iff.rfl
      (fun _ => .pure rfl fun _ _ => Nat.add_pos_right _ (by decide)) fun _ => ?_
    exact (hdeep.expr.weaken fun _ _ => trivial).bind fun result => .pure rfl fun _ h => h.1
  case h_25 => exact failAt_agrees hS _ _
  all_goals first
    | exact literal_agrees hS (hliteral ‹_› (by decide))
    | exact single_agrees hS (.literal ⟨_, _, _⟩)
        (Nat.add_pos_right _ (text_pos ‹_› (by decide))) (hkind ‹_› (by decide))
    | exact single_agrees hS (.word _ _) (Nat.add_pos_right _ (by decide)) (hkind ‹_› (by decide))

theorem operand_bails (hS : S.Lawful) (deep : Nested) : S.Bails (operand deep) := by
  unfold operand
  refine Ends.token_bind hS fun t ht => ?_
  rw [ht]
  exact failAt_bails hS _ _

/-! ### What follows an operand -/

theorem selection_agrees (hS : S.Lawful) (hdeep : deep₁.Agrees S deep₂) (base : Expr)
    (hgiven : ∀ r, given r → r.token.kind ≠ .semicolon) :
    S.Agrees given .inside (selection deep₁ (base.shift S.gap)) (selection deep₂ base)
      (Expr.shift S.gap) (0 < ·.stop) := by
  unfold selection
  refine .kind_bind hS fun kind => (next_agrees hS fun r h => .inl (hgiven r h.2)).bind fun _ =>
    .token_bind hS fun t => .ite Iff.rfl (fun hkind => ?_) fun _ => .ite Iff.rfl (fun hname => ?_)
      fun _ => failExpected_agrees hS _
  · refine (next_agrees hS ?_).bind fun _ => (hdeep.expr.weaken fun _ _ => trivial).bind
      fun name => (expect_agrees hS (by decide)).bind fun _ => .pure rfl ?_
    · rintro r ⟨rfl, -⟩
      exact .inl fun h => by simp [hkind] at h
    · rintro - ⟨-, -, hstop, -⟩
      exact hstop
  · refine (next_agrees hS ?_).bind fun _ => .pure rfl fun _ _ => Nat.add_pos_right _ ?_
    · rintro r ⟨rfl, -⟩
      refine .inl fun h => ?_
      rw [h] at hname
      revert hname
      decide
    · rw [String.utf8ByteSize_append, String.utf8ByteSize_append]
      exact Nat.add_pos_right _ (by decide)

theorem sliceEnd_agrees (hS : S.Lawful) (hdeep : deep₁.Agrees S deep₂) (base : Expr) (lbrack : Pos)
    (low : Option Expr) (hgiven : ∀ r, given r → r.token.kind ≠ .semicolon) :
    S.Agrees given .inside
      (sliceEnd deep₁ (base.shift S.gap) (lbrack + S.gap) (shiftExpr? S.gap low))
      (sliceEnd deep₂ base lbrack low) (Expr.shift S.gap) (0 < ·.stop) := by
  unfold sliceEnd
  refine (next_agrees hS fun r h => .inl (hgiven r h)).bind fun _ => .kind_bind hS fun kind => ?_
  refine .ite_bind (shiftExpr? S.gap) (fun _ => True) (fun _ => .pure rfl fun _ _ => trivial)
    (fun _ => (hdeep.expr.weaken fun _ _ => trivial).map (fun _ => rfl) fun _ _ _ _ => trivial)
    fun high => ?_
  exact (expect_agrees hS (by decide)).bind fun rbrack => .pure rfl fun _ _ => Nat.succ_pos _

theorem indexOrSlice_agrees (hS : S.Lawful) (hdeep : deep₁.Agrees S deep₂) (base : Expr) :
    S.Agrees given .inside (indexOrSlice deep₁ (base.shift S.gap)) (indexOrSlice deep₂ base)
      (Expr.shift S.gap) (0 < ·.stop) := by
  have hcolon {k : Token.Kind} {given : Reader → Prop} (hk : k = .colon) (r : Reader)
      (h : r.token.kind = k ∧ given r) : r.token.kind ≠ .semicolon := by
    rw [h.1, hk]
    decide
  unfold indexOrSlice
  refine (expect_agrees hS (by decide)).bind fun lbrack => .kind_bind hS fun kind =>
    .ite Iff.rfl (fun h => sliceEnd_agrees hS hdeep base lbrack none (hcolon h)) fun _ => ?_
  refine (hdeep.expr.weaken fun _ _ => trivial).bind fun low => .kind_bind hS fun kind =>
    .ite Iff.rfl (fun h => sliceEnd_agrees hS hdeep base lbrack (some low) (hcolon h)) fun _ => ?_
  exact (expect_agrees hS (by decide)).bind fun rbrack => .pure rfl fun _ _ => Nat.succ_pos _

theorem callArgs_agrees (hS : S.Lawful) (hdeep : deep₁.Agrees S deep₂) :
    S.Agrees given .inside (callArgs deep₁) (callArgs deep₂)
      (fun call => (call.1 + S.gap, shiftArgs S.gap call.2.1, call.2.2 + S.gap))
      fun _ => True := by
  unfold callArgs
  refine (expect_agrees hS (by decide)).bind fun lparen => (argList_agrees hS hdeep).bind_dies
    (fun list => ?_) fun list => ((expect_bails hS (by decide)).bind _).dies
  exact (expect_agrees hS (by decide)).bind fun rparen => .pure rfl fun _ _ => trivial

theorem pipedFunc_agrees (hS : S.Lawful) (hdeep : deep₁.Agrees S deep₂) :
    S.Agrees given .inside (pipedFunc deep₁) (pipedFunc deep₂) (Expr.shift S.gap)
      (0 < ·.stop) := by
  unfold pipedFunc
  refine (operand_agrees hS hdeep).bind fun first =>
    .loop hS (Expr.shift S.gap) (0 < ·.stop) (fun f => ?_) rfl fun _ h => h.1
  refine .kind_bind hS fun kind => .ite Iff.rfl (fun hkind => ?_) fun _ => .pure rfl fun _ h => h.2
  refine (selection_agrees hS hdeep f ?_).bind fun _ => .pure rfl fun _ h => h.1
  rintro r ⟨rfl, -⟩ h
  simp [h] at hkind

theorem pipe_agrees (hS : S.Lawful) (hdeep : deep₁.Agrees S deep₂) (first : Expr)
    (hgiven : ∀ r, given r → r.token.kind ≠ .semicolon) :
    S.Agrees given .inside (pipe deep₁ (first.shift S.gap)) (pipe deep₂ first) (Expr.shift S.gap)
      (0 < ·.stop) := by
  unfold pipe
  refine (next_agrees hS fun r h => .inl (hgiven r h)).bind fun _ =>
    (pipedFunc_agrees hS hdeep).bind fun f => .kind_bind hS fun kind => ?_
  refine .ite_bind (fun call => (call.1 + S.gap, shiftArgs S.gap call.2.1, call.2.2 + S.gap))
    (fun _ => True) (fun _ => callArgs_agrees hS hdeep) (fun _ => .pure_of ?_) fun call => ?_
  · rintro - ⟨-, hstop, -⟩
    refine ⟨?_, trivial⟩
    rw [Expr.stop_shift, Nat.sub_add_comm hstop]
    rfl
  · obtain ⟨lparen, ⟨positional, spread, named, namedSpread⟩, rparen⟩ := call
    exact .pure rfl fun _ _ => Nat.succ_pos _

theorem primary_agrees (hS : S.Lawful) (hdeep : deep₁.Agrees S deep₂) :
    S.Agrees given .inside (primary deep₁) (primary deep₂) (Expr.shift S.gap) (0 < ·.stop) := by
  unfold primary
  refine (operand_agrees hS hdeep).bind fun first =>
    .loop hS (Expr.shift S.gap) (0 < ·.stop) (fun e => ?_) rfl fun _ h => h.1
  refine .kind_bind hS fun kind => ?_
  have hkind {k : Token.Kind} (hk : k ≠ .semicolon) (r : Reader)
      (h : r.token.kind = k ∧ 0 < e.stop) : r.token.kind ≠ .semicolon := by
    rwa [h.1]
  split
  · exact (selection_agrees hS hdeep e (hkind (by decide))).bind fun _ => .pure rfl fun _ h => h.1
  · exact (selection_agrees hS hdeep e (hkind (by decide))).bind fun _ => .pure rfl fun _ h => h.1
  · exact (indexOrSlice_agrees hS hdeep e).bind fun _ => .pure rfl fun _ h => h.1
  · exact (callArgs_agrees hS hdeep).bind fun call => .pure rfl fun _ _ => Nat.succ_pos _
  · exact (pipe_agrees hS hdeep e (hkind (by decide))).bind fun _ => .pure rfl fun _ h => h.1
  · exact .pure rfl fun _ h => h.2

theorem primary_bails (hS : S.Lawful) (deep : Nested) : S.Bails (primary deep) :=
  (operand_bails hS deep).bind _

/-! ### Operations -/

theorem unary_agrees (hS : S.Lawful) (hdeep : deep₁.Agrees S deep₂) :
    S.Agrees given .inside (unary deep₁) (unary deep₂) (Expr.shift S.gap) (0 < ·.stop) := by
  unfold unary
  refine .token_bind hS fun t => ?_
  rw [Token.shift_kind]
  cases hop : unaryOp? t.kind with
  | none => exact primary_agrees hS hdeep
  | some op =>
    refine (next_agrees hS ?_).bind fun _ => (hdeep.unary.weaken fun _ _ => trivial).bind
      fun e => .pure rfl ?_
    · rintro r ⟨rfl, -⟩
      refine .inl fun h => ?_
      rw [h] at hop
      cases hop
    · rintro r ⟨hstop, -⟩
      show 0 < (Expr.unary op t.pos e).stop
      unfold Expr.stop
      split
      · exact Nat.add_pos_right _ (by cases op <;> decide)
      · exact hstop

theorem unary_bails (hS : S.Lawful) (deep : Nested) : S.Bails (unary deep) := by
  unfold unary
  refine Ends.token_bind hS fun t ht => ?_
  rw [ht]
  exact primary_bails hS deep

theorem operation_shift (n : Nat) (lhs : Expr) (op : Token.Kind) (opPos : Pos) (rhs : Expr) :
    operation (lhs.shift n) op (opPos + n) (rhs.shift n) =
      (operation lhs op opPos rhs).shift n := by
  cases rhs with
  | word w pos => cases w <;> cases op <;> rfl
  | _ => cases op <;> rfl

theorem operation_stop_pos {lhs rhs : Expr} (op : Token.Kind) (opPos : Pos)
    (hrhs : 0 < rhs.stop) : 0 < (operation lhs op opPos rhs).stop := by
  unfold operation
  split
  · exact Nat.add_pos_right _ (by decide)
  · exact Nat.add_pos_right _ (by decide)
  · exact hrhs

theorem binary_agrees (hS : S.Lawful) (hdeep : deep₁.Agrees S deep₂) (least : Nat) :
    S.Agrees given .inside (binary deep₁ least) (binary deep₂ least) (Expr.shift S.gap)
      (0 < ·.stop) := by
  unfold binary
  refine (unary_agrees hS hdeep).bind fun first =>
    .loop hS (Expr.shift S.gap) (0 < ·.stop) (fun lhs => ?_) rfl fun _ h => h.1
  refine .token_bind hS fun t => .ite Iff.rfl (fun _ => .pure rfl fun _ h => h.2)
    fun hprecedence => ?_
  refine (next_agrees hS ?_).bind fun _ => ((hdeep.binary _).weaken fun _ _ => trivial).bind
    fun rhs => .pure ?_ fun _ h => operation_stop_pos _ _ h.1
  · rintro r ⟨rfl, -⟩
    refine .inl fun h => hprecedence ?_
    rw [h]
    exact Bool.or_eq_true_iff.2 (.inr rfl)
  · exact congrArg Round.again (operation_shift _ _ _ _ _)

theorem binary_bails (hS : S.Lawful) (deep : Nested) (least : Nat) : S.Bails (binary deep least) :=
  (unary_bails hS deep).bind _

/-- What follows the test of a conditional and its first mark. -/
theorem branches_agrees (hS : S.Lawful) (hdeep : deep₁.Agrees S deep₂) (test : Expr)
    (question : Pos) :
    S.Agrees (fun r => r.token.kind = .question ∧ S.passed r question) .inside
      (do
        next
        let yes ← deep₁.expr
        let token ← token
        if token.isInsertedSemicolon then failAt token.pos .ternaryLineBreak
        else if token.kind ≠ .colon then failExpected ":"
        else if (← line token.pos) ≠ (← line (question + S.gap)) then
          failAt token.pos .ternaryLineBreak
        else
          next
          let no ← deep₁.expr
          return .cond (test.shift S.gap) (question + S.gap) yes token.pos no)
      (do
        next
        let yes ← deep₂.expr
        let token ← token
        if token.isInsertedSemicolon then failAt token.pos .ternaryLineBreak
        else if token.kind ≠ .colon then failExpected ":"
        else if (← line token.pos) ≠ (← line question) then failAt token.pos .ternaryLineBreak
        else
          next
          let no ← deep₂.expr
          return .cond test question yes token.pos no) (Expr.shift S.gap) (0 < ·.stop) := by
  refine .bind_onward hS (next_agrees_of_kind hS (by decide)) next_accounts fun _ =>
    .bind_onward hS (hdeep.expr.weaken fun _ _ => trivial)
      (Accounts.promised hdeep.accounts.expr fun _ _ _ => trivial) fun yes => ?_
  refine .marked hS (.token_bind hS fun t => .ite Iff.rfl (fun _ => failAt_agrees hS _ _) fun _ =>
    .ite Iff.rfl (fun _ => failExpected_agrees hS _) fun hcolon => ?_)
  refine .line_ne_bind hS ?_ (failAt_agrees hS _ _) ?_
  · rintro r ⟨rfl, hmarked, -, r₁, ⟨-, r₀, ⟨-, hquestion⟩, h₀⟩, h₁⟩
    exact ⟨hmarked (.inr (not_not.1 hcolon)),
      hS.passed_mono hquestion (Nat.le_trans h₀ h₁)⟩
  · refine (next_agrees hS ?_).bind fun _ => (hdeep.expr.weaken fun _ _ => trivial).bind
      fun no => .pure rfl fun _ h => h.1
    rintro r ⟨rfl, -⟩
    exact .inl fun h => hcolon (by rw [h]; decide)

theorem expr_agrees (hS : S.Lawful) (hdeep : deep₁.Agrees S deep₂) :
    S.Agrees given .inside (expr deep₁) (expr deep₂) (Expr.shift S.gap) (0 < ·.stop) := by
  unfold expr
  refine (binary_agrees hS hdeep 1).bind fun test => .kind_bind hS fun kind => .ite Iff.rfl
    (fun _ => .pure rfl fun _ h => h.2.1) fun hkind => .marked hS (.pos_bind hS fun question => ?_)
  refine (branches_agrees hS hdeep test question).weaken ?_
  rintro r ⟨rfl, hmarked, rfl, -⟩
  exact ⟨not_not.1 hkind, hmarked (.inl (not_not.1 hkind))⟩

theorem expr_bails (hS : S.Lawful) (deep : Nested) : S.Bails (expr deep) :=
  (binary_bails hS deep 1).bind _

theorem exprs_agrees (hS : S.Lawful) (hdeep : deep₁.Agrees S deep₂) :
    S.Agrees given .inside (exprs deep₁) (exprs deep₂) (shiftExprs S.gap) fun _ => True := by
  unfold exprs
  refine (expr_agrees hS hdeep).bind fun first => .loop hS (shiftExprs S.gap) (fun _ => True)
    (fun list => ?_) rfl fun _ _ => trivial
  refine (accept_agrees hS (by decide)).bind fun accepted => .ite Iff.rfl (fun _ => ?_)
    fun _ => .pure rfl fun _ _ => trivial
  exact (expr_agrees hS hdeep).bind fun e => .pure (by simp [Round.map, shiftExprs_eq_map])
    fun _ _ => trivial

theorem exprs_bails (hS : S.Lawful) (deep : Nested) : S.Bails (exprs deep) :=
  (expr_bails hS deep).bind _

end Grammar

end TemplateScript
