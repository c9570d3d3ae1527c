import TemplateScript.Proofs.Agree.Template
import TemplateScript.Proofs.WellFormed.Document

/-!
# Documents that agree

Statements in a row agree one by one. The list of a block may break off where the source ends; on
the outermost level it is told between which two statements that happened, so the rounds of a list
have names here.
-/

namespace TemplateScript

open Parse Simulation

namespace Grammar

variable {S : Simulation} {given : Reader → Prop} {E : Ending} {deep₁ deep₂ : Nested}

/-! ### Statements of any sort -/

theorem emptyStmt_agrees (hS : S.Lawful) :
    S.Agrees given .edge emptyStmt emptyStmt (Stmt.shift S.gap) (·.isCodeEnd = false) := by
  unfold emptyStmt
  exact .token_bind hS fun t => (next_agrees_edge hS).map (fun _ => rfl) fun _ _ _ _ => rfl

theorem blockStmt_agrees (hS : S.Lawful) (hdeep : deep₁.Agrees S deep₂) :
    S.Agrees given .edge (blockStmt deep₁) (blockStmt deep₂) (Stmt.shift S.gap)
      (·.isCodeEnd = false) := by
  unfold blockStmt
  exact (block_agrees hS hdeep).bind fun body => (expectSemicolon_agrees hS).map (fun _ => rfl)
    fun _ _ _ _ => rfl

theorem throwStmt_agrees (hS : S.Lawful) (hdeep : deep₁.Agrees S deep₂)
    (hgiven : ∀ r, given r → r.token.kind ≠ .semicolon) :
    S.Agrees given .edge (throwStmt deep₁) (throwStmt deep₂) (Stmt.shift S.gap)
      (·.isCodeEnd = false) := by
  unfold throwStmt
  exact .pos_bind hS fun pos => (next_agrees hS fun r h => .inl (hgiven r h.2)).bind fun _ =>
    (expr_agrees hS hdeep).bind fun e => (expectSemicolon_agrees hS).map (fun _ => rfl)
      fun _ _ _ _ => rfl

theorem returnStmt_agrees (hS : S.Lawful) (hdeep : deep₁.Agrees S deep₂)
    (hgiven : ∀ r, given r → r.token.kind ≠ .semicolon) :
    S.Agrees given .edge (returnStmt deep₁) (returnStmt deep₂) (Stmt.shift S.gap)
      (·.isCodeEnd = false) := by
  unfold returnStmt
  refine .pos_bind hS fun pos => (next_agrees hS fun r h => .inl (hgiven r h.2)).bind fun _ =>
    (atExprEnd_agrees hS).bind fun ends => ?_
  refine .ite_bind (shiftExpr? S.gap) (fun _ => True) (fun _ => .pure rfl fun _ _ => trivial)
    (fun _ => (expr_agrees hS hdeep).map (fun _ => rfl) fun _ _ _ _ => trivial) fun result => ?_
  exact (expectSemicolon_agrees hS).map (fun _ => rfl) fun _ _ _ _ => rfl

theorem branchStmt_agrees (hS : S.Lawful) (hgiven : ∀ r, given r → r.token.kind ≠ .semicolon) :
    S.Agrees given .edge branchStmt branchStmt (Stmt.shift S.gap) (·.isCodeEnd = false) := by
  unfold branchStmt
  exact .token_bind hS fun t => (next_agrees hS fun r h => .inl (hgiven r h.2)).bind fun _ =>
    (expectSemicolon_agrees hS).map (fun _ => rfl) fun _ _ _ _ => rfl

/-- A statement agrees with its like, and in plain code it does not close any. -/
theorem stmt_agrees (hS : S.Lawful) (hdeep : deep₁.Agrees S deep₂) :
    S.Agrees given .edge (stmt deep₁) (stmt deep₂) (Stmt.shift S.gap) fun s =>
      S.plain → s.isCodeEnd = false := by
  unfold stmt
  refine .token_bind hS fun t => ?_
  have hkind {k : Token.Kind} (h : t.kind = k) (hk : k ≠ .semicolon) (r : Reader) :
      r.token = t ∧ given r → r.token.kind ≠ .semicolon := by
    rintro ⟨rfl, -⟩
    rwa [h]
  have hother {p₁ p₂ : Parse Stmt} (h : S.Agrees (fun r => r.token = t ∧ given r) .edge p₁ p₂
      (Stmt.shift S.gap) (·.isCodeEnd = false)) : S.Agrees (fun r => r.token = t ∧ given r) .edge
        p₁ p₂ (Stmt.shift S.gap) fun s => S.plain → s.isCodeEnd = false :=
    h.promised fun _ h _ => h
  rw [Token.shift_kind]
  dsimp only [Token.shift_pos, Token.shift_describe]
  split
  case h_1 => exact hother (emptyStmt_agrees hS)
  case h_2 => exact hother (blockStmt_agrees hS hdeep)
  case h_3 => exact hother (ifStmt_agrees hS hdeep)
  case h_4 => exact hother (forStmt_agrees hS hdeep)
  case h_5 => exact hother (tryStmt_agrees hS hdeep)
  case h_6 h => exact hother (throwStmt_agrees hS hdeep (hkind h (by decide)))
  case h_7 h => exact hother (returnStmt_agrees hS hdeep (hkind h (by decide)))
  case h_8 h => exact hother (branchStmt_agrees hS (hkind h (by decide)))
  case h_9 h => exact hother (branchStmt_agrees hS (hkind h (by decide)))
  case h_14 h => exact hother (mixedText_agrees hS (hkind h (by decide))).inside
  case h_15 h =>
    exact (delimiter_agrees hS (hkind h (by decide))).bind fun d => .pure rfl fun _ _ _ => rfl
  case h_16 h =>
    by_cases hplain : S.plain
    · refine .absurd ?_ fun r₁ r₂ hr hgiven => ?_
      · exact (hS.keeps delimiter_accounts).bind fun d => .pure _
      · exact (hS.isCode hplain hr).2 (by rw [hgiven.1, h])
    · exact (delimiter_agrees hS (hkind h (by decide))).bind fun d =>
        .pure rfl fun _ _ k => absurd k hplain
  case h_17 h => exact hother (mixedValue_agrees hS hdeep (hkind h (by decide))).inside
  case h_18 h => exact hother (pragma_agrees hS hdeep (hkind h (by decide))).inside
  case h_22 =>
    exact (simpleStmt_agrees hS hdeep).bind fun s => (expectSemicolon_agrees hS).map (fun _ => rfl)
      fun _ h _ _ _ => h.1
  all_goals first
    | exact hother (decl_agrees hS hdeep (hkind ‹_› (by decide)))
    | exact failAt_agrees hS _ _

/-! ### Resuming -/

theorem resync_agrees (hS : S.Lawful) (hendless : ∀ r, ¬ S.spent r) :
    S.Agrees given .inside resync resync id fun _ => True := by
  have hnext {given : Reader → Prop} : S.Agrees given .inside next next id fun _ => True :=
    next_agrees hS fun _ _ => .inr hendless
  unfold resync
  refine .pos_bind hS fun start => .loop hS id (fun _ => True) (fun depth => ?_) rfl
    fun _ _ => trivial
  refine .token_bind hS fun t => .isFull_bind hS fun full => .ite Iff.rfl
    (fun _ => .pure rfl fun _ _ => trivial) fun _ => .ite Iff.rfl
      (fun _ => .pure rfl fun _ _ => trivial) fun _ => .ite Iff.rfl (fun _ => ?_) fun _ =>
        .ite Iff.rfl (fun _ => ?_) fun _ => .ite Iff.rfl (fun _ => ?_) fun _ => ?_
  · exact hnext.bind fun _ => .pure rfl fun _ _ => trivial
  · exact hnext.bind fun _ => .pure rfl fun _ _ => trivial
  · exact .ite Iff.rfl (fun _ => .pure rfl fun _ _ => trivial) fun _ => hnext.bind fun _ =>
      .pure rfl fun _ _ => trivial
  · refine .ite ?_ (fun _ => .pure rfl fun _ _ => trivial) fun _ => hnext.bind fun _ =>
      .pure rfl fun _ _ => trivial
    simp only [Token.shift_pos, Token.shift_kind, ne_eq, Nat.add_right_cancel_iff]
    exact Iff.rfl

theorem skipStmt_agrees (hS : S.Lawful) (hendless : ∀ r, ¬ S.spent r) (first : Token) :
    S.Agrees given .inside (skipStmt (first.shift S.gap)) (skipStmt first) (Stmt.shift S.gap)
      (·.isCodeEnd = false) := by
  unfold skipStmt
  refine (resync_agrees hS hendless).bind fun _ => .token_bind hS fun t => ?_
  refine .ite ?_ (fun _ => ?_) fun _ => .pos_bind hS fun last => .pure rfl fun _ _ => rfl
  · simp only [Token.shift_pos, Token.shift_kind, Nat.add_right_cancel_iff]
    exact Iff.rfl
  · exact (next_agrees hS fun _ _ => .inr hendless).bind fun _ => .pos_bind hS fun last =>
      .pure rfl fun _ _ => rfl

/-! ### Statements in a row -/

theorem addStmt_of_isCode {list : List Stmt} {s : Stmt} (hs : s.isCodeEnd = false) :
    addStmt list s = pure (s :: list) := by
  cases s with
  | codeEnd d => cases hs
  | _ => rfl

theorem foldValue_shift (n : Nat) (list : List Stmt) :
    foldValue (shiftStmts n list) = shiftStmts n (foldValue list) := by
  match list with
  | [] | [_] | [_, _] => simp [shiftStmts, foldValue]
  | closing :: middle :: opening :: before =>
    cases closing with
    | codeEnd d =>
      cases middle with
      | expr e => cases opening <;> rfl
      | _ => rfl
    | _ => rfl

/-- No value to emit reaches back into the statements. -/
def Settled (before : List Stmt) : Prop :=
  ∀ s list, foldValue (s :: (list ++ before)) = foldValue (s :: list) ++ before

theorem settled_nil : Settled [] := fun s list => by rw [List.append_nil, List.append_nil]

/-- No value to emit reaches back into a statement that could not be a part of it. -/
theorem settled_single {s : Stmt} (hexpr : ∀ e, s ≠ .expr e) (hopening : ∀ d, s ≠ .codeBegin d) :
    Settled [s] := by
  intro last list
  cases last with
  | codeEnd closing =>
    match list with
    | [] => cases s <;> rfl
    | [e] =>
      cases e with
      | expr e =>
        cases s with
        | codeBegin d => exact absurd rfl (hopening d)
        | _ => rfl
      | _ => rfl
    | e :: opening :: rest =>
      cases e with
      | expr e => cases opening <;> rfl
      | _ => rfl
  | _ => rfl

theorem isCodeEnd_shift (n : Nat) (s : Stmt) : (s.shift n).isCodeEnd = s.isCodeEnd := by
  cases s <;> rfl

theorem atStmtsEnd_agrees (hS : S.Lawful) (inBlock : Bool) :
    S.Agrees given .inside (atStmtsEnd inBlock) (atStmtsEnd inBlock) id fun _ => True := by
  unfold atStmtsEnd
  exact .kind_bind hS fun kind => .isFull_bind hS fun full => .pure rfl fun _ _ => trivial

/-- A statement is added to the ones before it, with others that are known already before those of
the first run. -/
theorem addStmt_agrees (hS : S.Lawful) {before : List Stmt} (hbefore : S.plain ∨ Settled before)
    (list : List Stmt) {s : Stmt} (hs : S.plain → s.isCodeEnd = false) :
    S.Agrees given .inside (addStmt (shiftStmts S.gap list ++ before) (s.shift S.gap))
      (addStmt list s) (shiftStmts S.gap · ++ before) fun _ => True := by
  by_cases hcode : s.isCodeEnd = false
  · rw [addStmt_of_isCode hcode, addStmt_of_isCode ((isCodeEnd_shift _ _).trans hcode)]
    exact .pure rfl fun _ _ => trivial
  · have hsettled : Settled before := hbefore.resolve_left fun hplain => hcode (hs hplain)
    cases s with
    | codeEnd d =>
      refine .get_bind hS fun r₁ r₂ on hoptions => .ite (by rw [hoptions]) (fun _ => ?_) fun _ =>
        .pure rfl fun _ _ => trivial
      refine .pure ?_ fun _ _ => trivial
      rw [← foldValue_shift]
      exact hsettled _ _
    | _ => exact absurd rfl hcode

/-- Rounds of a list agree, with statements that are known already before those of the first run.
-/
theorem stmtsRound_agrees (hS : S.Lawful) (hdeep : deep₁.Agrees S deep₂) (inBlock : Bool)
    {before : List Stmt} (hbefore : S.plain ∨ Settled before) (list : List Stmt) :
    S.Agrees given .edge (stmtsRound deep₁ inBlock (shiftStmts S.gap list ++ before))
      (stmtsRound deep₂ inBlock list)
      (Round.map (shiftStmts S.gap · ++ before) (before.reverse ++ shiftStmts S.gap ·))
      fun _ => True := by
  unfold stmtsRound
  refine (atStmtsEnd_agrees hS inBlock).bind fun ends => .ite Iff.rfl (fun _ => .pure ?_ fun _ _ =>
    trivial) fun _ => .token_bind hS fun first => (attempt_agrees (stmt_agrees hS hdeep)).bind_edge
      (fun read => ?_) fun read r₁ r₂ hread hedge => ?_
  · simp only [Round.map, shiftStmts_eq_map, List.reverse_append, List.map_reverse]
  · cases read with
    | some s =>
      refine .assume ((hS.keeps_of (addStmt_accounts list s)).bind fun _ => .pure _)
        (fun _ h => h.1) fun hs => ?_
      exact (addStmt_agrees hS hbefore list hs).bind fun list => .pure rfl fun _ _ => trivial
    | none =>
      refine .assume ((hS.keeps (skipStmt_accounts first)).bind fun _ => .pure _)
        (fun _ h => h.1) fun hendless => ?_
      exact (skipStmt_agrees hS hendless first).bind fun bad => .pure rfl fun _ _ => trivial
  · cases read with
    | some s =>
      have hs : s.isCodeEnd = false := hread (hS.edge_plain hedge)
      dsimp only [Option.map_some]
      rw [addStmt_of_isCode hs, addStmt_of_isCode ((isCodeEnd_shift _ _).trans hs)]
      exact .edge (a := Round.again (s :: list)) rfl trivial hedge
    | none => exact absurd (hS.edge_spent hedge) (hread _)

theorem stmtsRound_ends (hS : S.Lawful) (deep : Nested) (inBlock : Bool) (list : List Stmt) :
    S.Ends (stmtsRound deep inBlock list) fun _ => True := by
  intro r hr
  unfold stmtsRound atStmtsEnd
  rw [bind_assoc, Parse.kind_bind, bind_assoc, Parse.isFull_bind, hS.spent_eof hr]
  cases r.isFull <;> exact ⟨hr, trivial⟩

theorem stmts_agrees (hS : S.Lawful) (hdeep : deep₁.Agrees S deep₂) (inBlock : Bool) :
    S.Agrees given .beyond (stmts deep₁ inBlock) (stmts deep₂ inBlock) (shiftStmts S.gap)
      fun _ => True := by
  rw [stmts_eq, stmts_eq]
  refine .loop_beyond hS (shiftStmts S.gap) (fun _ => True) (fun list => ?_)
    (fun list => stmtsRound_ends hS deep₂ inBlock list) rfl fun _ _ => trivial
  have hround : S.Agrees (fun _ => True) .edge _ _ _ _ :=
    stmtsRound_agrees hS hdeep inBlock (.inr settled_nil) list
  simp only [List.append_nil, List.reverse_nil, List.nil_append] at hround
  refine (hround.beyond hS).promised fun result _ => ?_
  cases result <;> trivial

end Grammar

/-! ### Depth -/

namespace Nested

variable {S : Simulation}

theorem agrees_ofDepth (hS : S.Lawful) {depth₁ depth₂ : Nat} (hdepth : depth₂ ≤ depth₁) :
    (ofDepth depth₁).Agrees S (ofDepth depth₂) := by
  induction depth₂ generalizing depth₁ with
  | zero => exact
    { accounts := accounts_none
      expr := ⟨fun _ _ => trivial, fun _ _ => .lost trivial⟩
      binary := fun _ => ⟨fun _ _ => trivial, fun _ _ => .lost trivial⟩
      unary := ⟨fun _ _ => trivial, fun _ _ => .lost trivial⟩
      stmts := ⟨fun _ _ => trivial, fun _ _ => .lost trivial⟩
      ifStmt := ⟨fun _ _ => trivial, fun _ _ => .lost trivial⟩
      expr_bails := fun _ _ => trivial }
  | succ depth₂ ih =>
    obtain ⟨depth, rfl⟩ := Nat.exists_eq_add_of_le hdepth
    rw [Nat.add_right_comm]
    have hdeep := ih (Nat.le_add_right depth₂ depth)
    exact
      { accounts := accounts_ofDepth _
        expr := Grammar.expr_agrees hS hdeep
        binary := Grammar.binary_agrees hS hdeep
        unary := Grammar.unary_agrees hS hdeep
        stmts := Grammar.stmts_agrees hS hdeep true
        ifStmt := Grammar.ifStmt_agrees hS hdeep
        expr_bails := Grammar.expr_bails hS _ }

end Nested

end TemplateScript
