import TemplateScript.Proofs.Agree.Statement
import TemplateScript.Proofs.WellFormed.Document

/-!
# Parts of templates that agree

Text, delimiters and values to emit stand between tokens that are no semicolons, so no source ends
inside them. A pragma line sets the options of both readers, once it has been read to its end.
-/

namespace TemplateScript

open Parse Simulation

namespace Grammar

variable {S : Simulation} {given : Reader → Prop} {E : Ending} {deep₁ deep₂ : Nested}

/-! ### Text and delimiters -/

theorem mixedText_agrees (hS : S.Lawful) (hgiven : ∀ r, given r → r.token.kind ≠ .semicolon) :
    S.Agrees given .inside mixedText mixedText (Stmt.shift S.gap) (·.isCodeEnd = false) := by
  unfold mixedText
  refine .token_bind hS fun t => .get_bind hS fun r₁ r₂ on hoptions => ?_
  rw [hoptions]
  exact (next_agrees hS fun r h => .inl (hgiven r h.2)).bind fun _ => .pure rfl fun _ _ => rfl

theorem delimiter_agrees (hS : S.Lawful) (hgiven : ∀ r, given r → r.token.kind ≠ .semicolon) :
    S.Agrees given .inside delimiter delimiter (Delimiter.shift S.gap) fun _ => True := by
  unfold delimiter
  exact .token_bind hS fun t => (next_agrees hS fun r h => .inl (hgiven r h.2)).bind fun _ =>
    .pure rfl fun _ _ => trivial

theorem mixedValue_agrees (hS : S.Lawful) (hdeep : deep₁.Agrees S deep₂)
    (hgiven : ∀ r, given r → r.token.kind ≠ .semicolon) :
    S.Agrees given .inside (mixedValue deep₁) (mixedValue deep₂) (Stmt.shift S.gap)
      (·.isCodeEnd = false) := by
  unfold mixedValue
  refine (delimiter_agrees hS hgiven).bind fun opening => (expr_agrees hS hdeep).bind fun e =>
    (skipSemicolons_agrees hS).bind_dies (fun _ => ?_) fun _ r hr => ?_
  · refine .kind_bind hS fun kind => .ite Iff.rfl (fun hkind => ?_) fun _ => ?_
    · refine (delimiter_agrees hS ?_).bind fun closing => .pure rfl fun _ _ => rfl
      rintro r ⟨rfl, -⟩ h
      rw [h] at hkind
      cases hkind
    · refine .get_bind hS fun r₁ r₂ on hoptions => ?_
      rw [hoptions]
      exact failExpected_agrees hS _
  · rw [Parse.kind_bind, hS.spent_eof hr]
    exact (failExpected_bails hS _).dies r hr

/-! ### Pragma lines -/

theorem switch?_shift (n : Nat) (value : Option Expr) :
    switch? (shiftExpr? n value) = switch? value := by
  cases value with
  | none => rfl
  | some e =>
    cases e with
    | literal lit =>
      obtain ⟨value, text, pos⟩ := lit
      cases value <;> rfl
    | _ => rfl

theorem text?_shift (n : Nat) (value : Option Expr) :
    text? (shiftExpr? n value) = text? value := by
  cases value with
  | none => rfl
  | some e =>
    cases e with
    | literal lit =>
      obtain ⟨value, text, pos⟩ := lit
      cases value <;> rfl
    | _ => rfl

/-- What an entry sets does not depend on where it stands. -/
theorem setOption?_shift (n : Nat) (options : PragmaOptions) (key : String) (value : Option Expr) :
    setOption? options key (shiftExpr? n value) = setOption? options key value := by
  unfold setOption?
  rw [switch?_shift, text?_shift]

/-- What was read of a pragma line further on. -/
def PragmaLine.shift (n : Nat) (line : PragmaLine) : PragmaLine :=
  { line with entries := shiftKeyValues n line.entries }

theorem PragmaLine.shift_withEntry (n : Nat) (line : PragmaLine) (key : Ident)
    (value : Option Expr) (options : PragmaOptions) :
    (⟨(line.shift n).entries ++ [⟨.ident (key.shift n), shiftExpr? n value⟩], options⟩ :
      PragmaLine) = PragmaLine.shift n ⟨line.entries ++ [⟨.ident key, value⟩], options⟩ := by
  simp only [PragmaLine.shift, shiftKeyValues_eq_map, List.map_append, List.map_singleton,
    KeyValue.shift, Expr.shift]

theorem atPragmaEnd_agrees (hS : S.Lawful) :
    S.Agrees given .inside atPragmaEnd atPragmaEnd id fun _ => True :=
  .kind_bind hS fun _ => .pure rfl fun _ _ => trivial

theorem abandonPragma_agrees {α β : Type} (hS : S.Lawful) (hendless : ∀ r, ¬ S.spent r)
    {move : β → α} {promise : β → Prop} :
    S.Agrees given E abandonPragma abandonPragma move promise := by
  unfold abandonPragma
  refine .seq id ?_ fun _ => (accept_agrees hS (by decide)).bind fun _ => bail_agrees hendless
  refine .loop hS id (fun _ => True) (fun _ => ?_) rfl fun _ _ => trivial
  refine (atPragmaEnd_agrees hS).bind fun atEnd => .ite Iff.rfl
    (fun _ => .pure rfl fun _ _ => trivial) fun _ => ?_
  exact (next_agrees hS fun _ _ => .inr hendless).bind fun _ => .pure rfl fun _ _ => trivial

theorem abandonPragma_keeps {α : Type} (hS : S.Lawful) :
    S.Keeps (abandonPragma : Parse α) := by
  unfold abandonPragma
  refine .bind (.bind .get fun r => .rounds (fun _ => ?_) _ _) fun _ =>
    (hS.keeps (accept_accounts _)).bind fun _ _ h => h
  refine (hS.keeps atPragmaEnd_accounts).bind fun atEnd => ?_
  split
  · exact .pure _
  · exact (hS.keeps next_accounts).bind fun _ => .pure _

/-- A line is given up only after something was found wrong. -/
theorem inPragma_agrees {α β : Type} (hS : S.Lawful) {p₁ : Parse α} {p₂ : Parse β} {move : β → α}
    {promise : β → Prop} (hp : S.Agrees given .inside p₁ p₂ move promise) :
    S.Agrees given .inside (inPragma p₁) (inPragma p₂) move promise := by
  unfold inPragma
  refine (attempt_agrees hp).bind fun read => ?_
  cases read with
  | some b => exact .pure rfl fun _ h => h.1
  | none =>
    exact .assume (abandonPragma_keeps hS) (fun _ h => h.1) fun hendless =>
      abandonPragma_agrees hS hendless

theorem pragmaKey_agrees (hS : S.Lawful) :
    S.Agrees given .inside pragmaKey pragmaKey (Ident.shift S.gap) fun _ => True := by
  unfold pragmaKey
  refine .token_bind hS fun t => .ite Iff.rfl (fun hkey => ?_) fun _ => failExpected_agrees hS _
  refine (next_agrees hS ?_).bind fun _ => .pure rfl fun _ _ => trivial
  rintro r ⟨rfl, -⟩
  refine .inl fun h => ?_
  rw [h] at hkey
  revert hkey
  decide

theorem pragmaEntry_agrees (hS : S.Lawful) (hdeep : deep₁.Agrees S deep₂) (line : PragmaLine) :
    S.Agrees given .inside (pragmaEntry deep₁ (line.shift S.gap)) (pragmaEntry deep₂ line)
      (PragmaLine.shift S.gap) fun _ => True := by
  unfold pragmaEntry
  refine (inPragma_agrees hS (pragmaKey_agrees hS)).bind fun key =>
    (accept_agrees hS (by decide)).bind fun accepted => ?_
  refine .ite_bind (shiftExpr? S.gap) (fun _ => True)
    (fun _ => (inPragma_agrees hS (unary_agrees hS hdeep)).map (fun _ => rfl)
      fun _ _ _ _ => trivial)
    (fun _ => .pure rfl fun _ _ => trivial) fun value => ?_
  dsimp only
  rw [show (line.shift S.gap).options = line.options from rfl,
    show (key.shift S.gap).name = key.name from rfl, setOption?_shift]
  cases setOption? line.options key.name value with
  | some options => exact .pure (PragmaLine.shift_withEntry ..) fun _ _ => trivial
  | none =>
    exact (errorAt_agrees hS key.pos _).bind fun _ =>
      .pure (PragmaLine.shift_withEntry ..) fun _ _ => trivial

theorem pragmaEntries_agrees (hS : S.Lawful) (hdeep : deep₁.Agrees S deep₂) :
    S.Agrees given .inside (pragmaEntries deep₁) (pragmaEntries deep₂) (PragmaLine.shift S.gap)
      fun _ => True := by
  unfold pragmaEntries
  refine .loop hS (PragmaLine.shift S.gap) (fun _ => True) (fun line => ?_) rfl fun _ _ => trivial
  refine (atPragmaEnd_agrees hS).bind fun atEnd => .ite Iff.rfl
    (fun _ => .pure rfl fun _ _ => trivial) fun _ => ?_
  refine (pragmaEntry_agrees hS hdeep line).bind fun line => (accept_agrees hS (by decide)).bind
    fun accepted => ?_
  exact .ite Iff.rfl (fun _ => .pure rfl fun _ _ => trivial) fun _ => .pure rfl fun _ _ => trivial

/-- The options of a pragma line are set for both readers before they read on. -/
theorem apply_next_agrees (hS : S.Lawful) (options : PragmaOptions)
    (hgiven : ∀ r, given r → r.token.kind = .pragmaEnd) :
    S.Agrees given .inside
      (do
        modify fun r => { r with cursor := r.cursor.apply options }
        next)
      (do
        modify fun r => { r with cursor := r.cursor.apply options }
        next) id fun _ => True :=
  ⟨(hS.keeps (apply_accounts options)).bind fun _ => hS.keeps next_accounts, fun hr h =>
    hS.agreed_apply options hr (hgiven _ h)⟩

theorem pragma_agrees (hS : S.Lawful) (hdeep : deep₁.Agrees S deep₂)
    (hgiven : ∀ r, given r → r.token.kind ≠ .semicolon) :
    S.Agrees given .inside (Grammar.pragma deep₁) (Grammar.pragma deep₂) (Stmt.shift S.gap)
      (·.isCodeEnd = false) := by
  unfold Grammar.pragma
  refine .pos_bind hS fun start => (next_agrees hS fun r h => .inl (hgiven r h.2)).bind fun _ =>
    (pragmaEntries_agrees hS hdeep).bind fun line => .pos_bind hS fun last => .kind_bind hS
      fun kind => .ite Iff.rfl (fun hkind => ?_) fun _ =>
        inPragma_agrees hS (failExpected_agrees hS _)
  rw [← bind_assoc _ fun _ => next, ← bind_assoc _ fun _ => next]
  exact (apply_next_agrees hS line.options fun _ h => h.1.trans hkind).map (fun _ => rfl)
    fun _ _ _ _ => rfl

end Grammar

end TemplateScript
