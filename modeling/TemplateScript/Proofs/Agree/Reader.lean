import TemplateScript.Proofs.Grammar.Agree
import TemplateScript.Tree.Shift

/-!
# Operations that agree

The operations on a reader agree by the laws of a simulation. Only those that use a semicolon can
use up the source, since no other token is the last one.
-/

namespace TemplateScript

namespace Token

variable (n : Nat) (t : Token)

@[simp] theorem shift_kind : (t.shift n).kind = t.kind := rfl

@[simp] theorem shift_literal : (t.shift n).literal = t.literal := rfl

@[simp] theorem shift_flags : (t.shift n).flags = t.flags := rfl

@[simp] theorem shift_pos : (t.shift n).pos = t.pos + n := rfl

@[simp] theorem shift_text : (t.shift n).text = t.text := rfl

@[simp] theorem shift_describe : (t.shift n).describe = t.describe := rfl

@[simp] theorem shift_isExplicitSemicolon :
    (t.shift n).isExplicitSemicolon = t.isExplicitSemicolon := rfl

@[simp] theorem shift_isInsertedSemicolon :
    (t.shift n).isInsertedSemicolon = t.isInsertedSemicolon := rfl

end Token

namespace Simulation

open Parse

variable {α β γ δ : Type} {S : Simulation} {given : Reader → Prop} {E : Ending}

/-! ### Looking at the token -/

namespace Agrees

variable {turn : δ → γ} {last : δ → Prop}

theorem token_bind (hS : S.Lawful) {q₁ : Token → Parse γ} {q₂ : Token → Parse δ}
    (hq : ∀ t, S.Agrees (fun r => r.token = t ∧ given r) E (q₁ (t.shift S.gap)) (q₂ t) turn last) :
    S.Agrees given E (token >>= q₁) (token >>= q₂) turn last := by
  refine ⟨fun r hr => (hq r.token).keeps r hr, fun {r₁ r₂} hr hgiven => ?_⟩
  rw [Parse.token_bind, Parse.token_bind, hS.token_eq hr]
  exact (hq r₂.token).agreed hr ⟨rfl, hgiven⟩

/-- The same, for a token whose text matters. -/
theorem written_bind (hS : S.Lawful) {q₁ : Token → Parse γ} {q₂ : Token → Parse δ}
    (hq : ∀ t, S.Agrees (fun r => r.token = t ∧
      (t.kind = .ident ∨ t.kind ∈ Grammar.literalKinds → 0 < t.literal.utf8ByteSize) ∧ given r) E
        (q₁ (t.shift S.gap)) (q₂ t) turn last) :
    S.Agrees given E (token >>= q₁) (token >>= q₂) turn last := by
  refine ⟨fun r hr => (hq r.token).keeps r hr, fun {r₁ r₂} hr hgiven => ?_⟩
  rw [Parse.token_bind, Parse.token_bind, hS.token_eq hr]
  exact (hq r₂.token).agreed hr ⟨rfl, hS.isWritten hr, hgiven⟩

theorem kind_bind (hS : S.Lawful) {q₁ : Token.Kind → Parse γ} {q₂ : Token.Kind → Parse δ}
    (hq : ∀ k, S.Agrees (fun r => r.token.kind = k ∧ given r) E (q₁ k) (q₂ k) turn last) :
    S.Agrees given E (kind >>= q₁) (kind >>= q₂) turn last := by
  refine ⟨fun r hr => (hq r.token.kind).keeps r hr, fun {r₁ r₂} hr hgiven => ?_⟩
  rw [Parse.kind_bind, Parse.kind_bind, hS.token_eq hr]
  exact (hq r₂.token.kind).agreed hr ⟨rfl, hgiven⟩

theorem pos_bind (hS : S.Lawful) {q₁ : Pos → Parse γ} {q₂ : Pos → Parse δ}
    (hq : ∀ pos, S.Agrees (fun r => r.token.pos = pos ∧ given r) E (q₁ (pos + S.gap)) (q₂ pos) turn
      last) :
    S.Agrees given E (pos >>= q₁) (pos >>= q₂) turn last := by
  refine ⟨fun r hr => (hq r.token.pos).keeps r hr, fun {r₁ r₂} hr hgiven => ?_⟩
  rw [Parse.pos_bind, Parse.pos_bind, hS.token_eq hr]
  exact (hq r₂.token.pos).agreed hr ⟨rfl, hgiven⟩

theorem isFull_bind (hS : S.Lawful) {q₁ : Bool → Parse γ} {q₂ : Bool → Parse δ}
    (hq : ∀ full, S.Agrees given E (q₁ full) (q₂ full) turn last) :
    S.Agrees given E (isFull >>= q₁) (isFull >>= q₂) turn last := by
  refine ⟨fun r hr => (hq r.isFull).keeps r hr, fun {r₁ r₂} hr hgiven => ?_⟩
  rw [Parse.isFull_bind, Parse.isFull_bind, hS.isFull_eq hr]
  exact (hq r₂.isFull).agreed hr hgiven

theorem get_bind (hS : S.Lawful) {q₁ : Reader → Parse γ} {q₂ : Reader → Parse δ}
    (hq : ∀ r₁ r₂ on, r₁.cursor.options = { r₂.cursor.options with comments := on } →
      S.Agrees given E (q₁ r₁) (q₂ r₂) turn last) :
    S.Agrees given E (get >>= q₁) (get >>= q₂) turn last := by
  refine ⟨fun r hr => (hq r r _ rfl).keeps r hr, fun hr hgiven => ?_⟩
  obtain ⟨on, hoptions⟩ := hS.options_eq hr
  exact (hq _ _ on hoptions).agreed hr hgiven

/-- The marks of a conditional are behind a reader that looks at them. -/
theorem marked (hS : S.Lawful) {p₁ : Parse γ} {p₂ : Parse δ}
    (h : S.Agrees (fun r => (r.token.kind = .question ∨ r.token.kind = .colon →
      S.passed r r.token.pos) ∧ given r) E p₁ p₂ turn last) :
    S.Agrees given E p₁ p₂ turn last :=
  ⟨h.keeps, fun hr hgiven => h.agreed hr ⟨hS.isMarked hr, hgiven⟩⟩

/-- Two offsets that were passed are on one line for both readers or for none. -/
theorem line_ne_bind (hS : S.Lawful) {o o' : Nat} {p₁ q₁ : Parse γ} {p₂ q₂ : Parse δ}
    (hpassed : ∀ r, given r → S.passed r o ∧ S.passed r o')
    (hp : S.Agrees given E p₁ p₂ turn last) (hq : S.Agrees given E q₁ q₂ turn last) :
    S.Agrees given E
      (do if (← line (o + S.gap)) ≠ (← line (o' + S.gap)) then p₁ else q₁)
      (do if (← line o) ≠ (← line o') then p₂ else q₂) turn last := by
  refine ⟨?_, fun {r₁ r₂} hr hgiven => ?_⟩
  · refine (hS.keeps (line_accounts o)).bind fun l =>
      (hS.keeps (line_accounts o')).bind fun l' => ?_
    split
    · exact hp.keeps
    · exact hq.keeps
  · have hin (o : Nat) (ho : o ≤ r₂.cursor.file.size) : o + S.gap ≤ r₁.cursor.file.size :=
      Nat.le_trans (Nat.add_le_add_right ho _) (hS.size_le hr)
    by_cases ho : o ≤ r₂.cursor.file.size
    · by_cases ho' : o' ≤ r₂.cursor.file.size
      · rw [bind_run_ok (line_run (hin o ho)), bind_run_ok (line_run (hin o' ho')),
          bind_run_ok (line_run ho), bind_run_ok (line_run ho')]
        have hline := hS.line_iff hr (hpassed r₂ hgiven).1 (hpassed r₂ hgiven).2
        by_cases hsame : (r₂.cursor.file.place o).line = (r₂.cursor.file.place o').line
        · rw [if_neg (not_not.2 (hline.2 hsame)), if_neg (not_not.2 hsame)]
          exact hq.agreed hr hgiven
        · rw [if_pos (mt hline.1 hsame), if_pos hsame]
          exact hp.agreed hr hgiven
      · rw [bind_run_ok (line_run ho), bind_run_error (line_run_fault ho')]
        exact .lost trivial
    · rw [bind_run_error (line_run_fault ho)]
      exact .lost trivial

end Agrees

namespace Ends

variable {last : δ → Prop}

theorem token_bind (hS : S.Lawful) {q : Token → Parse δ}
    (hq : ∀ t, t.kind = .eof → S.Ends (q t) last) : S.Ends (token >>= q) last :=
  fun r hr => hq r.token (hS.spent_eof hr) r hr

theorem kind_bind (hS : S.Lawful) {q : Token.Kind → Parse δ} (hq : S.Ends (q .eof) last) :
    S.Ends (kind >>= q) last := by
  intro r hr
  rw [Parse.kind_bind, hS.spent_eof hr]
  exact hq r hr

theorem pos_bind {q : Pos → Parse δ} (hq : ∀ pos, S.Ends (q pos) last) :
    S.Ends (pos >>= q) last :=
  fun r hr => hq r.token.pos r hr

theorem isFull_bind {q : Bool → Parse δ} (hq : ∀ full, S.Ends (q full) last) :
    S.Ends (isFull >>= q) last :=
  fun r hr => hq r.isFull r hr

end Ends

/-! ### Reading on -/

theorem next_agrees (hS : S.Lawful)
    (hgiven : ∀ r, given r → r.token.kind ≠ .semicolon ∨ ∀ r', ¬ S.spent r') :
    S.Agrees given .inside next next id fun _ => True := by
  refine ⟨hS.keeps next_accounts, fun {r₁ r₂} hr h => ?_⟩
  rcases hgiven r₂ h with hkind | hendless
  · exact hS.agreed_next_inside hr hkind
  · have hnext := hS.agreed_next hr
    generalize next r₁ = result₁ at hnext
    generalize next r₂ = result₂ at hnext
    cases hnext with
    | ok hpromise hr => exact .ok hpromise hr
    | bail hendless hr => exact .bail hendless hr
    | edge _ _ hr => exact (hendless _ (hS.edge_spent hr)).elim
    | beyond hE => cases hE
    | lost h => exact .lost h

theorem next_agrees_of_kind (hS : S.Lawful) {k : Token.Kind} (hk : k ≠ .semicolon) :
    S.Agrees (fun r => r.token.kind = k ∧ given r) .inside next next id fun _ => True :=
  next_agrees hS fun _ h => .inl (h.1 ▸ hk)

theorem next_agrees_edge (hS : S.Lawful) :
    S.Agrees given .edge next next id fun _ => True :=
  ⟨hS.keeps next_accounts, fun hr _ => hS.agreed_next hr⟩

/-! ### Diagnostics -/

/-- Once something is wrong, no end is in sight. -/
theorem errorAt_agrees (hS : S.Lawful) (o : Nat) (cause : Cause) :
    S.Agrees given .inside (errorAt (o + S.gap) cause) (errorAt o cause) id fun _ =>
      ∀ r, ¬ S.spent r := by
  refine ⟨hS.keeps (errorAt_accounts o cause),
    fun {r₁ r₂} hr _ => ?_⟩
  have hrecorded : Accounted S.source r₂ (fun _ => False) (errorAt o cause r₂) :=
    (errorAt_accounts o cause).run (hS.inSource hr)
  have herror := hS.agreed_errorAt o cause hr
  generalize errorAt (o + S.gap) cause r₁ = result₁ at herror
  generalize errorAt o cause r₂ = result₂ at herror hrecorded
  cases herror with
  | ok _ hr => exact .ok (fun r => hS.endless hr hrecorded.2) hr
  | bail hendless hr => exact .bail hendless hr
  | edge hE => cases hE
  | beyond hE => cases hE
  | lost h => exact .lost h

theorem failAt_agrees (hS : S.Lawful) (o : Nat) (cause : Cause) {move : β → α}
    {promise : β → Prop} :
    S.Agrees given E (failAt (o + S.gap) cause) (failAt o cause) move promise := by
  refine ⟨hS.keeps (failAt_accounts o cause : Accounts S.source True _ promise),
    fun {r₁ r₂} hr hgiven => ?_⟩
  unfold failAt
  refine ((errorAt_agrees hS o cause).agreed hr hgiven).bind (fun _ r h => h)
    (fun _ _ _ hendless hr => .bail hendless hr) (fun hE => by cases hE) fun hE => by cases hE

theorem failExpected_agrees (hS : S.Lawful) (wanted : String) {move : β → α}
    {promise : β → Prop} :
    S.Agrees given E (failExpected wanted) (failExpected wanted) move promise :=
  .token_bind hS fun _ => failAt_agrees hS _ _

theorem failAt_bails (hS : S.Lawful) (o : Nat) (cause : Cause) :
    S.Bails (failAt o cause : Parse β) := by
  intro r hr
  have hrecorded : Accounted S.source r (fun _ => False) (errorAt o cause r) :=
    (errorAt_accounts o cause).run (hS.spent_inSource hr)
  unfold failAt
  rw [bind_run]
  generalize errorAt o cause r = result at hrecorded
  cases result with
  | ok a r' => exact hS.lost_of_errors hr hrecorded.1.inSource hrecorded.2
  | error e r' =>
    cases e with
    | bail => exact hS.lost_of_errors hr hrecorded.1.inSource hrecorded.2
    | fault f => trivial

theorem failExpected_bails (hS : S.Lawful) (wanted : String) :
    S.Bails (failExpected wanted : Parse β) :=
  Ends.token_bind hS fun _ _ => failAt_bails hS _ _

/-! ### Giving up -/

theorem bail_agrees (hendless : ∀ r, ¬ S.spent r) {move : β → α} {promise : β → Prop} :
    S.Agrees given E bail bail move promise :=
  ⟨fun _ h => h, fun hr _ => .bail hendless hr⟩

/-- A phrase that is given up is so in both runs, and then no end is in sight. -/
theorem attempt_agrees {p₁ : Parse α} {p₂ : Parse β} {move : β → α}
    {promise : β → Prop} (hp : S.Agrees given E p₁ p₂ move promise) :
    S.Agrees given E (attempt p₁) (attempt p₂) (Option.map move) fun
      | some b => promise b
      | none => ∀ r, ¬ S.spent r := by
  refine ⟨hp.keeps.attempt, fun {r₁ r₂} hr hgiven => ?_⟩
  have hrun := hp.agreed hr hgiven
  unfold attempt
  generalize p₁ r₁ = result₁ at hrun
  generalize p₂ r₂ = result₂ at hrun
  cases hrun with
  | @ok a _ _ hpromise hr => exact .ok (a := some a) hpromise hr
  | bail hendless hr => exact .ok (a := none) hendless hr
  | @edge a _ _ hE hpromise hr => exact .edge (a := some a) hE hpromise hr
  | beyond hE hr => exact .beyond hE hr
  | lost h =>
    refine .lost ?_
    cases result₂ with
    | ok b r => exact h
    | error e r =>
      cases e with
      | bail => exact h
      | fault f => trivial

/-! ### Using tokens -/

theorem expect_agrees (hS : S.Lawful) {wanted : Token.Kind} (hwanted : wanted ≠ .semicolon) :
    S.Agrees given .inside (expect wanted) (expect wanted) (· + S.gap) fun _ => True := by
  unfold expect
  refine .token_bind hS fun t => .ite Iff.rfl (fun hkind => ?_) fun _ => failExpected_agrees hS _
  refine (next_agrees hS ?_).bind fun _ => .pure rfl fun _ _ => trivial
  rintro r ⟨rfl, -⟩
  exact .inl fun h => hwanted (hkind.symm.trans h)

theorem expect_semicolon_agrees (hS : S.Lawful) :
    S.Agrees given .edge (expect .semicolon) (expect .semicolon) (· + S.gap) fun _ => True := by
  unfold expect
  exact .token_bind hS fun t => .ite Iff.rfl
    (fun _ => (next_agrees_edge hS).map (fun _ => rfl) fun _ _ _ _ => trivial)
    fun _ => failExpected_agrees hS _

theorem expect_bails (hS : S.Lawful) {wanted : Token.Kind} (hwanted : wanted ≠ .eof) :
    S.Bails (expect wanted) := by
  unfold expect
  refine Ends.token_bind hS fun t ht => ?_
  rw [if_neg (fun h => hwanted (h.symm.trans ht))]
  exact failExpected_bails hS _

theorem expectIdent_agrees (hS : S.Lawful) :
    S.Agrees given .inside expectIdent expectIdent (Ident.shift S.gap) fun id =>
      0 < id.name.utf8ByteSize := by
  unfold expectIdent
  refine .written_bind hS fun t => .ite Iff.rfl (fun hkind => ?_) fun _ =>
    failExpected_agrees hS _
  refine (next_agrees hS ?_).bind fun _ => .pure rfl ?_
  · rintro r ⟨rfl, -⟩
    exact .inl fun h => by simp [hkind] at h
  · rintro - ⟨-, -, -, hwritten, -⟩
    exact hwritten (.inl hkind)

theorem expectIdent_bails (hS : S.Lawful) : S.Bails expectIdent := by
  unfold expectIdent
  refine Ends.token_bind hS fun t ht => ?_
  rw [if_neg (by rw [ht]; decide)]
  exact failExpected_bails hS _

theorem accept_agrees (hS : S.Lawful) {wanted : Token.Kind} (hwanted : wanted ≠ .semicolon) :
    S.Agrees given .inside (accept wanted) (accept wanted) id fun _ => True := by
  unfold accept
  refine .kind_bind hS fun k => .ite Iff.rfl (fun hkind => ?_) fun _ => .pure rfl fun _ _ => trivial
  refine (next_agrees hS ?_).bind fun _ => .pure rfl fun _ _ => trivial
  rintro r ⟨rfl, -⟩
  exact .inl fun h => hwanted (hkind.symm.trans h)

theorem accept_semicolon_agrees (hS : S.Lawful) :
    S.Agrees given .edge (accept .semicolon) (accept .semicolon) id fun _ => True := by
  unfold accept
  exact .kind_bind hS fun k => .ite Iff.rfl
    (fun _ => (next_agrees_edge hS).map (fun _ => rfl) fun _ _ _ _ => trivial)
    fun _ => .pure rfl fun _ _ => trivial

theorem accept_ends (hS : S.Lawful) {wanted : Token.Kind} (hwanted : wanted ≠ .eof) :
    S.Ends (accept wanted) (· = false) := by
  unfold accept
  refine .kind_bind hS ?_
  rw [if_neg hwanted.symm]
  exact .pure rfl

theorem accept_bind (wanted : Token.Kind) (q : Bool → Parse γ) :
    accept wanted >>= q =
      kind >>= fun k => if k = wanted then next >>= fun _ => q true else q false := by
  unfold accept
  rw [bind_assoc]
  congr
  funext k
  split
  · rw [bind_assoc]
    rfl
  · rfl

/-- A semicolon that is there may be the last token, and then there is nothing to read on with. -/
theorem accept_semicolon_dies (hS : S.Lawful) {q₁ : Bool → Parse γ} {q₂ : Bool → Parse δ}
    {turn : δ → γ} {last : δ → Prop}
    (hq : ∀ accepted, S.Agrees (fun _ => True) E (q₁ accepted) (q₂ accepted) turn last)
    (hdies : S.Dies (q₂ true)) :
    S.Agrees given E (accept .semicolon >>= q₁) (accept .semicolon >>= q₂) turn last := by
  rw [accept_bind, accept_bind]
  refine .kind_bind hS fun k => .ite Iff.rfl (fun _ => ?_) fun _ => (hq false).weaken fun _ _ =>
    trivial
  exact ((next_agrees_edge hS).beyond hS).bind_dies (fun _ => (hq true).weaken fun _ _ => trivial)
    fun _ => hdies

theorem expectSemicolon_agrees (hS : S.Lawful) :
    S.Agrees given .edge expectSemicolon expectSemicolon id fun _ => True := by
  unfold expectSemicolon
  refine .kind_bind hS fun k => .ite Iff.rfl (fun _ => next_agrees_edge hS) fun _ => ?_
  exact .ite Iff.rfl (fun _ => .pure rfl fun _ _ => trivial) fun _ => failExpected_agrees hS _

theorem skipLineBreaks_ends (hS : S.Lawful) : S.Ends skipLineBreaks fun _ => True := by
  unfold skipLineBreaks
  refine .loop (fun _ => True) (fun skipped _ => .token_bind hS fun t ht => ?_) trivial
  rw [if_neg (by simp [Token.isInsertedSemicolon, ht])]
  exact .pure trivial

theorem skipLineBreaks_agrees (hS : S.Lawful) :
    S.Agrees given .beyond skipLineBreaks skipLineBreaks id fun _ => True := by
  unfold skipLineBreaks
  refine .loop_beyond hS id (fun _ => True) (fun skipped => ?_) (fun skipped => ?_) rfl
    fun _ _ => trivial
  · refine .token_bind hS fun t => .ite Iff.rfl (fun _ => .beyond hS ?_) fun _ =>
      .pure rfl fun _ _ => trivial
    exact (next_agrees_edge hS).map (fun _ => rfl) fun _ _ _ _ => trivial
  · refine .token_bind hS fun t ht => ?_
    rw [if_neg (by simp [Token.isInsertedSemicolon, ht])]
    exact .pure trivial

theorem skipSemicolons_agrees (hS : S.Lawful) :
    S.Agrees given .beyond skipSemicolons skipSemicolons id fun _ => True := by
  unfold skipSemicolons
  refine .loop_beyond hS id (fun _ => True) (fun _ => ?_) (fun _ => ?_) rfl
    fun _ _ => trivial
  · refine ((accept_semicolon_agrees hS).beyond hS).bind_ends (fun accepted => ?_)
      fun accepted => ?_
    · exact .ite Iff.rfl (fun _ => .pure rfl fun _ _ => trivial)
        fun _ => .pure rfl fun _ _ => trivial
    · split
      · exact .pure trivial
      · exact .pure trivial
  · refine (accept_ends hS (by decide)).bind ?_
    rintro _ rfl
    exact .pure trivial

theorem skipSemicolons_ends (hS : S.Lawful) : S.Ends skipSemicolons fun _ => True := by
  unfold skipSemicolons
  refine .loop (fun _ => True) (fun _ _ => ?_) trivial
  refine (accept_ends hS (by decide)).bind ?_
  rintro _ rfl
  exact .pure trivial

theorem atExprEnd_agrees (hS : S.Lawful) :
    S.Agrees given .inside atExprEnd atExprEnd id fun _ => True :=
  .kind_bind hS fun _ => .pure rfl fun _ _ => trivial

end Simulation

end TemplateScript
