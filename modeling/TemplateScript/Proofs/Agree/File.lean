import TemplateScript.Proofs.Grammar.File

/-!
# Files that agree

Where no end is in sight for either of two runs, whole files agree. The first run may know some
statements already that the second one has nothing of: they stay before all others.
-/

namespace TemplateScript

open Parse Simulation

namespace Simulation

variable {α β : Type} {S : Simulation} {given : Reader → Prop} {E : Ending} {p₁ : Parse α}
  {p₂ : Parse β} {move : β → α} {promise : β → Prop}

/-- Where no end is in sight, no phrase comes to one. -/
theorem Agrees.endless (hS : S.Lawful) (hendless : ∀ r, ¬ S.spent r)
    (h : S.Agrees given E p₁ p₂ move promise) : S.Agrees given .inside p₁ p₂ move promise := by
  refine ⟨h.keeps, fun {r₁ r₂} hr hgiven => ?_⟩
  have hrun := h.agreed hr hgiven
  generalize p₁ r₁ = result₁ at hrun
  generalize p₂ r₂ = result₂ at hrun
  cases hrun with
  | ok hpromise hr => exact .ok hpromise hr
  | bail hendless hr => exact .bail hendless hr
  | edge _ _ hr => exact (hendless _ (hS.edge_spent hr)).elim
  | beyond _ hr => exact (hendless _ hr).elim
  | lost h => exact .lost h

end Simulation

namespace Grammar

variable {S : Simulation} {given : Reader → Prop} {deep deep₁ deep₂ : Nested}

/-! ### What agrees -/

theorem fileRest_agrees (hS : S.Lawful) (hendless : ∀ r, ¬ S.spent r) (before list : List Stmt) :
    S.Agrees given .inside (fileRest (before ++ shiftStmts S.gap list)) (fileRest list)
      (Round.map (before ++ shiftStmts S.gap ·) (before ++ shiftStmts S.gap ·)) fun _ => True := by
  unfold fileRest
  refine .pos_bind hS fun pos => .isFull_bind hS fun full => .kind_bind hS fun kind =>
    .ite Iff.rfl (fun _ => .pure rfl fun _ _ => trivial) fun _ => ?_
  refine (errorAt_agrees hS pos .unmatchedBrace).bind fun _ =>
    (next_agrees hS fun _ _ => .inr hendless).bind fun _ =>
      ((accept_semicolon_agrees hS).endless hS hendless).bind fun _ => .pure rfl fun _ _ => trivial

theorem fileRound_agrees (hS : S.Lawful) (hendless : ∀ r, ¬ S.spent r)
    (hdeep : deep₁.Agrees S deep₂) (before list : List Stmt) :
    S.Agrees given .inside (fileRound deep₁ (before ++ shiftStmts S.gap list))
      (fileRound deep₂ list)
      (Round.map (before ++ shiftStmts S.gap ·) (before ++ shiftStmts S.gap ·)) fun _ => True := by
  unfold fileRound
  refine ((stmts_agrees hS hdeep false).endless hS hendless).bind fun more => ?_
  rw [List.append_assoc, shiftStmts_eq_map, shiftStmts_eq_map, ← List.map_append,
    ← shiftStmts_eq_map]
  exact fileRest_agrees hS hendless before (list ++ more)

/-- Files agree from a statement of the first run on where the second run begins. -/
theorem fileFrom_agrees (hS : S.Lawful) (hendless : ∀ r, ¬ S.spent r)
    (hdeep : deep₁.Agrees S deep₂) {before : List Stmt} (hbefore : S.plain ∨ Settled before)
    {stmtsLimit₁ stmtsLimit₂ fileLimit₁ fileLimit₂ : Nat} (hstmts : stmtsLimit₂ ≤ stmtsLimit₁)
    (hfile : fileLimit₂ ≤ fileLimit₁) :
    S.Agrees given .inside (fileFrom deep₁ stmtsLimit₁ fileLimit₁ before)
      (fileFrom deep₂ stmtsLimit₂ fileLimit₂ []) (before.reverse ++ shiftStmts S.gap ·)
      fun _ => True := by
  have hround (list : List Stmt) : S.Agrees (fun _ => True) .inside
      (stmtsRound deep₁ false (shiftStmts S.gap list ++ before)) (stmtsRound deep₂ false list)
      (Round.map (shiftStmts S.gap · ++ before) (before.reverse ++ shiftStmts S.gap ·))
      (Round.Kept (fun _ => True) fun _ => True) :=
    ((stmtsRound_agrees hS hdeep false hbefore list).endless hS hendless).promised
      fun result _ => by cases result <;> trivial
  have hfileRound (list : List Stmt) : S.Agrees (fun _ => True) .inside
      (fileRound deep₁ (before.reverse ++ shiftStmts S.gap list)) (fileRound deep₂ list)
      (Round.map (before.reverse ++ shiftStmts S.gap ·) (before.reverse ++ shiftStmts S.gap ·))
      (Round.Kept (fun _ => True) fun _ => True) :=
    (fileRound_agrees hS hendless hdeep before.reverse list).promised
      fun result _ => by cases result <;> trivial
  unfold fileFrom
  refine ((Agrees.rounds (shiftStmts S.gap · ++ before) hround hstmts []).weaken
    fun _ _ => trivial).bind fun list => ?_
  unfold fileBehind
  refine (fileRest_agrees hS hendless before.reverse list).bind fun result => ?_
  cases result with
  | again list =>
    exact (Agrees.rounds (before.reverse ++ shiftStmts S.gap ·) hfileRound hfile list).weaken
      fun _ _ => trivial
  | done list => exact .pure rfl fun _ _ => trivial

end Grammar

end TemplateScript
