import TemplateScript.Proofs.Agree.File
import TemplateScript.Proofs.Agree.Shift

/-!
# Whole sources that agree

Runs that agree on the first token of a source, with no end in sight, agree on all of it. So readers
that meet before the first token stay together to the end.
-/

namespace TemplateScript

open Parse

namespace Simulation

variable {S : Simulation} {P : Reader → Prop} {r₁ r₂ : Reader}

/-- Where no run is lost, the statements that the second run reads are read by the first one. -/
theorem source_run (hS : S.Lawful) (hendless : ∀ r, ¬ S.spent r) (hlost : ∀ r, ¬ S.lost r)
    (hnext : S.Agreed .inside id (fun _ => True) (next r₁) (next r₂)) {stmts : List Stmt}
    {last₂ : Reader} (hrun : Parse.source r₂ = .ok stmts last₂) :
    ∃ last₁, Parse.source r₁ = .ok (shiftStmts S.gap stmts) last₁ ∧ S.rel last₁ last₂ := by
  obtain ⟨_, first₂, hnext₂, hfile₂⟩ := bind_run_eq_ok.1 hrun
  rw [hnext₂] at hnext
  generalize hnext₁ : next r₁ = result at hnext
  cases hnext with
  | @ok _ first₁ _ _ hrel =>
    have hbound : first₂.bound ≤ first₁.bound := hS.bound_le hrel
    have hagrees : S.Agrees (fun _ => True) .inside _ _ _ _ :=
      Grammar.fileFrom_agrees hS hendless (Nested.agrees_ofDepth hS hbound)
        (.inr Grammar.settled_nil) hbound (Nat.sub_le_sub_right hbound 1)
    have hlast := hagrees.agreed hrel trivial
    rw [get_bind, Grammar.file_run] at hfile₂
    have hsource : Parse.source r₁ = Grammar.fileFrom (Nested.ofDepth first₁.bound) first₁.bound
        (first₁.bound - 1) [] first₁ := by
      unfold Parse.source
      rw [bind_run_ok hnext₁, get_bind, Grammar.file_run]
    rw [hfile₂, ← hsource] at hlast
    generalize Parse.source r₁ = result at hlast
    cases hlast with
    | ok _ hrel => exact ⟨_, rfl, hrel⟩
    | edge hE => cases hE
    | beyond hE => cases hE
    | lost h => exact absurd h (hlost _)
  | edge hE => cases hE
  | beyond hE => cases hE
  | lost h => exact absurd h (hlost _)

/-! ### What the second run keeps -/

/-- The same relation between readers, of which the second one has a property. -/
def keeping (S : Simulation) (P : Reader → Prop) : Simulation :=
  { S with rel := fun r₁ r₂ => S.rel r₁ r₂ ∧ P r₂ }

theorem Agreed.keeping {α β : Type} {E : Ending} {move : β → α} {promise : β → Prop}
    {result₁ : EStateM.Result Halt Reader α} {result₂ : EStateM.Result Halt Reader β}
    (h : S.Agreed E move promise result₁ result₂) (hok : ∀ b l, result₂ = .ok b l → P l)
    (hbail : ∀ l, result₂ ≠ .error .bail l) :
    (S.keeping P).Agreed E move promise result₁ result₂ := by
  cases h with
  | ok hpromise hr => exact .ok hpromise ⟨hr, hok _ _ rfl⟩
  | bail hendless hr => exact absurd rfl (hbail _)
  | edge hE hpromise hr => exact .edge hE hpromise hr
  | beyond hE hr => exact .beyond hE hr
  | lost hlost => exact .lost hlost

/-- A property of readers that every operation keeps may be asked of the second run, if only the
options of a pragma line change anything but by reading on. -/
theorem Lawful.keeping (hS : S.Lawful)
    (hnext : ∀ {r later : Reader}, P r → next r = .ok () later → P later)
    (hrecord : ∀ {r : Reader} (d : Diagnostic), P r → P (r.record d))
    (happly : ∀ {r : Reader} (options : PragmaOptions), P r → r.token.kind = .pragmaEnd →
      P { r with cursor := r.cursor.apply options }) : (S.keeping P).Lawful where
  token_eq h := hS.token_eq h.1
  isFull_eq h := hS.isFull_eq h.1
  options_eq h := hS.options_eq h.1
  bound_le h := hS.bound_le h.1
  inSource h := hS.inSource h.1
  isCode hplain h := hS.isCode hplain h.1
  agreed_apply options h hkind := (hS.agreed_apply options h.1 hkind).keeping
    (fun _ _ hrun => hnext (happly options h.2 hkind) hrun) (Persists.next _)
  isWritten h := hS.isWritten h.1
  isMarked h := hS.isMarked h.1
  passed_mono := hS.passed_mono
  size_le h := hS.size_le h.1
  line_iff h := hS.line_iff h.1
  agreed_next h := (hS.agreed_next h.1).keeping (fun _ _ hrun => hnext h.2 hrun) (Persists.next _)
  agreed_next_inside h hkind := (hS.agreed_next_inside h.1 hkind).keeping
    (fun _ _ hrun => hnext h.2 hrun) (Persists.next _)
  agreed_errorAt {r₁ r₂} o cause h := by
    refine (hS.agreed_errorAt o cause h.1).keeping (fun _ _ hrun => ?_) (Persists.errorAt o cause _)
    by_cases ho : o ≤ r₂.cursor.file.size
    · have herror : errorAt o cause r₂ = .ok () (r₂.record ⟨r₂.cursor.file.place o, cause⟩) :=
        bind_run_ok (place_run ho) _
      cases herror.symm.trans hrun
      exact hrecord _ h.2
    · have hfault : errorAt o cause r₂ = .error (.fault _) r₂ :=
        bind_run_error (place_run_fault ho) _
      cases hfault.symm.trans hrun
  endless h := hS.endless h.1
  keeps_of := hS.keeps_of
  edge_spent := hS.edge_spent
  edge_plain := hS.edge_plain
  spent_eof := hS.spent_eof
  spent_inSource := hS.spent_inSource
  lost_of_errors := hS.lost_of_errors

end Simulation

namespace Setting

variable {s : Setting} {source : List Glyph} {f : SourceFile} {r₁ r₂ : Reader}

/-- Readers that meet before the first token read the same statements. -/
theorem Meets.source_run (h : s.Meets source r₁ r₂) (hs : s.IsLevel)
    (hagain : s.MeetsAgain source) {stmts : List Stmt} {last₂ : Reader}
    (hrun : Parse.source r₂ = .ok stmts last₂) :
    ∃ last₁, Parse.source r₁ = .ok (shiftStmts s.gap stmts) last₁ ∧
      s.Follows source last₁ last₂ :=
  Simulation.source_run (lawful hs hagain) (fun _ => id) (fun _ => id)
    (h.next_agreed hagain .inside) hrun

end Setting

end TemplateScript
