import TemplateScript.Proofs.Agree.File
import TemplateScript.Proofs.Cursor.HasText

/-!
# Readers that know of something wrong

A reader that has found something wrong goes on as one that has not. What it finds then comes behind
what it knows, if as many diagnostics are wanted as there are and the first one that is found is for
another line than the last one that is known.
-/

namespace TemplateScript

open Parse

namespace Reader

variable {known : List Diagnostic} {r later : Reader} {source : List Glyph}

/-- The reader with diagnostics before its own. -/
def preceded (known : List Diagnostic) (r : Reader) : Reader := { r with errors := known ++ r.errors }

/-- The first diagnostic is for the line of the last one that is known. -/
def IsHidden (known : List Diagnostic) (r : Reader) : Prop :=
  ∃ last ∈ known.getLast?, ∃ d ∈ r.errors.head?, last.place.line = d.place.line

/-- There is a first diagnostic once and for all. -/
theorem IsHidden.steps (h : r.IsHidden known) (hsteps : r.Steps later) : later.IsHidden known := by
  obtain ⟨last, hlast, d, hd, hline⟩ := h
  obtain ⟨more, hmore⟩ := hsteps.errors_grow
  refine ⟨last, hlast, d, ?_, hline⟩
  rw [← hmore, List.head?_append, hd]
  rfl

/-- Where as many diagnostics are wanted as there are, one is dropped only if the last one is for the
same line. -/
theorem record_drop {d last : Diagnostic} (hlast : last ∈ r.errors.getLast?)
    (hline : last.place.line = d.place.line) : r.record d = r := by
  unfold record
  rw [Option.mem_def.1 hlast, Option.any_some, decide_eq_true hline, Bool.or_true, if_pos rfl]

theorem record_add {d : Diagnostic} (hmax : r.maxErrors = 0)
    (hne : ∀ last ∈ r.errors.getLast?, last.place.line ≠ d.place.line) :
    r.record d = { r with errors := r.errors ++ [d] } := by
  rcases record_cases r d with ⟨-, hfull | ⟨last, hlast, hline⟩⟩ | ⟨heq, -⟩
  · exact absurd hmax ((isFull_iff r).1 hfull).1
  · exact absurd hline (hne last hlast)
  · exact heq

/-- The same diagnostic is recorded, or the first one that is recorded is hidden. -/
theorem record_preceded (known : List Diagnostic) (hmax : r.maxErrors = 0) (d : Diagnostic) :
    (r.record d).IsHidden known ∨ (r.preceded known).record d = (r.record d).preceded known := by
  have hwanted : (r.preceded known).maxErrors = 0 := hmax
  by_cases hnone : r.errors = []
  · have hlast : (r.preceded known).errors.getLast? = known.getLast? := by
      rw [preceded, hnone, List.append_nil]
    have hrecord : r.record d = _ := record_add hmax (by rw [hnone]; exact nofun)
    by_cases hline : ∃ last ∈ known.getLast?, last.place.line = d.place.line
    · obtain ⟨last, hmem, hline⟩ := hline
      exact .inl ⟨last, hmem, d, by rw [hrecord, hnone]; rfl, hline⟩
    · rw [record_add hwanted fun last hmem hsame => hline ⟨last, hlast ▸ hmem, hsame⟩, hrecord]
      exact .inr (congrArg (Reader.mk _ _ · _ _ _) (List.append_assoc _ _ _))
  · have hlast : (r.preceded known).errors.getLast? = r.errors.getLast? := by
      rw [preceded, List.getLast?_append_of_ne_nil _ hnone]
    refine .inr ?_
    by_cases hline : ∃ last ∈ r.errors.getLast?, last.place.line = d.place.line
    · obtain ⟨last, hmem, hline⟩ := hline
      rw [record_drop hmem hline, record_drop (hlast ▸ hmem) hline]
    · have hne : ∀ last ∈ r.errors.getLast?, last.place.line ≠ d.place.line :=
        fun last hmem hsame => hline ⟨last, hmem, hsame⟩
      rw [record_add hwanted (hlast ▸ hne), record_add hmax hne]
      exact congrArg (Reader.mk _ _ · _ _ _) (List.append_assoc _ _ _)

theorem steps_records (errors : List ScanError) (r : Reader) :
    r.Steps (errors.foldl (fun r e => r.record (.ofScanError e)) r) := by
  induction errors generalizing r with
  | nil => exact .refl
  | cons e rest ih => exact (Steps.refl.record _).trans (ih _)

theorem records_preceded (known : List Diagnostic) (hmax : r.maxErrors = 0)
    (errors : List ScanError) :
    (errors.foldl (fun r e => r.record (.ofScanError e)) r).IsHidden known ∨
      errors.foldl (fun r e => r.record (.ofScanError e)) (r.preceded known) =
        (errors.foldl (fun r e => r.record (.ofScanError e)) r).preceded known := by
  induction errors generalizing r with
  | nil => exact .inr rfl
  | cons e rest ih =>
    rw [List.foldl_cons, List.foldl_cons]
    rcases record_preceded known hmax (.ofScanError e) with hhidden | hrecord
    · exact .inl (hhidden.steps (steps_records rest _))
    · rw [hrecord]
      exact ih ((record_maxErrors r _).trans hmax)

theorem moveTo_preceded (known : List Diagnostic) (hmax : r.maxErrors = 0) (cursor : Cursor) :
    (r.moveTo cursor).IsHidden known ∨
      (r.preceded known).moveTo cursor = (r.moveTo cursor).preceded known := by
  have hmoved : ({ r with cursor := cursor.takeErrors } : Reader).maxErrors = 0 := hmax
  exact records_preceded known hmoved _

end Reader

/-- Readers that have come to the same point, one of which knows of something wrong before. -/
structure Reader.Knows (source : List Glyph) (known : List Diagnostic) (r₁ r₂ : Reader) : Prop where
  eq : r₁ = r₂.preceded known
  maxErrors_eq : r₂.maxErrors = 0
  poolHasText : r₂.cursor.PoolHasText
  inSource : r₂.InSource source

/-- The same, with a token in hand. -/
structure Reader.KnowsBoth (source : List Glyph) (known : List Diagnostic) (r₁ r₂ : Reader) : Prop
    extends Reader.Knows source known r₁ r₂ where
  hasText : r₂.token.HasText

namespace Reader.Knows

variable {source : List Glyph} {known : List Diagnostic} {r₁ r₂ : Reader} {limit : Nat}

/-- The readers of which one knows of something wrong before. -/
def simulation (source : List Glyph) (known : List Diagnostic) : Simulation where
  gap := 0
  source := source
  plain := False
  rel := Reader.KnowsBoth source known
  edge _ _ := False
  spent _ := False
  lost r := r.InSource source ∧ r.IsHidden known
  passed _ _ := True

theorem lost {α : Type} {r : Reader} (hr : r.InSource source ∧ r.IsHidden known)
    {promise : α → Prop} {result : EStateM.Result Halt Reader α}
    (h : Accounted source r promise result) : (simulation source known).Lost result := by
  cases result with
  | ok a later => exact ⟨h.1.inSource, hr.2.steps h.1.steps⟩
  | error e later =>
    cases e with
    | bail => exact ⟨h.1.inSource, hr.2.steps h.1.steps⟩
    | fault f => trivial

/-- What is hidden stays so, whatever is done with the token. -/
theorem lost_next {r : Reader} (hr : r.InSource source)
    (hhidden : (r.moveTo r.cursor.scan.1).IsHidden known) (limit : Nat) :
    (simulation source known).Lost (nextWithin (limit + 1) r) := by
  have hmoved : (r.moveTo r.cursor.scan.1).InSource source := Reader.Steps.refl.move.inSource hr
  rw [nextWithin_succ]
  split
  · have hmore : Accounts source True
        (do
          let first ← line r.cursor.scan.2.pos
          let last ← line (r.cursor.scan.2.pos + r.cursor.scan.2.literal.utf8ByteSize)
          modify (·.keepComment ⟨r.cursor.scan.2.pos, r.cursor.scan.2.literal⟩ first last)
          nextWithin limit) fun _ => True :=
      (line_accounts _).seq fun _ => (line_accounts _).seq fun _ =>
        (keepComment_accounts _ _ _).seq fun _ => nextWithin_accounts limit
    exact lost ⟨hmoved, hhidden⟩ (hmore.run hmoved)
  · exact ⟨Reader.Steps.refl.take.inSource hr, hhidden⟩

/-- The next token is taken by both. -/
theorem nextWithin_agreed (h : Reader.Knows source known r₁ r₂) (E : Ending) (limit : Nat) :
    (simulation source known).Agreed E id (fun _ => True) (nextWithin limit r₁)
      (nextWithin limit r₂) := by
  induction limit generalizing r₁ r₂ with
  | zero => exact .lost trivial
  | succ limit ih =>
    obtain ⟨rfl, hmax, htext, hr⟩ := h
    rcases Reader.moveTo_preceded known hmax r₂.cursor.scan.1 with hhidden | hmove
    · exact .lost (lost_next hr hhidden limit)
    have hscan : (r₂.preceded known).cursor.scan = r₂.cursor.scan := rfl
    obtain ⟨hasText, hpool⟩ := Cursor.scan_hasText htext
    have hmoved : (r₂.moveTo r₂.cursor.scan.1).maxErrors = 0 :=
      Reader.Steps.refl.move.maxErrors_eq.trans hmax
    have hwaits : (r₂.moveTo r₂.cursor.scan.1).cursor.PoolHasText := by
      rw [Reader.moveTo_cursor]
      exact hpool
    rw [nextWithin_succ, nextWithin_succ, hscan, hmove]
    split
    · -- The comment is on the same lines for both.
      have hlook (o : Nat) : (∃ l, line o ((r₂.moveTo r₂.cursor.scan.1).preceded known) =
            .ok l ((r₂.moveTo r₂.cursor.scan.1).preceded known) ∧
          line o (r₂.moveTo r₂.cursor.scan.1) = .ok l (r₂.moveTo r₂.cursor.scan.1)) ∨
          ∃ f, line o (r₂.moveTo r₂.cursor.scan.1) =
            .error (.fault f) (r₂.moveTo r₂.cursor.scan.1) := by
        by_cases ho : o ≤ (r₂.moveTo r₂.cursor.scan.1).cursor.file.size
        · exact .inl ⟨_, line_run ho, line_run ho⟩
        · exact .inr ⟨_, line_run_fault ho⟩
      rcases hlook r₂.cursor.scan.2.pos with ⟨first, hfirst₁, hfirst₂⟩ | ⟨f, hfault⟩
      · rw [bind_run_ok hfirst₁, bind_run_ok hfirst₂]
        rcases hlook (r₂.cursor.scan.2.pos + r₂.cursor.scan.2.literal.utf8ByteSize) with
          ⟨last, hlast₁, hlast₂⟩ | ⟨f, hfault⟩
        · rw [bind_run_ok hlast₁, bind_run_ok hlast₂]
          exact ih ⟨rfl, hmoved, hwaits,
            (Reader.Steps.refl.move.keepComment _ _ _).inSource hr⟩
        · rw [bind_run_error hfault]
          exact .lost trivial
      · rw [bind_run_error hfault]
        exact .lost trivial
    · exact .ok (a := ()) trivial
        ⟨⟨rfl, hmoved, hwaits, Reader.Steps.refl.take.inSource hr⟩, hasText⟩

theorem next_agreed (h : Reader.Knows source known r₁ r₂) (E : Ending) :
    (simulation source known).Agreed E id (fun _ => True) (next r₁) (next r₂) := by
  have hbound : r₁.bound = r₂.bound := by
    rw [h.eq]
    rfl
  rw [next_run, next_run, hbound]
  exact h.nextWithin_agreed E _

theorem apply (h : Reader.Knows source known r₁ r₂) (options : PragmaOptions) :
    Reader.Knows source known { r₁ with cursor := r₁.cursor.apply options }
      { r₂ with cursor := r₂.cursor.apply options } where
  eq := by
    rw [h.eq]
    rfl
  maxErrors_eq := h.maxErrors_eq
  poolHasText t ht := h.poolHasText t ((r₂.cursor.stays_apply options).pool_eq ▸ ht)
  inSource := (Reader.Steps.refl.apply options).inSource h.inSource

end Reader.Knows

namespace Reader.KnowsBoth

open Reader.Knows

variable {source : List Glyph} {known : List Diagnostic} {r₁ r₂ last : Reader} {depth n f : Nat}

theorem errorAt_agreed (h : Reader.KnowsBoth source known r₁ r₂) (o : Nat) (cause : Cause) :
    (simulation source known).Agreed .inside id (fun _ => True) (errorAt o cause r₁)
      (errorAt o cause r₂) := by
  obtain ⟨⟨rfl, hmax, htext, hr⟩, hasText⟩ := h
  unfold errorAt
  by_cases ho : o ≤ r₂.cursor.file.size
  · have ho₁ : o ≤ (r₂.preceded known).cursor.file.size := ho
    let d : Diagnostic := ⟨r₂.cursor.file.place o, cause⟩
    have hrecorded := (Reader.Steps.refl.record d).inSource hr
    rw [bind_run_ok (place_run ho₁), bind_run_ok (place_run ho)]
    rcases Reader.record_preceded known hmax d with hhidden | hrecord
    · exact .lost ⟨hrecorded, hhidden⟩
    · refine .ok (a := ()) trivial ⟨⟨hrecord, (Reader.record_maxErrors r₂ d).trans hmax, ?_,
        hrecorded⟩, ?_⟩
      · rw [Reader.record_cursor]
        exact htext
      · rw [Reader.record_token]
        exact hasText
  · rw [bind_run_error (place_run_fault ho)]
    exact .lost trivial

theorem lawful (source : List Glyph) (known : List Diagnostic) :
    (simulation source known).Lawful where
  token_eq h := by
    rw [h.eq]
    rfl
  isFull_eq h := by
    rw [h.eq]
    simp [Reader.isFull, Reader.preceded, h.maxErrors_eq]
  options_eq {_ r₂} h := ⟨r₂.cursor.options.comments, by rw [h.eq]; rfl⟩
  bound_le h := by
    rw [h.eq]
    exact Nat.le_refl _
  inSource h := h.inSource
  isCode hplain := hplain.elim
  agreed_apply options h _ := (h.apply options).next_agreed _
  isWritten h := h.hasText
  isMarked _ _ := trivial
  passed_mono _ _ := trivial
  size_le h := by
    rw [h.eq]
    exact Nat.le_refl _
  line_iff h _ _ := by
    rw [h.eq]
    exact Iff.rfl
  agreed_next h := h.next_agreed _
  agreed_next_inside h _ := h.next_agreed _
  agreed_errorAt o cause h := h.errorAt_agreed o cause
  endless _ _ := id
  keeps_of h r hr := lost hr (h r hr.1)
  edge_spent h := h.elim
  edge_plain h := h.elim
  spent_eof h := h.elim
  spent_inSource h := h.elim
  lost_of_errors h := h.elim

/-- What is known before changes nothing of what is read of a file from some statements on, if the
first diagnostic that is found then is not hidden. -/
theorem fileFrom (h : Reader.KnowsBoth source known r₁ r₂) {before read : List Stmt}
    (hbefore : Grammar.Settled before)
    (hrun : Grammar.fileFrom (.ofDepth depth) n f [] r₂ = .ok read last)
    (hlast : ¬ last.IsHidden known) :
    Grammar.fileFrom (.ofDepth depth) n f before r₁ =
      .ok (before.reverse ++ shiftStmts 0 read) (last.preceded known) := by
  have hS := lawful source known
  have hagrees : (simulation source known).Agrees (fun _ => True) .inside
      (Grammar.fileFrom (.ofDepth depth) n f before) _ _ _ :=
    Grammar.fileFrom_agrees hS (fun _ => id) (Nested.agrees_ofDepth hS (Nat.le_refl depth))
      (.inr hbefore) (Nat.le_refl n) (Nat.le_refl f)
  have hagreed := hagrees.agreed h trivial
  rw [hrun] at hagreed
  generalize Grammar.fileFrom (.ofDepth depth) n f before r₁ = result at hagreed
  cases hagreed with
  | ok _ hrel =>
    rw [hrel.eq]
    rfl
  | edge hE => cases hE
  | beyond hE => cases hE
  | lost h => exact absurd h.2 hlast

end Reader.KnowsBoth

end TemplateScript
