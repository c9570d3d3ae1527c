import Mathlib.Data.List.Chain
import TemplateScript.Proofs.Cursor.Calls
import TemplateScript.Proofs.Grammar.Run
import TemplateScript.Proofs.Source.Lines

/-!
# The steps of a reader

Whatever a phrase does to its reader it does in a few sorts of steps: a diagnostic is recorded, the
cursor moves on by a token, the token or a comment is kept, the options of a pragma line are set.
What every step keeps is kept by every phrase, whatever the phrase is. So diagnostics are never
dropped, their number stays within the limit, and no two in a row are for one line.
-/

namespace TemplateScript

namespace Cursor

/-- The later cursor stands where the earlier one does, and has the same tokens and errors to hand
out. -/
structure Stays (c later : Cursor) : Prop where
  rest_eq : later.rest = c.rest
  offset_eq : later.offset = c.offset
  file_eq : later.file = c.file
  pool_eq : later.pool = c.pool
  errors_eq : later.errors = c.errors
  taken_eq : later.taken = c.taken

theorem Stays.refl (c : Cursor) : c.Stays c := ⟨rfl, rfl, rfl, rfl, rfl, rfl⟩

theorem Stays.trans {a b c : Cursor} (h : a.Stays b) (k : b.Stays c) : a.Stays c :=
  ⟨k.rest_eq.trans h.rest_eq, k.offset_eq.trans h.offset_eq, k.file_eq.trans h.file_eq,
    k.pool_eq.trans h.pool_eq, k.errors_eq.trans h.errors_eq, k.taken_eq.trans h.taken_eq⟩

theorem Stays.reaches {c later : Cursor} (h : c.Stays later) : c.Reaches later :=
  .of_eq h.rest_eq h.offset_eq h.file_eq h.errors_eq

theorem stays_setMixed (c : Cursor) (on : Bool) : c.Stays (c.setMixed on) := by
  unfold setMixed
  split
  · exact .refl c
  · exact ⟨rfl, rfl, rfl, rfl, rfl, rfl⟩

theorem stays_elim (set : Cursor → Bool → Cursor)
    (hset : ∀ (c : Cursor) (on : Bool), c.Stays (set c on))
    (c : Cursor) (on : Option Bool) : c.Stays (on.elim c (set c)) := by
  cases on with
  | none => exact .refl c
  | some on => exact hset c on

/-- Setting the options of a pragma line does not move the cursor. -/
theorem stays_apply (c : Cursor) (options : PragmaOptions) : c.Stays (c.apply options) := by
  have hdelimiters : c.Stays (c.setDelimiters options.opening options.closing) :=
    ⟨rfl, rfl, rfl, rfl, rfl, rfl⟩
  exact (((hdelimiters.trans (stays_elim _ stays_setMixed _ _)).trans
    (stays_elim setFloatsAsDecimal (fun _ _ => ⟨rfl, rfl, rfl, rfl, rfl, rfl⟩) _ _)).trans
    (stays_elim setCharAsString (fun _ _ => ⟨rfl, rfl, rfl, rfl, rfl, rfl⟩) _ _)).trans
    (stays_elim setValueSugar (fun _ _ => ⟨rfl, rfl, rfl, rfl, rfl, rfl⟩) _ _)

/-- The options of a pragma line are set one by one. -/
theorem apply_eq_performAll (c : Cursor) (options : PragmaOptions) :
    ∃ calls, performAll calls c = (c.apply options, []) := by
  refine ⟨.setDelimiters options.opening options.closing ::
    ((options.mixed.map Call.setMixed).toList ++
      (options.floatsAsDecimal.map Call.setFloatsAsDecimal).toList ++
      (options.charAsString.map Call.setCharAsString).toList ++
      (options.valueSugar.map Call.setValueSugar).toList), ?_⟩
  unfold apply
  cases options.mixed <;> cases options.floatsAsDecimal <;> cases options.charAsString <;>
    cases options.valueSugar <;> rfl

end Cursor

namespace Reader

variable {a b c r later : Reader}

/-! ### Recording -/

/-- A diagnostic is dropped if there are enough, or if the last one is for the same line; else it
comes behind the others. -/
theorem record_cases (r : Reader) (d : Diagnostic) :
    r.record d = r ∧
        (r.isFull = true ∨ ∃ last ∈ r.errors.getLast?, last.place.line = d.place.line) ∨
      r.record d = { r with errors := r.errors ++ [d] } ∧ r.isFull = false ∧
        ∀ last ∈ r.errors.getLast?, last.place.line ≠ d.place.line := by
  unfold record
  split
  · next h =>
    refine .inl ⟨rfl, (Bool.or_eq_true_iff.1 h).imp_right fun hlast => ?_⟩
    obtain ⟨last, hmem, hline⟩ := (Option.any_eq_true ..).1 hlast
    exact ⟨last, hmem, of_decide_eq_true hline⟩
  · next h =>
    rw [Bool.or_eq_true, not_or, Bool.not_eq_true] at h
    refine .inr ⟨rfl, h.1, fun last hmem hline => h.2 ?_⟩
    rw [Option.mem_def.1 hmem]
    exact decide_eq_true hline

theorem record_cursor (r : Reader) (d : Diagnostic) : (r.record d).cursor = r.cursor := by
  unfold record
  split <;> rfl

theorem record_token (r : Reader) (d : Diagnostic) : (r.record d).token = r.token := by
  unfold record
  split <;> rfl

theorem record_maxErrors (r : Reader) (d : Diagnostic) : (r.record d).maxErrors = r.maxErrors := by
  unfold record
  split <;> rfl

theorem record_errors_grow (r : Reader) (d : Diagnostic) : r.errors <+: (r.record d).errors := by
  unfold record
  split
  · exact List.prefix_rfl
  · exact List.prefix_append _ _

theorem isFull_iff (r : Reader) :
    r.isFull = true ↔ r.maxErrors ≠ 0 ∧ r.maxErrors ≤ r.errors.length := by
  simp [isFull]

/-- A diagnostic that is dropped is so because there is another one. -/
theorem record_errors_ne (r : Reader) (d : Diagnostic) : (r.record d).errors ≠ [] := by
  rcases record_cases r d with ⟨heq, hfull | ⟨last, hlast, -⟩⟩ | ⟨heq, -⟩
  · rw [heq]
    obtain ⟨hmax, hle⟩ := (isFull_iff r).1 hfull
    exact List.length_pos_iff.1 (Nat.lt_of_lt_of_le (Nat.pos_of_ne_zero hmax) hle)
  · rw [heq]
    exact List.ne_nil_of_mem (List.mem_of_getLast? hlast)
  · simp [heq]

/-- What moving the cursor and recording keep, moving on keeps. -/
theorem moveTo_induct {P : Reader → Prop} {cursor : Cursor}
    (hcursor : P { r with cursor := cursor.takeErrors })
    (hrecord : ∀ r d, P r → P (r.record d)) : P (r.moveTo cursor) := by
  unfold moveTo
  generalize { r with cursor := cursor.takeErrors } = moved at hcursor
  induction cursor.newErrors generalizing moved with
  | nil => exact hcursor
  | cons e rest ih => exact ih _ (hrecord _ _ hcursor)

theorem moveTo_cursor (r : Reader) (cursor : Cursor) :
    (r.moveTo cursor).cursor = cursor.takeErrors :=
  moveTo_induct (P := fun r => r.cursor = cursor.takeErrors) rfl fun r d h =>
    (record_cursor r d).trans h

theorem moveTo_token (r : Reader) (cursor : Cursor) : (r.moveTo cursor).token = r.token :=
  moveTo_induct (P := fun later => later.token = r.token) rfl fun r d h =>
    (record_token r d).trans h

/-! ### Steps -/

/-- The later reader is reached from the earlier one in steps. -/
inductive Steps (r : Reader) : Reader → Prop
  | refl : r.Steps r
  | record {later : Reader} (h : r.Steps later) (d : Diagnostic) : r.Steps (later.record d)
  | move {later : Reader} (h : r.Steps later) : r.Steps (later.moveTo later.cursor.scan.1)
  | take {later : Reader} (h : r.Steps later) :
    r.Steps { later.moveTo later.cursor.scan.1 with
      token := later.cursor.scan.2, commentEnd := none }
  | keepComment {later : Reader} (h : r.Steps later) (comment : Comment) (first last : Nat) :
    r.Steps (later.keepComment comment first last)
  | apply {later : Reader} (h : r.Steps later) (options : PragmaOptions) :
    r.Steps { later with cursor := later.cursor.apply options }

namespace Steps

theorem trans (h : a.Steps b) (k : b.Steps c) : a.Steps c := by
  induction k with
  | refl => exact h
  | record _ d ih => exact ih.record d
  | move _ ih => exact ih.move
  | take _ ih => exact ih.take
  | keepComment _ comment first last ih => exact ih.keepComment comment first last
  | apply _ options ih => exact ih.apply options

/-- What looks at nothing but the diagnostics and the limit is kept if recording keeps it. -/
theorem induct {P : List Diagnostic → Nat → Prop} (h : r.Steps later)
    (hrecord : ∀ (r : Reader) (d : Diagnostic), P r.errors r.maxErrors →
      P (r.record d).errors (r.record d).maxErrors) (hr : P r.errors r.maxErrors) :
    P later.errors later.maxErrors := by
  have hmove (later : Reader) (cursor : Cursor) (h : P later.errors later.maxErrors) :
      P (later.moveTo cursor).errors (later.moveTo cursor).maxErrors :=
    moveTo_induct (P := fun r => P r.errors r.maxErrors) h hrecord
  induction h with
  | refl => exact hr
  | record _ d ih => exact hrecord _ d ih
  | move _ ih => exact hmove _ _ ih
  | take _ ih => exact hmove _ _ ih
  | keepComment _ comment first last ih => exact ih
  | apply _ options ih => exact ih

/-- Diagnostics are never dropped. -/
theorem errors_grow (h : r.Steps later) : r.errors <+: later.errors :=
  h.induct (P := fun errors _ => r.errors <+: errors)
    (fun r d h => h.trans (record_errors_grow r d)) List.prefix_rfl

theorem maxErrors_eq (h : r.Steps later) : later.maxErrors = r.maxErrors :=
  h.induct (P := fun _ maxErrors => maxErrors = r.maxErrors)
    (fun r d h => (record_maxErrors r d).trans h) rfl

/-- There are never more diagnostics than were asked for. -/
theorem length_errors_le (h : r.Steps later)
    (hr : r.maxErrors ≠ 0 → r.errors.length ≤ r.maxErrors) :
    later.maxErrors ≠ 0 → later.errors.length ≤ later.maxErrors := by
  refine h.induct (P := fun errors maxErrors => maxErrors ≠ 0 → errors.length ≤ maxErrors)
    (fun r d h hmax => ?_) hr
  rw [record_maxErrors] at hmax ⊢
  rcases record_cases r d with ⟨heq, -⟩ | ⟨heq, hfull, -⟩
  · rw [heq]
    exact h hmax
  · have hlt : ¬ r.maxErrors ≤ r.errors.length := fun hle =>
      Bool.false_ne_true (hfull.symm.trans ((isFull_iff r).2 ⟨hmax, hle⟩))
    rw [heq, List.length_append, List.length_singleton]
    omega

/-- No two diagnostics in a row are for one line. -/
theorem isChain_lines (h : r.Steps later)
    (hr : r.errors.IsChain fun d e => d.place.line ≠ e.place.line) :
    later.errors.IsChain fun d e => d.place.line ≠ e.place.line := by
  refine h.induct (P := fun errors _ => errors.IsChain fun d e => d.place.line ≠ e.place.line)
    (fun r d h => ?_) hr
  rcases record_cases r d with ⟨heq, -⟩ | ⟨heq, -, hlast⟩
  · rwa [heq]
  · rw [heq]
    refine List.isChain_append.2 ⟨h, .singleton d, fun last hmem first hfirst => ?_⟩
    rw [← Option.some.inj hfirst]
    exact hlast last hmem

/-- A reader moves only forward. -/
theorem reaches (h : r.Steps later) : r.cursor.Reaches later.cursor := by
  have hscan (cursor : Cursor) : cursor.Reaches cursor.scan.1.takeErrors :=
    cursor.reaches_scan.trans (.of_eq rfl rfl rfl rfl)
  induction h with
  | refl => exact .refl _
  | record _ d ih => rwa [record_cursor]
  | move _ ih =>
    rw [moveTo_cursor]
    exact ih.trans (hscan _)
  | take _ ih =>
    rw [moveTo_cursor]
    exact ih.trans (hscan _)
  | keepComment _ comment first last ih => exact ih
  | apply _ options ih => exact ih.trans (Cursor.stays_apply ..).reaches

end Steps

/-! ### Readers in a source -/

/-- The reader stands in a source, with its line table filled up to the cursor, and no token it
holds begins behind the cursor. -/
structure InSource (source : List Glyph) (r : Reader) : Prop where
  cursor : r.cursor.InSource source
  pool : r.cursor.PoolPlaced
  token : r.token.pos ≤ r.cursor.offset

theorem Steps.inSource {source : List Glyph} (h : r.Steps later) (hr : r.InSource source) :
    later.InSource source := by
  have hmove (r : Reader) (h : r.InSource source) :
      (r.moveTo r.cursor.scan.1).cursor.InSource source ∧
        (r.moveTo r.cursor.scan.1).cursor.PoolPlaced ∧
        r.cursor.scan.2.pos ≤ (r.moveTo r.cursor.scan.1).cursor.offset ∧
        r.cursor.offset ≤ (r.moveTo r.cursor.scan.1).cursor.offset := by
    have hscan := Cursor.reaches_scan r.cursor
    obtain ⟨hpos, hpool⟩ := Cursor.scan_placed h.pool
    rw [moveTo_cursor]
    exact ⟨(h.cursor.reaches hscan).reaches (.of_eq rfl rfl rfl rfl), hpool, hpos, hscan.offset_le⟩
  induction h with
  | refl => exact hr
  | record _ d ih =>
    refine ⟨?_, ?_, ?_⟩
    · rw [record_cursor]
      exact ih.cursor
    · rw [record_cursor]
      exact ih.pool
    · rw [record_cursor, record_token]
      exact ih.token
  | @move later _ ih =>
    obtain ⟨hcursor, hpool, -, hoffset⟩ := hmove later ih
    exact ⟨hcursor, hpool, moveTo_token later _ ▸ Nat.le_trans ih.token hoffset⟩
  | @take later _ ih =>
    obtain ⟨hcursor, hpool, hpos, -⟩ := hmove later ih
    exact ⟨hcursor, hpool, hpos⟩
  | keepComment _ comment first last ih => exact ⟨ih.cursor, ih.pool, ih.token⟩
  | @apply later _ options ih =>
    have hstays := later.cursor.stays_apply options
    refine ⟨ih.cursor.reaches hstays.reaches, fun t ht => ?_, ?_⟩
    · rw [hstays.offset_eq]
      exact ih.pool t (hstays.pool_eq ▸ ht)
    · rw [hstays.offset_eq]
      exact ih.token

end Reader

end TemplateScript
