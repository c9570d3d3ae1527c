import TemplateScript.Proofs.Agree.Reader
import TemplateScript.Proofs.Cursor.Shift
import TemplateScript.Proofs.Cursor.HasText

/-!
# Readers further on

A source is what a longer one ends with. Once the reader of the longer one has come to where the
source begins, with nothing found wrong before, it stays at the same point as a reader of the source
alone, whatever the source is and whatever options its pragma lines set.
-/

namespace TemplateScript

open Parse

/-- A diagnostic further on. -/
def Diagnostic.shift (n lines : Nat) (d : Diagnostic) : Diagnostic :=
  { d with place := d.place.shift n lines }

theorem Diagnostic.order_shift (n lines : Nat) (a b : Diagnostic) :
    order (a.shift n lines) (b.shift n lines) = order a b := by
  have hline : compare (a.place.line + lines) (b.place.line + lines) =
      compare a.place.line b.place.line := by
    simp only [Nat.compare_eq_ite_lt, Nat.add_lt_add_iff_right]
  unfold order
  rw [show (a.shift n lines).place.line = a.place.line + lines from rfl,
    show (b.shift n lines).place.line = b.place.line + lines from rfl, hline]
  rfl

/-- Diagnostics further on come in the same order. -/
theorem Diagnostic.sort_shift (n lines : Nat) (list : List Diagnostic) :
    sort (list.map (·.shift n lines)) = (sort list).map (·.shift n lines) := by
  unfold sort
  refine (List.map_mergeSort fun a _ b _ => ?_).symm
  rw [order_shift]

namespace Reader

variable {n lines : Nat} {r₁ r₂ : Reader}

/-- Two readers have found the same wrong, the first one so many bytes and lines further on, and
want as much of it. -/
structure SameErrors (n lines : Nat) (r₁ r₂ : Reader) : Prop where
  errors_eq : r₁.errors = r₂.errors.map (·.shift n lines)
  maxErrors_eq : r₁.maxErrors = r₂.maxErrors

namespace SameErrors

theorem isFull_eq (h : SameErrors n lines r₁ r₂) : r₁.isFull = r₂.isFull := by
  unfold isFull
  rw [h.maxErrors_eq, h.errors_eq, List.length_map]

/-- A diagnostic is dropped by both readers or by none. -/
theorem drops_eq (h : SameErrors n lines r₁ r₂) (d : Diagnostic) :
    (r₁.isFull || r₁.errors.getLast?.any fun last =>
      last.place.line = (d.shift n lines).place.line) =
      (r₂.isFull || r₂.errors.getLast?.any fun last => last.place.line = d.place.line) := by
  rw [h.isFull_eq, h.errors_eq, List.getLast?_map, Option.any_map]
  simp [Diagnostic.shift, Place.shift]

theorem record (h : SameErrors n lines r₁ r₂) (d : Diagnostic) :
    SameErrors n lines (r₁.record (d.shift n lines)) (r₂.record d) := by
  unfold Reader.record
  rw [h.drops_eq]
  split
  · exact h
  · exact ⟨by simp [h.errors_eq], h.maxErrors_eq⟩

theorem moveTo (h : SameErrors n lines r₁ r₂) {c₁ c₂ : Cursor}
    (hnew : c₁.newErrors = c₂.newErrors.map (·.shift n lines)) :
    SameErrors n lines (r₁.moveTo c₁) (r₂.moveTo c₂) := by
  have hrecords (errors : List ScanError) {r₁ r₂ : Reader} (h : SameErrors n lines r₁ r₂) :
      SameErrors n lines
        ((errors.map (·.shift n lines)).foldl (fun r e => r.record (.ofScanError e)) r₁)
        (errors.foldl (fun r e => r.record (.ofScanError e)) r₂) := by
    induction errors generalizing r₁ r₂ with
    | nil => exact h
    | cons e rest ih => exact ih (h.record (.ofScanError e))
  unfold Reader.moveTo
  rw [hnew]
  exact hrecords _ ⟨h.errors_eq, h.maxErrors_eq⟩

end SameErrors

end Reader

namespace Setting

variable {s : Setting} {source : List Glyph} {r₁ r₂ : Reader}

/-- The longer source ends with the source, as many errors of both have been handed out, and the same
becomes of their values. -/
structure IsLevel (s : Setting) : Prop where
  behind_eq : s.behind = 0
  taken_eq : s.taken = none
  sugar_eq : s.sugar = none

/-- Both readers have come to the same point of the source, and found the same wrong with it. -/
structure Meets (s : Setting) (source : List Glyph) (r₁ r₂ : Reader) : Prop where
  cursor_eq : r₁.cursor = s.cursor r₂.cursor
  errors_eq : r₁.errors = r₂.errors.map (·.shift s.gap s.lines)
  maxErrors_eq : r₁.maxErrors = r₂.maxErrors
  comments_eq : s.quiet = false → r₁.comments = r₂.comments.map (·.map (·.shift s.gap))
  commentEnd_eq : s.quiet = false → r₁.commentEnd = r₂.commentEnd.map (· + s.lines)
  reads : s.Reads r₂.cursor
  poolHasText : r₂.cursor.PoolHasText
  poolInner : r₂.cursor.PoolInner
  taken_le : r₂.cursor.taken ≤ r₂.cursor.errors.length
  inSource : r₂.InSource source

/-- The readers have come to the same point, and have the same token in hand. -/
structure Follows (s : Setting) (source : List Glyph) (r₁ r₂ : Reader) : Prop
    extends s.Meets source r₁ r₂ where
  token_eq : r₁.token = r₂.token.shift s.gap
  hasText : r₂.token.HasText

/-! ### Steps -/

namespace Meets

theorem sameErrors (h : s.Meets source r₁ r₂) : Reader.SameErrors s.gap s.lines r₁ r₂ :=
  ⟨h.errors_eq, h.maxErrors_eq⟩

theorem isFull_eq (h : s.Meets source r₁ r₂) : r₁.isFull = r₂.isFull := h.sameErrors.isFull_eq

theorem bound_eq (h : s.Meets source r₁ r₂) : r₁.bound = r₂.bound := by
  have hpool : r₁.cursor.pool.length = r₂.cursor.pool.length := by
    rw [h.cursor_eq]
    exact List.length_map _
  unfold Reader.bound Cursor.bound
  rw [hpool, h.cursor_eq, cursor_rest]

theorem record (h : s.Meets source r₁ r₂) (d : Diagnostic) :
    s.Meets source (r₁.record (d.shift s.gap s.lines)) (r₂.record d) := by
  have hrecorded := (Reader.Steps.refl.record d).inSource h.inSource
  unfold Reader.record at hrecorded ⊢
  rw [h.sameErrors.drops_eq]
  split
  · exact h
  · next hnew =>
    rw [if_neg hnew] at hrecorded
    exact { h with
      errors_eq := by simp [h.errors_eq]
      inSource := hrecorded }

theorem records (h : s.Meets source r₁ r₂) (errors : List ScanError) :
    s.Meets source
      ((errors.map (·.shift s.gap s.lines)).foldl (fun r e => r.record (.ofScanError e)) r₁)
      (errors.foldl (fun r e => r.record (.ofScanError e)) r₂) := by
  induction errors generalizing r₁ r₂ with
  | nil => exact h
  | cons e rest ih => exact ih (h.record (.ofScanError e))

/-- Both readers move on to the same point. -/
theorem moveTo (h : s.Meets source r₁ r₂) (hs : s.IsLevel) {last : Cursor}
    (hreaches : r₂.cursor.Reaches last) (htext : last.PoolHasText) (hinner : last.PoolInner)
    (hplaced : last.PoolPlaced) :
    s.Meets source (r₁.moveTo (s.cursor last)) (r₂.moveTo last) := by
  have hmoved : s.Meets source { r₁ with cursor := (s.cursor last).takeErrors }
      { r₂ with cursor := last.takeErrors } :=
    { h with
      cursor_eq := by simp [Cursor.takeErrors, cursor, hs.taken_eq]
      reads := (h.reads.reaches hreaches).inside rfl (List.Subset.refl _)
      poolHasText := htext
      poolInner := hinner
      taken_le := Nat.le_refl _
      inSource := by
        refine ⟨?_, hplaced, Nat.le_trans h.inSource.token hreaches.offset_le⟩
        exact (h.inSource.cursor.reaches hreaches).reaches (.of_eq rfl rfl rfl rfl) }
  unfold Reader.moveTo
  rw [newErrors_cursor hs.taken_eq]
  exact hmoved.records _

theorem scan_cursor_eq (h : s.Meets source r₁ r₂)
    (hquiet : s.quiet = true → r₂.cursor.scan.2.kind ≠ .comment) :
    r₁.cursor.scan = s.handed r₂.cursor.scan := by
  rw [h.cursor_eq, Setting.scan_cursor h.reads hquiet]

theorem move (h : s.Meets source r₁ r₂) (hs : s.IsLevel)
    (hquiet : s.quiet = true → r₂.cursor.scan.2.kind ≠ .comment) :
    s.Meets source (r₁.moveTo r₁.cursor.scan.1) (r₂.moveTo r₂.cursor.scan.1) := by
  rw [h.scan_cursor_eq hquiet]
  exact h.moveTo hs r₂.cursor.reaches_scan (Cursor.scan_hasText h.poolHasText).2 h.poolInner.scan
    (Cursor.scan_placed h.inSource.pool).2

theorem keepComment (h : s.Meets source r₁ r₂) (comment : Comment) (first last : Nat) :
    s.Meets source (r₁.keepComment (comment.shift s.gap) (first + s.lines) (last + s.lines))
      (r₂.keepComment comment first last) := by
  refine { h with
    comments_eq := fun hloud => ?_
    commentEnd_eq := fun _ => rfl
    inSource := (Reader.Steps.refl.keepComment comment first last).inSource h.inSource }
  unfold Reader.keepComment
  rw [h.comments_eq hloud, h.commentEnd_eq hloud, List.getLast?_map]
  cases r₂.comments.getLast? with
  | none => simp
  | some group =>
    cases r₂.commentEnd with
    | none => simp
    | some line =>
      have hnear : first + s.lines ≤ line + s.lines + 1 ↔ first ≤ line + 1 := by omega
      simp only [Option.map_some, hnear]
      split
      · simp [List.map_dropLast]
      · simp

theorem take (h : s.Meets source r₁ r₂) (hs : s.IsLevel)
    (hquiet : s.quiet = true → r₂.cursor.scan.2.kind ≠ .comment) :
    s.Follows source
      { r₁.moveTo r₁.cursor.scan.1 with token := r₁.cursor.scan.2, commentEnd := none }
      { r₂.moveTo r₂.cursor.scan.1 with token := r₂.cursor.scan.2, commentEnd := none } :=
  { h.move hs hquiet with
    commentEnd_eq := fun _ => rfl
    token_eq := by rw [h.scan_cursor_eq hquiet]; rfl
    hasText := (Cursor.scan_hasText h.poolHasText).1
    inSource := Reader.Steps.refl.take.inSource h.inSource }

theorem apply (h : s.Meets source r₁ r₂) (hs : s.IsLevel) (options : PragmaOptions) :
    s.Meets source { r₁ with cursor := r₁.cursor.apply options }
      { r₂ with cursor := r₂.cursor.apply options } :=
  have hstays := r₂.cursor.stays_apply options
  { h with
    cursor_eq := by rw [h.cursor_eq, apply_cursor hs.sugar_eq]
    reads := h.reads.inside hstays.file_eq (hstays.rest_eq ▸ List.Subset.refl _)
    poolHasText := fun t ht => h.poolHasText t (hstays.pool_eq ▸ ht)
    poolInner := fun t ht => h.poolInner t (hstays.pool_eq ▸ ht)
    taken_le := by
      show (r₂.cursor.apply options).taken ≤ (r₂.cursor.apply options).errors.length
      rw [hstays.taken_eq, hstays.errors_eq]
      exact h.taken_le
    inSource := (Reader.Steps.refl.apply options).inSource h.inSource }

/-! ### Places -/

theorem size_eq (h : s.Meets source r₁ r₂) (hs : s.IsLevel) :
    r₁.cursor.file.size = r₂.cursor.file.size + s.gap := by
  rw [h.cursor_eq]
  exact congrArg (r₂.cursor.file.size + s.gap + ·) hs.behind_eq

theorem place_eq (h : s.Meets source r₁ r₂) (o : Nat) :
    r₁.cursor.file.place (o + s.gap) = (r₂.cursor.file.place o).shift s.gap s.lines := by
  rw [h.cursor_eq]
  exact place_file h.reads.lined o

/-- The line of an offset is looked up in both files or in none. -/
theorem line_cases (h : s.Meets source r₁ r₂) (hs : s.IsLevel) (o : Nat) :
    (∃ l, line (o + s.gap) r₁ = .ok (l + s.lines) r₁ ∧ line o r₂ = .ok l r₂) ∨
      ∃ f, line o r₂ = .error (.fault f) r₂ := by
  by_cases ho : o ≤ r₂.cursor.file.size
  · have ho₁ : o + s.gap ≤ r₁.cursor.file.size := by
      rw [h.size_eq hs]
      exact Nat.add_le_add_right ho _
    refine .inl ⟨_, ?_, line_run ho⟩
    rw [line_run ho₁, h.place_eq o]
    rfl
  · exact .inr ⟨_, line_run_fault ho⟩

end Meets

/-- Readers that have come to the same point go on to the same token. -/
def MeetsAgain (s : Setting) (source : List Glyph) : Prop :=
  ∀ ⦃r₁ r₂ : Reader⦄, s.Meets source r₁ r₂ → ∀ limit,
    (∃ l₁ l₂, nextWithin limit r₁ = .ok () l₁ ∧ nextWithin limit r₂ = .ok () l₂ ∧
      s.Follows source l₁ l₂) ∨ ∃ f l, nextWithin limit r₂ = .error (.fault f) l

/-- The next token that is no comment is the same one, behind the same comments. -/
theorem meetsAgain (hs : s.IsLevel) (hloud : s.quiet = false) : s.MeetsAgain source := by
  intro r₁ r₂ h limit
  induction limit generalizing r₁ r₂ with
  | zero => exact .inr ⟨_, _, rfl⟩
  | succ limit ih =>
    have hquiet : s.quiet = true → r₂.cursor.scan.2.kind ≠ .comment := by simp [hloud]
    have htoken : r₁.cursor.scan.2 = r₂.cursor.scan.2.shift s.gap := by
      rw [h.scan_cursor_eq hquiet]
      rfl
    have hmove := h.move hs hquiet
    rw [nextWithin_succ, nextWithin_succ, htoken]
    by_cases hkind : r₂.cursor.scan.2.kind = .comment
    · rw [if_pos (show (r₂.cursor.scan.2.shift s.gap).kind = _ from hkind), if_pos hkind]
      simp only [Token.shift_pos, Token.shift_literal]
      rw [Nat.add_right_comm]
      rcases hmove.line_cases hs r₂.cursor.scan.2.pos with ⟨first, hfirst₁, hfirst₂⟩ | ⟨f, hfault⟩
      · rw [bind_run_ok hfirst₁, bind_run_ok hfirst₂]
        rcases hmove.line_cases hs
            (r₂.cursor.scan.2.pos + r₂.cursor.scan.2.literal.utf8ByteSize) with
          ⟨last, hlast₁, hlast₂⟩ | ⟨f, hfault⟩
        · rw [bind_run_ok hlast₁, bind_run_ok hlast₂]
          exact ih (hmove.keepComment
            ⟨r₂.cursor.scan.2.pos, r₂.cursor.scan.2.literal⟩ first last)
        · exact .inr ⟨f, _, bind_run_error hfault _⟩
      · exact .inr ⟨f, _, bind_run_error hfault _⟩
    · rw [if_neg (show ¬ (r₂.cursor.scan.2.shift s.gap).kind = _ from hkind), if_neg hkind]
      refine .inl ⟨_, _, rfl, rfl, ?_⟩
      rw [← htoken]
      exact h.take hs hquiet

/-! ### The simulation -/

/-- The readers of a source and of a longer one that ends with it. -/
def simulation (s : Setting) (source : List Glyph) : Simulation where
  gap := s.gap
  source := source
  plain := False
  rel := s.Follows source
  edge _ _ := False
  spent _ := False
  lost _ := False
  passed _ _ := True

theorem Meets.next_agreed (h : s.Meets source r₁ r₂) (hagain : s.MeetsAgain source) (E : Ending) :
    (s.simulation source).Agreed E id (fun _ => True) (next r₁) (next r₂) := by
  rw [next_run, next_run, h.bound_eq]
  rcases hagain h r₂.bound with ⟨l₁, l₂, hrun₁, hrun₂, hfollows⟩ | ⟨f, l, hrun⟩
  · rw [hrun₁, hrun₂]
    exact .ok (a := ()) trivial hfollows
  · rw [hrun]
    exact .lost trivial

theorem Follows.errorAt_agreed (h : s.Follows source r₁ r₂) (hs : s.IsLevel) (o : Nat)
    (cause : Cause) :
    (s.simulation source).Agreed .inside id (fun _ => True) (errorAt (o + s.gap) cause r₁)
      (errorAt o cause r₂) := by
  unfold errorAt
  by_cases ho : o ≤ r₂.cursor.file.size
  · have ho₁ : o + s.gap ≤ r₁.cursor.file.size := by
      rw [h.size_eq hs]
      exact Nat.add_le_add_right ho _
    rw [bind_run_ok (place_run ho₁), bind_run_ok (place_run ho), h.place_eq o]
    refine .ok (a := ()) trivial { h.record ⟨r₂.cursor.file.place o, cause⟩ with
      token_eq := ?_
      hasText := ?_ }
    · rw [Reader.record_token, Reader.record_token]
      exact h.token_eq
    · rw [Reader.record_token]
      exact h.hasText
  · rw [bind_run_error (place_run_fault ho)]
    exact .lost trivial

theorem lawful (hs : s.IsLevel) (hagain : s.MeetsAgain source) : (s.simulation source).Lawful where
  token_eq h := h.token_eq
  isFull_eq h := h.isFull_eq
  options_eq {_ r₂} h := ⟨r₂.cursor.options.comments && !s.quiet, by
    rw [h.cursor_eq, cursor_options, options, hs.sugar_eq, Option.getD_none]⟩
  bound_le h := Nat.le_of_eq h.bound_eq.symm
  inSource h := h.inSource
  isCode hplain := hplain.elim
  agreed_apply options h _ := (h.apply hs options).next_agreed hagain _
  isWritten h := h.hasText
  isMarked _ _ := trivial
  passed_mono _ _ := trivial
  size_le h := Nat.le_of_eq (h.size_eq hs).symm
  line_iff {r₁ _ o o'} h _ _ := by
    change (r₁.cursor.file.place (o + s.gap)).line = (r₁.cursor.file.place (o' + s.gap)).line ↔ _
    rw [h.place_eq o, h.place_eq o']
    exact Nat.add_right_cancel_iff
  agreed_next h := h.next_agreed hagain _
  agreed_next_inside h _ := h.next_agreed hagain _
  agreed_errorAt o cause h := h.errorAt_agreed hs o cause
  endless _ _ := id
  keeps_of _ _ h := h.elim
  edge_spent h := h.elim
  edge_plain h := h.elim
  spent_eof h := h.elim
  spent_inSource h := h.elim
  lost_of_errors h := h.elim

end Setting

end TemplateScript
