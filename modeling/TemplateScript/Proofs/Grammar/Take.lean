import TemplateScript.Proofs.Cursor.Sound
import TemplateScript.Proofs.Grammar.Account

/-!
# Tokens that a reader takes

A reader takes tokens from its cursor and keeps the last of them in hand. The tokens that are left
to it, with the one in hand, become fewer with every token taken, so the reading of the next token
comes to an end; and a reader of a source learns only of places in the source.
-/

namespace TemplateScript

namespace Reader

variable {source : List Glyph} {a b c r later : Reader} {tokens more : List Token}

/-- From one reader to a later one, tokens were taken, and the last of them is in hand. -/
def Takes (r : Reader) (tokens : List Token) (later : Reader) : Prop :=
  (∃ calls, Cursor.performAll calls r.cursor = (later.cursor, tokens)) ∧
    later.token = tokens.getLast?.getD r.token

theorem takes_nil (hcursor : later.cursor = r.cursor) (htoken : later.token = r.token) :
    r.Takes [] later :=
  ⟨⟨[], by rw [hcursor]; rfl⟩, htoken⟩

theorem Takes.trans (h : a.Takes tokens b) (k : b.Takes more c) : a.Takes (tokens ++ more) c := by
  obtain ⟨⟨calls, hcalls⟩, htoken⟩ := h
  obtain ⟨⟨later, hlater⟩, hlast⟩ := k
  refine ⟨⟨calls ++ later, ?_⟩, ?_⟩
  · rw [Cursor.performAll_append, hcalls, hlater]
  · rw [hlast, htoken, List.getLast?_append]
    cases more.getLast? <;> rfl

/-- A bound on the tokens to come, with the one in hand. -/
def weight (r : Reader) : Nat := r.cursor.weight + (decide (r.token.kind ≠ .eof)).toNat

theorem weight_lt_bound (r : Reader) : r.weight < r.bound := by
  have hcursor := r.cursor.weight_lt_bound
  have htoken := Bool.toNat_le (decide (r.token.kind ≠ .eof))
  unfold weight bound
  omega

theorem cursor_weight_lt_bound (r : Reader) : r.cursor.weight < r.bound :=
  Nat.lt_of_le_of_lt (Nat.le_add_right ..) r.weight_lt_bound

theorem Takes.weight_le_cursor (h : r.Takes tokens later) (htokens : tokens ≠ []) :
    later.weight ≤ r.cursor.weight := by
  obtain ⟨⟨calls, hcalls⟩, htoken⟩ := h
  have hweight := Cursor.performAll_weight calls r.cursor
  rw [hcalls, List.getLast?_eq_some_getLast htokens] at hweight
  rw [List.getLast?_eq_some_getLast htokens] at htoken
  rw [weight, htoken]
  exact hweight

theorem Takes.weight_le (h : r.Takes tokens later) : later.weight ≤ r.weight := by
  by_cases htokens : tokens = []
  · obtain ⟨⟨calls, hcalls⟩, htoken⟩ := h
    have hweight := Cursor.performAll_weight calls r.cursor
    rw [hcalls] at hweight
    rw [htokens] at htoken
    rw [weight, htoken]
    exact Nat.add_le_add_right (Nat.le_trans (Nat.le_add_right ..) hweight) _
  · exact Nat.le_trans (h.weight_le_cursor htokens) (Nat.le_add_right ..)

theorem Takes.weight_lt (h : r.Takes tokens later) (htokens : tokens ≠ [])
    (hkind : r.token.kind ≠ .eof) : later.weight < r.weight := by
  refine Nat.lt_of_le_of_lt (h.weight_le_cursor htokens) ?_
  rw [weight, decide_eq_true hkind, Bool.toNat_true]
  exact Nat.lt_succ_self _

/-- Behind the end of the file, nothing is left. -/
theorem Takes.rest_eq (h : r.Takes tokens later) (hpool : r.cursor.PoolInner)
    (htokens : tokens ≠ []) (hkind : later.token.kind = .eof) : later.cursor.rest = [] := by
  obtain ⟨⟨calls, hcalls⟩, htoken⟩ := h
  rw [List.getLast?_eq_some_getLast htokens, Option.getD_some] at htoken
  have hlast : tokens.getLast htokens ∈ (Cursor.performAll calls r.cursor).2 := by
    rw [hcalls]
    exact List.getLast_mem htokens
  have hended := Cursor.performAll_ended hpool hlast (htoken ▸ hkind)
  rw [hcalls] at hended
  exact hended.rest_eq

/-! ### Readers in a source -/

/-- Whatever the reader has to look up is in the source. -/
structure Ready (source : List Glyph) (r : Reader) : Prop where
  cursor : r.cursor.Sound source
  token_le : r.token.pos ≤ Glyph.widths source
  errors_le : ∀ d ∈ r.errors, d.place.offset ≤ Glyph.widths source

theorem Ready.size_eq (h : r.Ready source) : r.cursor.file.size = Glyph.widths source :=
  h.cursor.inSource.size_eq

theorem Ready.record (h : r.Ready source) {d : Diagnostic}
    (hd : d.place.offset ≤ Glyph.widths source) : (r.record d).Ready source := by
  refine ⟨record_cursor r d ▸ h.cursor, record_token r d ▸ h.token_le, fun e he => ?_⟩
  unfold Reader.record at he
  split at he
  · exact h.errors_le e he
  · rcases List.mem_append.1 he with he | he
    · exact h.errors_le e he
    · rw [List.mem_singleton.1 he]
      exact hd

theorem Ready.records (h : r.Ready source) {errors : List ScanError}
    (herrors : ∀ e ∈ errors, e.place.offset ≤ Glyph.widths source) :
    (errors.foldl (fun r e => r.record (.ofScanError e)) r).Ready source := by
  induction errors generalizing r with
  | nil => exact h
  | cons e rest ih =>
    exact ih (h.record (herrors e List.mem_cons_self)) fun e he =>
      herrors e (List.mem_cons_of_mem _ he)

theorem Ready.moveTo (h : r.Ready source) {cursor : Cursor} (hcursor : cursor.Sound source) :
    (r.moveTo cursor).Ready source := by
  have hmoved : ({ r with cursor := cursor.takeErrors } : Reader).Ready source :=
    ⟨hcursor.settle .takeErrors, h.token_le, h.errors_le⟩
  exact hmoved.records fun e he => hcursor.errors_le e (List.mem_of_mem_drop he)

/-- The token that the cursor hands out is in hand. -/
theorem takes_scan (hcursor : later.cursor = r.cursor.scan.1.takeErrors)
    (htoken : later.token = r.cursor.scan.2) : r.Takes [r.cursor.scan.2] later :=
  ⟨⟨[.scan, .takeErrors], by rw [hcursor]; rfl⟩, htoken⟩

/-- A token that is passed over was taken too. -/
theorem Takes.scan (h : b.Takes tokens later) (htokens : tokens ≠ [])
    (hcursor : b.cursor = r.cursor.scan.1.takeErrors) :
    r.Takes (r.cursor.scan.2 :: tokens) later := by
  obtain ⟨⟨calls, hcalls⟩, htoken⟩ := h
  refine ⟨⟨.scan :: .takeErrors :: calls, ?_⟩, ?_⟩
  · rw [hcursor] at hcalls
    change ((Cursor.performAll calls r.cursor.scan.1.takeErrors).1,
      _ :: (Cursor.performAll calls r.cursor.scan.1.takeErrors).2) = _
    rw [hcalls]
  · rw [List.getLast?_eq_some_getLast htokens] at htoken
    rw [List.getLast?_cons, List.getLast?_eq_some_getLast htokens]
    exact htoken

end Reader

namespace Parse

/-- The next token is taken. Only a reader that is not ready, or a limit that is too small, can make
that fail. -/
theorem nextWithin_run (source : List Glyph) (ready : Prop) (limit : Nat) (r : Reader)
    (hready : ready → r.Ready source ∧ r.cursor.weight < limit) :
    (∃ later tokens, nextWithin limit r = .ok () later ∧ tokens ≠ [] ∧ r.Takes tokens later ∧
      (ready → later.Ready source)) ∨
    (¬ ready ∧ ∃ f later, nextWithin limit r = .error (.fault f) later) := by
  induction limit generalizing r with
  | zero => exact .inr ⟨fun h => Nat.not_lt_zero _ (hready h).2, _, _, rfl⟩
  | succ limit ih =>
    let t := r.cursor.scan.2
    let moved := r.moveTo r.cursor.scan.1
    have hcursor : moved.cursor = r.cursor.scan.1.takeErrors := Reader.moveTo_cursor _ _
    have hmoved (h : ready) : moved.Ready source := (hready h).1.moveTo (hready h).1.cursor.scan
    rw [nextWithin_succ]
    split
    · next hkind =>
      have hlook (offset : Nat) (hle : ready → offset ≤ Glyph.widths source) :
          offset ≤ moved.cursor.file.size ∨ ¬ ready ∧ ¬ offset ≤ moved.cursor.file.size := by
        by_cases hsize : offset ≤ moved.cursor.file.size
        · exact .inl hsize
        · exact .inr ⟨fun h => hsize ((hmoved h).size_eq ▸ hle h), hsize⟩
      rcases hlook t.pos fun h => (hready h).1.cursor.token_le with hpos | ⟨hnot, hpos⟩
      · rw [bind_run_ok (line_run hpos)]
        have hend (h : ready) : t.pos + t.literal.utf8ByteSize ≤ Glyph.widths source :=
          Nat.le_trans ((hready h).1.cursor.comment_le hkind)
            (hready h).1.cursor.scan.inSource.offset_le
        rcases hlook _ hend with hstop | ⟨hnot, hstop⟩
        · rw [bind_run_ok (line_run hstop)]
          have hmore (h : ready) : moved.cursor.weight < limit := by
            have hlighter := Cursor.scan_weight_lt r.cursor (ne_of_eq_of_ne hkind (by decide))
            have hsettle := Cursor.settle_weight_le r.cursor.scan.1 .takeErrors
            have hlimit := (hready h).2
            rw [hcursor]
            exact Nat.lt_of_lt_of_le (Nat.lt_of_le_of_lt hsettle hlighter)
              (Nat.le_of_lt_succ hlimit)
          have hkept (first last : Nat) := ih (moved.keepComment ⟨t.pos, t.literal⟩ first last)
            fun h => ⟨⟨(hmoved h).cursor, (hmoved h).token_le, (hmoved h).errors_le⟩, hmore h⟩
          rcases hkept _ _ with
            ⟨later, tokens, hrun, htokens, htakes, hlater⟩ | ⟨hnot, f, later, hrun⟩
          · exact .inl ⟨later, _, hrun, List.cons_ne_nil _ _, htakes.scan htokens hcursor, hlater⟩
          · exact .inr ⟨hnot, f, later, hrun⟩
        · exact .inr ⟨hnot, _, _, bind_run_error (line_run_fault hstop) _⟩
      · exact .inr ⟨hnot, _, _, bind_run_error (line_run_fault hpos) _⟩
    · refine .inl ⟨_, [t], rfl, List.cons_ne_nil _ _, Reader.takes_scan hcursor rfl, fun h => ?_⟩
      exact ⟨(hmoved h).cursor, (hready h).1.cursor.token_le, (hmoved h).errors_le⟩

end Parse

end TemplateScript
