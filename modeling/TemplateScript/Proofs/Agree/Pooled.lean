import TemplateScript.Proofs.Agree.Reader
import TemplateScript.Proofs.Cursor.PragmaLine

/-!
# Readers of a pragma line

All tokens of a pragma line wait for the reader once the first of them has been handed out. While it
takes them, it makes no difference what is behind the line. A reader of a source that holds nothing
else comes to the end of the file behind the last of them; it is then either done or has found
something wrong.
-/

namespace TemplateScript

open Parse

namespace Token

/-- A token of a pragma line before its last one, which begins before an offset. -/
structure Inner (stop : Nat) (t : Token) : Prop where
  kind_ne : t.kind ≠ .pragmaEnd ∧ t.kind ≠ .comment
  hasText : t.HasText
  pos_lt : t.pos < stop

/-- The last tokens of a pragma line. -/
inductive EndLine (stop : Nat) : List Token → Prop
  | last {t : Token} (h : t.kind = .pragmaEnd) : EndLine stop [t]
  | cons {t : Token} {rest : List Token} (ht : t.Inner stop) (hrest : EndLine stop rest) :
    EndLine stop (t :: rest)

theorem EndLine.append {stop : Nat} {init : List Token} {closing : Token}
    (hinit : ∀ t ∈ init, t.Inner stop) (hclosing : closing.kind = .pragmaEnd) :
    EndLine stop (init ++ [closing]) := by
  induction init with
  | nil => exact .last hclosing
  | cons t rest ih =>
    obtain ⟨ht, hrest⟩ := List.forall_mem_cons.1 hinit
    exact .cons ht (ih hrest)

theorem EndLine.cases {stop : Nat} {t : Token} {rest : List Token}
    (h : EndLine stop (t :: rest)) :
    t.kind = .pragmaEnd ∧ rest = [] ∨
      t.Inner stop ∧ ∃ t' rest', rest = t' :: rest' ∧ EndLine stop (t' :: rest') := by
  cases h with
  | last h => exact .inl ⟨h, rfl⟩
  | cons ht hrest =>
    cases hrest with
    | last h => exact .inr ⟨ht, _, _, rfl, .last h⟩
    | cons h hrest => exact .inr ⟨ht, _, _, rfl, .cons h hrest⟩

theorem EndLine.kind_ne {stop : Nat} {t : Token} {rest : List Token}
    (h : EndLine stop (t :: rest)) : t.kind ≠ .comment := by
  rcases h.cases with ⟨h, -⟩ | ⟨h, -⟩
  · rw [h]
    decide
  · exact h.kind_ne.2

theorem EndLine.hasText {stop : Nat} {t : Token} {rest : List Token}
    (h : EndLine stop (t :: rest)) : t.HasText := by
  rcases h.cases with ⟨h, -⟩ | ⟨h, -⟩
  · exact Token.hasText_of_kind (.inl (h ▸ rfl))
  · exact h.hasText

end Token

/-! ### At the end of the file -/

namespace Reader

variable {r later : Reader}

/-- Nothing is left but the end of the file, and it is in hand. -/
def IsOver (r : Reader) : Prop := r.token.kind = .eof ∧ r.cursor.AtEnd

theorem moveTo_of_newErrors {cursor : Cursor} (h : cursor.newErrors = []) :
    r.moveTo cursor = { r with cursor := cursor.takeErrors } := by
  unfold moveTo
  rw [h]
  rfl

/-- What a reader has no diagnostic of was not found wrong. -/
theorem newErrors_eq_nil {cursor : Cursor}
    (h : (r.moveTo cursor).errors = []) : cursor.newErrors = [] := by
  have hgrow (errors : List ScanError) (r : Reader) :
      r.errors <+: (errors.foldl (fun r e => r.record (.ofScanError e)) r).errors := by
    induction errors generalizing r with
    | nil => exact List.prefix_rfl
    | cons e rest ih => exact (record_errors_grow r _).trans (ih _)
  unfold moveTo at h
  cases hnew : cursor.newErrors with
  | nil => rfl
  | cons e rest =>
    rw [hnew, List.foldl_cons] at h
    exact absurd h (List.IsPrefix.ne_nil (hgrow rest _) (record_errors_ne _ _))

theorem atEnd_scan (h : r.cursor.AtEnd) :
    r.cursor.scan.2.kind = .eof ∧ r.cursor.scan.1.takeErrors.AtEnd ∧
      r.cursor.scan.1.errors = r.cursor.errors := by
  have hended : r.cursor.Ended r.cursor.endOfFile r.cursor.errors := { h with
    token_eq := rfl
    errors_eq := rfl }
  obtain ⟨htoken, hscan⟩ := hended.scan
  exact ⟨htoken ▸ rfl, (hscan.settle .takeErrors).toAtEnd, hscan.errors_eq⟩

theorem atEnd_apply (h : r.cursor.AtEnd) (options : PragmaOptions) :
    (r.cursor.apply options).AtEnd := by
  have hended : r.cursor.Ended r.cursor.endOfFile r.cursor.errors := { h with
    token_eq := rfl
    errors_eq := rfl }
  obtain ⟨calls, hcalls⟩ := r.cursor.apply_eq_performAll options
  have hlast := (hended.performAll calls).2
  rw [hcalls] at hlast
  exact hlast.toAtEnd

/-- Behind the end of the file, nothing changes that. -/
theorem Steps.isOver (h : r.Steps later) (hr : r.IsOver) : later.IsOver := by
  induction h with
  | refl => exact hr
  | record _ d ih =>
    rw [IsOver, record_token, record_cursor]
    exact ih
  | move _ ih =>
    rw [IsOver, moveTo_token, moveTo_cursor]
    exact ⟨ih.1, (atEnd_scan ih.2).2.1⟩
  | take _ ih =>
    rw [IsOver, moveTo_cursor]
    exact ⟨(atEnd_scan ih.2).1, (atEnd_scan ih.2).2.1⟩
  | keepComment _ comment first last ih => exact ih
  | apply _ options ih => exact ⟨ih.1, atEnd_apply ih.2 options⟩

/-- The token that comes is taken, if it is no comment. -/
theorem next_of_scan {cursor : Cursor} {t : Token} (hscan : r.cursor.scan = (cursor, t))
    (hkind : t.kind ≠ .comment) :
    next r = .ok () { r.moveTo cursor with token := t, commentEnd := none } := by
  obtain ⟨limit, hlimit⟩ : ∃ limit, r.bound = limit + 1 :=
    Nat.exists_eq_add_one.2 (Nat.succ_pos _)
  rw [next_run, hlimit, nextWithin_succ, hscan, if_neg hkind]
  rfl

/-- At the end of the file there is nothing more to be found. -/
theorem next_atEnd (h : r.cursor.AtEnd) :
    ∃ later, next r = .ok () later ∧ later.IsOver ∧
      (r.cursor.errors = [] → later.errors = r.errors) := by
  obtain ⟨hkind, hcursor, herrors⟩ := atEnd_scan h
  generalize hscan : r.cursor.scan = read at hkind hcursor herrors
  have hne : read.2.kind ≠ .comment := ne_of_eq_of_ne hkind (by decide)
  refine ⟨_, next_of_scan hscan hne, ⟨hkind, moveTo_cursor r _ ▸ hcursor⟩, fun hnil => ?_⟩
  have hnew : read.1.newErrors = [] := by
    unfold Cursor.newErrors
    rw [herrors, hnil, List.drop_nil]
  rw [moveTo_of_newErrors hnew]

theorem takeErrors_of_errors {c : Cursor} (herrors : c.errors = []) (htaken : c.taken = 0) :
    c.takeErrors = c := by
  have hlength : c.errors.length = c.taken := by rw [herrors, List.length_nil, htaken]
  rw [Cursor.takeErrors, hlength]

/-- The same, where nothing was found wrong with the token. -/
theorem next_of_faultless {cursor : Cursor} {t : Token} (hscan : r.cursor.scan = (cursor, t))
    (hkind : t.kind ≠ .comment) (herrors : cursor.errors = []) (htaken : cursor.taken = 0) :
    next r = .ok () { r with cursor, token := t, commentEnd := none } := by
  have hnew : cursor.newErrors = [] := by
    unfold Cursor.newErrors
    rw [herrors, List.drop_nil]
  rw [next_of_scan hscan hkind, moveTo_of_newErrors hnew, takeErrors_of_errors herrors htaken]

/-- A token that waits is the next one. -/
theorem next_pool {t : Token} {pool : List Token} (hpool : r.cursor.pool = t :: pool)
    (hkind : t.kind ≠ .comment) (herrors : r.cursor.errors = []) (htaken : r.cursor.taken = 0)
    (hcomment : r.commentEnd = none) :
    next r = .ok () { r with token := t, cursor := { r.cursor with pool } } := by
  have hscan : r.cursor.scan = ({ r.cursor with pool }, t) := by
    unfold Cursor.scan
    rw [hpool]
  rw [next_of_faultless hscan hkind herrors htaken, ← hcomment]

/-! ### While tokens wait -/

/-- The reader with more behind what it has read. -/
def resume (r : Reader) (rest : List Glyph) (file : SourceFile) : Reader :=
  { r with cursor := { r.cursor with rest, file } }

/-- A reader that has read all of its source without finding anything wrong. -/
structure IsSpent (r : Reader) : Prop where
  rest_eq : r.cursor.rest = []
  pending_eq : r.cursor.inText = false → r.cursor.pending = false
  found_eq : r.cursor.errors = []
  taken_eq : r.cursor.taken = 0
  errors_eq : r.errors = []
  commentEnd_eq : r.commentEnd = none

/-- There is more to read with more behind it. -/
theorem IsSpent.bound_le (h : r.IsSpent) (rest : List Glyph) (file : SourceFile) :
    r.bound ≤ (r.resume rest file).bound := by
  have hrest := h.rest_eq
  unfold bound Cursor.bound resume
  rw [hrest, List.length_nil]
  dsimp only
  omega

/-- The reader is like another one but for the token in hand and those that wait, which are the last
ones of a pragma line. -/
structure Draws (r : Reader) (source : List Glyph) (base : Reader) : Prop where
  eq : r = { base with token := r.token, cursor := { base.cursor with pool := r.cursor.pool } }
  tokens : Token.EndLine base.cursor.offset (r.token :: r.cursor.pool)
  inSource : r.InSource source

namespace Draws

variable {source : List Glyph} {base : Reader}

theorem cursor_eq (h : r.Draws source base) :
    r.cursor = { base.cursor with pool := r.cursor.pool } := congrArg Reader.cursor h.eq

theorem isSpent (h : r.Draws source base) (hbase : base.IsSpent) : r.IsSpent := by
  rw [h.eq]
  exact { hbase with }

theorem offset_eq (h : r.Draws source base) : r.cursor.offset = base.cursor.offset := by
  rw [h.cursor_eq]

theorem file_eq (h : r.Draws source base) : r.cursor.file = base.cursor.file := by
  rw [h.cursor_eq]

/-- The line has no more tokens, or the next one is taken, whatever is behind the line. -/
theorem next_cases (h : r.Draws source base) (hbase : base.IsSpent) :
    r.token.kind = .pragmaEnd ∧ r.cursor.AtEnd ∨
      ∃ t pool, r.token.Inner base.cursor.offset ∧
        ({ r with token := t, cursor := { r.cursor with pool } } : Reader).Draws source base ∧
        next r = .ok () { r with token := t, cursor := { r.cursor with pool } } ∧
        ∀ rest file, next (r.resume rest file) =
          .ok () (({ r with token := t, cursor := { r.cursor with pool } } : Reader).resume rest
            file) := by
  have hspent := h.isSpent hbase
  rcases h.tokens.cases with ⟨hkind, hpool⟩ | ⟨ht, t, pool, hpool, hrest⟩
  · exact .inl ⟨hkind, hspent.rest_eq, hpool, hspent.pending_eq⟩
  · have hnext := next_pool hpool hrest.kind_ne hspent.found_eq hspent.taken_eq
      hspent.commentEnd_eq
    refine .inr ⟨t, pool, ht, ⟨?_, hrest, ?_⟩, hnext, fun rest file => ?_⟩
    · rw [h.eq]
    · have hleads := next_accounts.run h.inSource
      rw [hnext] at hleads
      exact hleads.1.inSource
    · exact next_pool (r := r.resume rest file) hpool hrest.kind_ne hspent.found_eq
        hspent.taken_eq hspent.commentEnd_eq

end Draws

/-! ### The simulation -/

/-- The reader of a longer source takes the tokens that wait for the reader of the shorter one. -/
structure Resumes (source : List Glyph) (base : Reader) (rest : List Glyph) (file : SourceFile)
    (r₁ r₂ : Reader) : Prop extends Draws r₂ source base where
  resume_eq : r₁ = r₂.resume rest file

/-- The reader has found something wrong, or it has come to the end of the file. -/
def HasStopped (source : List Glyph) (r : Reader) : Prop :=
  r.InSource source ∧ (r.errors ≠ [] ∨ r.IsOver)

theorem HasStopped.leads {source : List Glyph} (h : r.HasStopped source)
    (k : r.Leads source later) : later.HasStopped source :=
  ⟨k.inSource, h.2.imp k.errors k.steps.isOver⟩

/-- The readers of a pragma line with more behind it and with nothing behind it. -/
def pooled (source : List Glyph) (base : Reader) (rest : List Glyph) (file : SourceFile) :
    Simulation where
  gap := 0
  source := source
  plain := False
  rel := Resumes source base rest file
  edge _ _ := False
  spent _ := False
  lost := HasStopped source
  passed r o := o < r.cursor.offset

variable {source : List Glyph} {base : Reader} {rest : List Glyph} {file : SourceFile}
  {r₁ r₂ : Reader}

theorem Resumes.next_agreed (h : Resumes source base rest file r₁ r₂) (hbase : base.IsSpent)
    (E : Ending) :
    (pooled source base rest file).Agreed E id (fun _ => True) (next r₁) (next r₂) := by
  rcases h.next_cases hbase with ⟨-, hend⟩ | ⟨t, pool, -, hdraws, hnext₂, hnext₁⟩
  · obtain ⟨later, hnext, hover, -⟩ := next_atEnd hend
    have hleads := next_accounts.run h.inSource
    rw [hnext] at hleads ⊢
    exact .lost ⟨hleads.1.inSource, .inr hover⟩
  · rw [h.resume_eq, hnext₁, hnext₂]
    exact .ok (a := ()) trivial ⟨hdraws, rfl⟩

/-- Reading on behind the line is of no more interest. -/
theorem Resumes.apply_agreed (h : Resumes source base rest file r₁ r₂) (hbase : base.IsSpent)
    (options : PragmaOptions) (hkind : r₂.token.kind = .pragmaEnd) :
    (pooled source base rest file).Agreed .inside id (fun _ => True)
      (next { r₁ with cursor := r₁.cursor.apply options })
      (next { r₂ with cursor := r₂.cursor.apply options }) := by
  rcases h.next_cases hbase with ⟨-, hend⟩ | ⟨t, pool, hinner, -⟩
  · have hsource := (Steps.refl.apply options).inSource h.inSource
    obtain ⟨later, hnext, hover, -⟩ :=
      next_atEnd (r := { r₂ with cursor := r₂.cursor.apply options }) (atEnd_apply hend options)
    have hleads := next_accounts.run hsource
    rw [hnext] at hleads ⊢
    exact .lost ⟨hleads.1.inSource, .inr hover⟩
  · exact absurd hkind hinner.kind_ne.1

theorem pooled_keeps {α : Type} {given : Prop} {p : Parse α} {promise : α → Prop}
    (h : Accounts source given p promise) : (pooled source base rest file).Keeps p := by
  intro r hr
  have hrun := h r hr.1
  cases hpr : p r with
  | ok a later =>
    rw [hpr] at hrun
    exact hr.leads hrun.1
  | error e later =>
    rw [hpr] at hrun
    cases e with
    | bail => exact hr.leads hrun.1
    | fault f => trivial

theorem pooled_lawful (hbase : base.IsSpent) (hsize : base.cursor.file.size ≤ file.size)
    (hline : ∀ o < base.cursor.offset, (file.place o).line = (base.cursor.file.place o).line) :
    (pooled source base rest file).Lawful where
  token_eq h := by rw [h.resume_eq]; rfl
  isFull_eq h := by rw [h.resume_eq]; rfl
  options_eq {_ r₂} h := ⟨r₂.cursor.options.comments, by rw [h.resume_eq]; rfl⟩
  bound_le {_ r₂} h := by
    rw [h.resume_eq]
    exact (h.isSpent hbase).bound_le rest file
  inSource h := h.inSource
  isCode hplain := hplain.elim
  agreed_apply options h hkind := h.apply_agreed hbase options hkind
  isWritten h := h.tokens.hasText
  isMarked {_ r₂} h hkind := by
    change r₂.token.pos < r₂.cursor.offset
    rcases h.tokens.cases with ⟨hlast, -⟩ | ⟨hinner, -⟩
    · rw [hlast] at hkind
      exact absurd hkind (by decide)
    · rw [h.offset_eq]
      exact hinner.pos_lt
  passed_mono hpassed hle := Nat.lt_of_lt_of_le hpassed hle
  size_le h := by
    rw [h.file_eq, h.resume_eq]
    exact hsize
  line_iff {r₁ r₂ o o'} h ho ho' := by
    have hoffset := h.offset_eq
    have hfile : r₁.cursor.file = file := by rw [h.resume_eq]; rfl
    have ho : o < base.cursor.offset := hoffset ▸ ho
    have ho' : o' < base.cursor.offset := hoffset ▸ ho'
    change (r₁.cursor.file.place o).line = (r₁.cursor.file.place o').line ↔ _
    rw [hfile, h.file_eq, hline o ho, hline o' ho']
  agreed_next h := h.next_agreed hbase _
  agreed_next_inside h _ := h.next_agreed hbase _
  agreed_errorAt {r₁ r₂} o cause h := by
    have hrun : Accounted source r₂ (fun _ => False) (errorAt o cause r₂) :=
      (errorAt_accounts o cause).run h.inSource
    refine .lost ?_
    cases hr : errorAt o cause r₂ with
    | ok a later =>
      rw [hr] at hrun
      exact ⟨hrun.1.inSource, .inl hrun.2⟩
    | error e later =>
      rw [hr] at hrun
      cases e with
      | bail => exact ⟨hrun.1.inSource, .inl hrun.2⟩
      | fault f => trivial
  endless _ _ := id
  keeps_of h := pooled_keeps h
  edge_spent h := h.elim
  edge_plain h := h.elim
  spent_eof h := h.elim
  spent_inSource h := h.elim
  lost_of_errors h := h.elim

end Reader

end TemplateScript
