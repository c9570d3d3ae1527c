import TemplateScript.Proofs.Agree.Pooled
import TemplateScript.Proofs.Grammar.File

/-!
# A pragma line with more behind it

A pragma line that a source consists of and that nothing is wrong with is read in the same way when
it has more behind it. What it sets is what its entries set, one after the other, and it is set
before anything behind the line is read.
-/

namespace TemplateScript

open Parse

namespace Grammar

variable {source : List Glyph} {given : Prop} {deep : Nested} {r later : Reader} {s : Stmt}

/-! ### Entries -/

/-- The options that the entries of a pragma line set, unless a value does not suit its key. -/
def setOptions? (entries : List (KeyValue Expr)) : Option PragmaOptions :=
  entries.foldlM (fun options entry =>
    match entry.key with
    | .ident key => setOption? options key.name entry.value
    | _ => none) {}

theorem setOptions?_append (entries : List (KeyValue Expr)) (key : Ident) (value : Option Expr) :
    setOptions? (entries ++ [⟨.ident key, value⟩]) =
      (setOptions? entries).bind fun options => setOption? options key.name value := by
  simp [setOptions?, List.foldlM_append]

theorem setOptions?_shift (n : Nat) (entries : List (KeyValue Expr)) :
    setOptions? (shiftKeyValues n entries) = setOptions? entries := by
  unfold setOptions?
  rw [shiftKeyValues_eq_map, List.foldlM_map]
  congr
  funext options entry
  obtain ⟨key, value⟩ := entry
  cases key with
  | ident key => exact setOption?_shift n options key.name value
  | _ => rfl

theorem pragmaEntry_sets (hdeep : deep.Accounts source) (read : PragmaLine) :
    Accounts source (setOptions? read.entries = some read.options ∧ given) (pragmaEntry deep read)
      fun read => setOptions? read.entries = some read.options := by
  unfold pragmaEntry
  refine (inPragma_accounts pragmaKey_accounts).bind fun key => (accept_accounts _).bind
    fun accepted => ?_
  refine .ite_bind (fun _ => True)
    ((inPragma_accounts (unary_accounts hdeep)).map fun _ _ _ => trivial)
    (.pure fun _ => trivial) fun value => ?_
  dsimp only
  split
  · next options hset =>
    refine .pure ?_
    rintro ⟨-, -, -, hread, -⟩
    dsimp only
    rw [setOptions?_append, hread]
    exact hset
  · exact (errorAt_accounts _ _).bind fun _ => .pure fun h => h.1.elim

/-- Every entry of a pragma line counts if nothing is wrong with it. -/
theorem pragmaEntries_sets (hdeep : deep.Accounts source) :
    Accounts source given (pragmaEntries deep) fun read =>
      setOptions? read.entries = some read.options := by
  unfold pragmaEntries
  refine .loop (fun read => setOptions? read.entries = some read.options) (fun _ => rfl)
    fun read => ?_
  refine atPragmaEnd_accounts.bind fun atEnd => ?_
  split
  · exact .pure fun h => h.2.1
  · refine ((pragmaEntry_sets hdeep read).weaken fun h => h.2).bind fun read =>
      (accept_accounts _).bind fun accepted => ?_
    split
    · exact .pure fun h => h.2.1
    · exact .pure fun h => h.2.1

/-! ### The line -/

theorem inPragma_failExpected_ne_ok (wanted : String) (s : Stmt) (r later : Reader) :
    inPragma (failExpected wanted) r ≠ .ok s later := by
  intro h
  obtain ⟨read, mid, hattempt, h⟩ := bind_run_eq_ok.1 h
  cases read with
  | some a =>
    unfold attempt at hattempt
    split at hattempt
    · next hfail =>
      obtain ⟨_, _, -, hfail⟩ := bind_run_eq_ok.1 hfail
      obtain ⟨_, _, -, hfail⟩ := bind_run_eq_ok.1 hfail
      cases hfail
    · cases hattempt
    · cases hattempt
  | none =>
    obtain ⟨_, _, -, h⟩ := bind_run_eq_ok.1 h
    obtain ⟨_, _, -, h⟩ := bind_run_eq_ok.1 h
    cases h

/-- A pragma line has an end, and behind it the options are set before anything is read. -/
theorem pragma_eq_ok (h : Grammar.pragma deep r = .ok s later) :
    ∃ read mid, (next >>= fun _ => pragmaEntries deep) r = .ok read mid ∧
      mid.token.kind = .pragmaEnd ∧
      next { mid with cursor := mid.cursor.apply read.options } = .ok () later ∧
      s = .pragma r.token.pos read.entries read.options mid.token.pos := by
  unfold Grammar.pragma at h
  rw [pos_bind] at h
  obtain ⟨_, first, hnext, h⟩ := bind_run_eq_ok.1 h
  obtain ⟨read, mid, hentries, h⟩ := bind_run_eq_ok.1 h
  rw [pos_bind, kind_bind] at h
  split at h
  · next hkind =>
    obtain ⟨_, _, happly, h⟩ := bind_run_eq_ok.1 h
    cases happly
    obtain ⟨_, last, hlast, h⟩ := bind_run_eq_ok.1 h
    cases h
    exact ⟨read, mid, bind_run_eq_ok.2 ⟨(), first, hnext, hentries⟩, hkind, hlast, rfl⟩
  · exact (inPragma_failExpected_ne_ok _ _ _ _ h).elim

/-- The line up to its end, and what is behind it. -/
theorem pragma_run {read : PragmaLine} {mid : Reader}
    (h : (next >>= fun _ => pragmaEntries deep) r = .ok read mid)
    (hkind : mid.token.kind = .pragmaEnd) :
    Grammar.pragma deep r = (do
      next
      return Stmt.pragma r.token.pos read.entries read.options mid.token.pos)
        { mid with cursor := mid.cursor.apply read.options } := by
  obtain ⟨_, first, hnext, hentries⟩ := bind_run_eq_ok.1 h
  unfold Grammar.pragma
  rw [pos_bind, bind_run_ok hnext, bind_run_ok hentries, pos_bind, kind_bind, if_pos hkind]
  rfl

end Grammar

namespace Reader

variable {source rest : List Glyph} {base r later : Reader} {file : SourceFile} {s : Stmt}

/-- Behind a pragma line that nothing is wrong with, a reader with nothing more to read is done. One
with more behind the line sets the same options then, before it reads on. -/
theorem Draws.pragma (h : r.Draws source base) (hbase : base.IsSpent)
    (hS : (pooled source base rest file).Lawful) {depth₁ depth₂ : Nat} (hdepth : depth₂ ≤ depth₁)
    (hrun : Grammar.pragma (Nested.ofDepth depth₂) r = .ok s later) (herrors : later.errors = []) :
    later.IsOver ∧ ∃ entries options, ∃ t : Token,
      s = .pragma r.token.pos entries options t.pos ∧
      Grammar.setOptions? entries = some options ∧
      Grammar.pragma (Nested.ofDepth depth₁) (r.resume rest file) = (do
        next
        return s.shift 0)
          { base with
            token := t
            cursor := { base.cursor with rest, file, pool := [] }.apply options } := by
  obtain ⟨read, mid, hentries, hkind, hnext, rfl⟩ := Grammar.pragma_eq_ok hrun
  have hnextBuilt : Built [] next fun _ => [] := .next
  have hmid : mid.errors = [] :=
    Grammar.errors_of_built (r := { mid with cursor := mid.cursor.apply read.options }) hnextBuilt
      hnext herrors
  have hdeep := Nested.agrees_ofDepth hS hdepth
  have hsets : Accounts source True
      (next >>= fun _ => Grammar.pragmaEntries (Nested.ofDepth depth₂))
      fun read => Grammar.setOptions? read.entries = some read.options :=
    next_accounts.seq fun _ => Grammar.pragmaEntries_sets (Nested.accounts_ofDepth depth₂)
  have hset := hsets.run h.inSource
  have hagrees : (pooled source base rest file).Agrees (fun _ => True) .inside
      (next >>= fun _ => Grammar.pragmaEntries (Nested.ofDepth depth₁))
      (next >>= fun _ => Grammar.pragmaEntries (Nested.ofDepth depth₂)) (Grammar.PragmaLine.shift 0)
      fun _ => True :=
    (Simulation.next_agrees hS fun _ _ => .inr fun _ => id).bind fun _ =>
      Grammar.pragmaEntries_agrees hS hdeep
  have hrel : Resumes source base rest file (r.resume rest file) r := { h with resume_eq := rfl }
  have hagreed := hagrees.agreed hrel trivial
  rw [hentries] at hset hagreed
  generalize hwhole : (next >>= fun _ => Grammar.pragmaEntries (Nested.ofDepth depth₁))
    (r.resume rest file) = whole at hagreed
  cases hagreed with
  | ok _ hmidrel =>
    have hpool : mid.cursor.pool = [] := by
      rcases hmidrel.tokens.cases with ⟨-, hpool⟩ | ⟨hinner, -⟩
      · exact hpool
      · exact absurd hkind hinner.kind_ne.1
    have hend : mid.cursor.AtEnd := by
      have hspent := hmidrel.isSpent hbase
      exact ⟨hspent.rest_eq, hpool, hspent.pending_eq⟩
    have hover : later.IsOver := by
      obtain ⟨last, hlast, hover, -⟩ := next_atEnd (r := { mid with
        cursor := mid.cursor.apply read.options }) (atEnd_apply hend read.options)
      rw [hlast] at hnext
      cases hnext
      exact hover
    have hmid₁ : mid.resume rest file =
        { base with
          token := mid.token
          cursor := { base.cursor with rest, file, pool := [] } } := by
      rw [← hpool]
      conv_lhs => rw [hmidrel.eq]
      rfl
    refine ⟨hover, read.entries, read.options, mid.token, rfl, hset.2 hmid, ?_⟩
    rw [hmidrel.resume_eq, hmid₁] at hwhole
    rw [Grammar.pragma_run hwhole hkind, Stmt.shift]
    rfl
  | edge hE => cases hE
  | beyond hE => cases hE
  | lost hlost =>
    rcases hlost.2 with hwrong | hover
    · exact absurd hmid hwrong
    · rw [hover.1] at hkind
      cases hkind

end Reader

end TemplateScript
