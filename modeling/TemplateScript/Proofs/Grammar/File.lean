import TemplateScript.Proofs.Agree.Document
import TemplateScript.Proofs.Built.Document
import TemplateScript.Proofs.Finish.Source

/-!
# Files, statement by statement

A file is read in rounds of rounds: lists of statements, between braces that close nothing. Here a
file is entered in the middle of its first list, with the statements before that in hand. If nothing
is found wrong in the end, the next statement was read and comes behind those.
-/

namespace TemplateScript

open Parse

namespace Grammar

variable {deep : Nested} {known : List Nat} {list read : List Stmt} {s : Stmt}
  {r mid later : Reader} {source : List Glyph}

/-! ### The rounds of a file -/

/-- What follows a list of statements in a file: another one, behind a brace that closes nothing, or
the end. -/
def fileRest (list : List Stmt) : Parse (Round (List Stmt) (List Stmt)) := do
  let pos ← pos
  if (← isFull) || (← kind) ≠ .rbrace then return .done list
  else
    errorAt pos .unmatchedBrace
    next
    let _ ← accept .semicolon
    return .again list

/-- One list of statements of a file, and what follows it. -/
def fileRound (deep : Nested) (list : List Stmt) : Parse (Round (List Stmt) (List Stmt)) := do
  let more ← stmts deep false
  fileRest (list ++ more)

theorem file_eq (deep : Nested) : file deep = loop [] (fileRound deep) := rfl

/-- The file behind its first list of statements. -/
def fileBehind (deep : Nested) (fileLimit : Nat) (list : List Stmt) : Parse (List Stmt) := do
  match ← fileRest list with
  | .again list => rounds (fileRound deep) fileLimit list
  | .done list => return list

/-- The file from a statement of its first list on, with the statements before it, the last one
first. -/
def fileFrom (deep : Nested) (stmtsLimit fileLimit : Nat) (before : List Stmt) :
    Parse (List Stmt) := do
  let list ← rounds (stmtsRound deep false) stmtsLimit before
  fileBehind deep fileLimit list

theorem file_run (deep : Nested) (r : Reader) :
    file deep r = fileFrom deep r.bound (r.bound - 1) [] r := by
  have hstmts : stmts deep false r = rounds (stmtsRound deep false) r.bound [] r := rfl
  have hfile : file deep r = rounds (fileRound deep) (r.bound - 1 + 1) [] r := rfl
  rw [hfile, rounds, fileRound, bind_assoc, bind_run, hstmts, ← bind_run, fileFrom]
  refine congrFun (bind_congr fun list => ?_) r
  rw [List.nil_append]
  refine bind_congr fun result => ?_
  cases result with
  | again list => rfl
  | done list => rfl

/-! ### Steps -/

theorem fileRest_built (list : List Stmt) : Built known (fileRest list) fun _ => [] := by
  refine .bind pos_built fun pos => .bind .isFull fun full => .bind kind_built fun kind => ?_
  split
  · exact .pure (by simp)
  · exact .bind (.errorAt (by simp) _) fun _ => .bind .next fun _ =>
      .bind (accept_built _) fun _ => .pure (by simp)

theorem fileRound_built (hdeep : deep.Built) (list : List Stmt) :
    Built known (fileRound deep list) fun _ => [] :=
  .bind (stmts_built hdeep false) fun _ => fileRest_built _

/-- Rounds that need nothing to be known. -/
theorem rounds_built {σ α : Type} {round : σ → Parse (Round σ α)}
    (hround : ∀ {known} s, Built known (round s) fun _ => []) (limit : Nat) (s : σ) :
    Built known (rounds round limit s) fun _ => [] := by
  induction limit generalizing s with
  | zero => exact .fault _
  | succ limit ih =>
    refine (hround s).seq fun result => ?_
    cases result with
    | again s' => exact ih s'
    | done a => exact .pure (by simp)

theorem fileBehind_built (hdeep : deep.Built) (fileLimit : Nat) (list : List Stmt) :
    Built known (fileBehind deep fileLimit list) fun _ => [] := by
  refine .bind (fileRest_built list) fun result => ?_
  cases result with
  | again list =>
    exact rounds_built (fun list => fileRound_built hdeep list) fileLimit list
  | done list => exact .pure (by simp)

theorem fileFrom_built (hdeep : deep.Built) (stmtsLimit fileLimit : Nat) (before : List Stmt) :
    Built known (fileFrom deep stmtsLimit fileLimit before) fun _ => [] :=
  .seq (rounds_built (fun list => stmtsRound_built hdeep false list) stmtsLimit before)
    fun list => fileBehind_built hdeep fileLimit list

/-- What was found wrong before a phrase is known behind it. -/
theorem errors_of_built {α : Type} {p : Parse α} {marks : α → List Nat} {a : α}
    (hp : Built [] p marks) (hrun : p r = .ok a later) (herrors : later.errors = []) :
    r.errors = [] := by
  have hsteps := hp.steps r
  rw [hrun] at hsteps
  have hgrow : r.errors <+: later.errors := Reader.Steps.errors_grow hsteps
  rw [herrors] at hgrow
  exact List.prefix_nil.1 hgrow

/-! ### More rounds -/

/-- Rounds that come to an end do so within any larger number of them. -/
theorem rounds_mono {σ α : Type} {round : σ → Parse (Round σ α)} {limit more : Nat}
    (hle : limit ≤ more) {s : σ} {a : α} (h : rounds round limit s r = .ok a later) :
    rounds round more s r = .ok a later := by
  induction limit generalizing more s r with
  | zero => cases h
  | succ limit ih =>
    obtain ⟨more, rfl⟩ := Nat.exists_eq_add_one.2 (Nat.lt_of_lt_of_le limit.succ_pos hle)
    rw [rounds] at h ⊢
    obtain ⟨result, mid, hround, hrest⟩ := bind_run_eq_ok.1 h
    rw [bind_run_ok hround]
    cases result with
    | again s => exact ih (Nat.le_of_succ_le_succ hle) hrest
    | done a => exact hrest

theorem fileFrom_mono {stmtsLimit stmtsMore fileLimit fileMore : Nat}
    (hstmts : stmtsLimit ≤ stmtsMore) (hfile : fileLimit ≤ fileMore)
    (h : fileFrom deep stmtsLimit fileLimit list r = .ok read later) :
    fileFrom deep stmtsMore fileMore list r = .ok read later := by
  obtain ⟨list, mid, hlist, hrest⟩ := bind_run_eq_ok.1 h
  obtain ⟨result, last, hresult, hmore⟩ := bind_run_eq_ok.1 hrest
  unfold fileFrom
  rw [bind_run_ok (rounds_mono hstmts hlist)]
  unfold fileBehind
  rw [bind_run_ok hresult]
  cases result with
  | again list => exact rounds_mono hfile hmore
  | done list => exact hmore

/-! ### Statement by statement -/

/-- The reader is neither at the end of the file nor at the end of a block, and may read on. -/
structure AtStmt (r : Reader) : Prop where
  isFull_eq : r.isFull = false
  kind_ne : r.token.kind ≠ .rbrace ∧ r.token.kind ≠ .eof

/-- One more round, and the rest of the file. -/
theorem fileFrom_succ (deep : Nested) (stmtsLimit fileLimit : Nat) (list : List Stmt) :
    fileFrom deep (stmtsLimit + 1) fileLimit list =
      (do
        match ← stmtsRound deep false list with
        | .again list => fileFrom deep stmtsLimit fileLimit list
        | .done list => fileBehind deep fileLimit list) := by
  unfold fileFrom
  rw [rounds, bind_assoc]
  refine bind_congr fun result => ?_
  cases result with
  | again list => rfl
  | done list => rfl

/-- A round that is not the last one reads a statement, or skips it. -/
theorem stmtsRound_run (h : AtStmt r) (deep : Nested) (list : List Stmt) :
    stmtsRound deep false list r =
      (attempt (stmt deep) >>= fun
        | some s => do return .again (← addStmt list s)
        | none => do return .again ((← skipStmt r.token) :: list)) r := by
  have hend : atStmtsEnd false r = .ok false r := by
    unfold atStmtsEnd
    rw [kind_bind, isFull_bind, h.isFull_eq]
    simp [h.kind_ne.1, h.kind_ne.2]
  unfold stmtsRound
  rw [bind_run_ok hend, if_neg Bool.false_ne_true]
  refine (token_bind _ _).trans (congrFun (bind_congr fun read => ?_) r)
  cases read with
  | some s => rfl
  | none => rfl

theorem fileFrom_stmt (h : AtStmt r) (hs : stmt deep r = .ok s mid) (hcode : s.isCodeEnd = false)
    (stmtsLimit fileLimit : Nat) (list : List Stmt) :
    fileFrom deep (stmtsLimit + 1) fileLimit list r =
      fileFrom deep stmtsLimit fileLimit (s :: list) mid := by
  have hattempt : attempt (stmt deep) r = .ok (some s) mid := by
    unfold attempt
    rw [hs]
  have hround : stmtsRound deep false list r = .ok (.again (s :: list)) mid := by
    rw [stmtsRound_run h, bind_run_ok hattempt]
    dsimp only
    rw [addStmt_of_isCode hcode]
    rfl
  rw [fileFrom_succ, bind_run_ok hround]

theorem fileFrom_eof (h : r.token.kind = .eof) (deep : Nested) (stmtsLimit fileLimit : Nat)
    (list : List Stmt) :
    fileFrom deep (stmtsLimit + 1) fileLimit list r = .ok list.reverse r := by
  have hround : stmtsRound deep false list r = .ok (.done list.reverse) r := by
    unfold stmtsRound atStmtsEnd
    rw [bind_assoc, kind_bind, bind_assoc, isFull_bind, h]
    cases r.isFull <;> rfl
  have hrest : fileRest list.reverse r = .ok (.done list.reverse) r := by
    unfold fileRest
    rw [pos_bind, isFull_bind, kind_bind, h]
    cases r.isFull <;> rfl
  rw [fileFrom_succ, bind_run_ok hround]
  exact bind_run_ok hrest _

/-- A brace that closes nothing is found wrong. -/
theorem errors_of_rbrace {stmtsLimit fileLimit : Nat} (hdeep : deep.Built)
    (hfull : r.isFull = false) (hkind : r.token.kind = .rbrace) (hr : r.InSource source)
    (hrun : fileFrom deep (stmtsLimit + 1) fileLimit list r = .ok read later) :
    later.errors ≠ [] := by
  intro herrors
  have hround : stmtsRound deep false list r = .ok (.done list.reverse) r := by
    unfold stmtsRound atStmtsEnd
    rw [bind_assoc, kind_bind, bind_assoc, isFull_bind, hkind]
    cases r.isFull <;> rfl
  rw [fileFrom_succ, bind_run_ok hround] at hrun
  obtain ⟨result, last, hresult, hrest⟩ := bind_run_eq_ok.1 hrun
  have hlast : last.errors = [] := by
    cases result with
    | again list =>
      exact errors_of_built (rounds_built (fun list => fileRound_built hdeep list) _ _) hrest
        herrors
    | done list =>
      cases hrest
      exact herrors
  unfold fileRest at hresult
  rw [pos_bind, isFull_bind, kind_bind, if_neg (by simp [hfull, hkind])] at hresult
  obtain ⟨_, mid, herror, hbehind⟩ := bind_run_eq_ok.1 hresult
  have hrecorded : Accounted source r (fun _ => False) (errorAt r.token.pos .unmatchedBrace r) :=
    (errorAt_accounts _ _).run hr
  rw [herror] at hrecorded
  refine hrecorded.2 (errors_of_built (?_ : Built [] _ fun _ => []) hbehind hlast)
  exact .bind .next fun _ => .bind (accept_built _) fun _ => .pure (by simp)

/-- If nothing is found wrong in the end, the next statement of a file is read. -/
theorem stmt_of_fileFrom {depth stmtsLimit fileLimit : Nat} (h : AtStmt r)
    (hr : r.InSource source)
    (hrun : fileFrom (Nested.ofDepth depth) (stmtsLimit + 1) fileLimit list r = .ok read later)
    (herrors : later.errors = []) :
    ∃ s mid, stmt (Nested.ofDepth depth) r = .ok s mid := by
  have hdeep := Nested.built_ofDepth depth
  have hstmt := (stmt_accounts (Nested.accounts_ofDepth depth)).run hr
  rw [fileFrom_succ] at hrun
  obtain ⟨result, mid, hround, hrest⟩ := bind_run_eq_ok.1 hrun
  rw [stmtsRound_run h] at hround
  obtain ⟨read?, tried, hattempt, hround⟩ := bind_run_eq_ok.1 hround
  have hmid : mid.errors = [] := by
    cases result with
    | again list => exact errors_of_built (fileFrom_built hdeep _ _ _) hrest herrors
    | done list => exact errors_of_built (fileBehind_built hdeep _ _) hrest herrors
  unfold attempt at hattempt
  cases hs : stmt (Nested.ofDepth depth) r with
  | ok s later => exact ⟨s, later, rfl⟩
  | error e later =>
    exfalso
    rw [hs] at hattempt hstmt
    cases e with
    | fault f => cases hattempt
    | bail =>
      cases hattempt
      obtain ⟨bad, skipped, hskip, hround⟩ := bind_run_eq_ok.1 hround
      cases hround
      exact hstmt.2 (errors_of_built (skipStmt_built _) hskip hmid)

end Grammar

end TemplateScript
