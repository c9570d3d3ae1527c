import TemplateScript.Grammar.Document

/-!
# Runs of phrases

What a phrase does to a reader, step by step. Operations that only look at the reader hand on what
they see, so what follows them runs at once.
-/

namespace TemplateScript

namespace Parse

variable {α β : Type}

theorem bind_run (p : Parse α) (f : α → Parse β) (r : Reader) :
    (p >>= f) r =
      match p r with
      | .ok a r => f a r
      | .error e r => .error e r := by
  cases h : p r <;> simp only [bind, EStateM.bind, h]

theorem bind_run_ok {p : Parse α} {r r' : Reader} {a : α} (h : p r = .ok a r')
    (f : α → Parse β) : (p >>= f) r = f a r' := by
  rw [bind_run, h]

theorem bind_run_error {p : Parse α} {r r' : Reader} {e : Halt} (h : p r = .error e r')
    (f : α → Parse β) : (p >>= f) r = .error e r' := by
  rw [bind_run, h]

theorem bind_run_eq_ok {p : Parse α} {q : α → Parse β} {r later : Reader} {b : β} :
    (p >>= q) r = .ok b later ↔ ∃ a mid, p r = .ok a mid ∧ q a mid = .ok b later := by
  rw [bind_run]
  cases p r with
  | ok a mid =>
    refine ⟨fun h => ⟨a, mid, rfl, h⟩, ?_⟩
    rintro ⟨_, _, ⟨⟩, h⟩
    exact h
  | error e mid =>
    refine ⟨nofun, ?_⟩
    rintro ⟨_, _, ⟨⟩, -⟩

@[simp] theorem pure_run (a : α) (r : Reader) : (pure a : Parse α) r = .ok a r := rfl

@[simp] theorem get_bind (f : Reader → Parse β) (r : Reader) : (get >>= f) r = f r r := rfl

@[simp] theorem token_bind (f : Token → Parse β) (r : Reader) :
    (token >>= f) r = f r.token r := rfl

@[simp] theorem kind_bind (f : Token.Kind → Parse β) (r : Reader) :
    (kind >>= f) r = f r.token.kind r := rfl

@[simp] theorem pos_bind (f : Pos → Parse β) (r : Reader) : (pos >>= f) r = f r.token.pos r := rfl

@[simp] theorem isFull_bind (f : Bool → Parse β) (r : Reader) :
    (isFull >>= f) r = f r.isFull r := rfl

theorem place_run {r : Reader} {offset : Nat} (h : offset ≤ r.cursor.file.size) :
    place offset r = .ok (r.cursor.file.place offset) r := by
  unfold place
  rw [get_bind]
  simp only [if_pos h]
  rfl

theorem place_run_fault {r : Reader} {offset : Nat} (h : ¬ offset ≤ r.cursor.file.size) :
    place offset r =
      .error (.fault (.positionOutOfRange (r.cursor.file.base + offset) r.cursor.file.name)) r := by
  unfold place
  rw [get_bind]
  simp only [if_neg h]
  rfl

theorem line_run {r : Reader} {offset : Nat} (h : offset ≤ r.cursor.file.size) :
    line offset r = .ok (r.cursor.file.place offset).line r :=
  bind_run_ok (place_run h) _

theorem line_run_fault {r : Reader} {offset : Nat} (h : ¬ offset ≤ r.cursor.file.size) :
    line offset r =
      .error (.fault (.positionOutOfRange (r.cursor.file.base + offset) r.cursor.file.name)) r :=
  bind_run_error (place_run_fault h) _

/-- To look a line up changes nothing. -/
theorem line_stays {r later : Reader} {offset found : Nat}
    (h : line offset r = .ok found later) : later = r := by
  by_cases hsize : offset ≤ r.cursor.file.size
  · cases (line_run hsize).symm.trans h
    rfl
  · cases (line_run_fault hsize).symm.trans h

/-- What becomes of a token that was asked for. -/
theorem nextWithin_succ (limit : Nat) (r : Reader) :
    nextWithin (limit + 1) r =
      (if r.cursor.scan.2.kind = .comment then do
          let first ← line r.cursor.scan.2.pos
          let last ← line (r.cursor.scan.2.pos + r.cursor.scan.2.literal.utf8ByteSize)
          modify (·.keepComment ⟨r.cursor.scan.2.pos, r.cursor.scan.2.literal⟩ first last)
          nextWithin limit
        else modify ({ · with token := r.cursor.scan.2, commentEnd := none }) : Parse PUnit)
        (r.moveTo r.cursor.scan.1) := rfl

/-- Nothing is read after giving up. -/
theorem failAt_bind (offset : Nat) (cause : Cause) (f : α → Parse β) :
    failAt offset cause >>= f = failAt offset cause := by
  unfold failAt
  rw [bind_assoc]
  rfl

theorem failExpected_bind (wanted : String) (f : α → Parse β) :
    failExpected wanted >>= f = failExpected wanted := by
  unfold failExpected
  rw [bind_assoc]
  exact congrArg (token >>= ·) (funext fun _ => failAt_bind _ _ f)

/-- The next token is taken as long as it takes. -/
theorem next_run (r : Reader) : next r = nextWithin r.bound r := rfl

end Parse

/-! ### Rounds -/

namespace Grammar

open Parse

/-- One more statement of a list, the last one first, or the end of it. -/
def stmtsRound (deep : Nested) (inBlock : Bool) (list : List Stmt) :
    Parse (Round (List Stmt) (List Stmt)) := do
  if ← atStmtsEnd inBlock then return .done list.reverse
  else
    let first ← token
    match ← attempt (stmt deep) with
    | some s => return .again (← addStmt list s)
    | none => return .again ((← skipStmt first) :: list)

theorem stmts_eq (deep : Nested) (inBlock : Bool) :
    stmts deep inBlock = loop [] (stmtsRound deep inBlock) := rfl

end Grammar

end TemplateScript
