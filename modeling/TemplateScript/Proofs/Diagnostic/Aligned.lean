import TemplateScript.Proofs.Diagnostic.Lines
import TemplateScript.Proofs.Cursor.Aligned

/-!
# Diagnostics at characters

A reader reports about tokens, about places where a phrase began, and about what its cursor has
found wrong. All of these are points of the source between two characters. So a diagnostic of a text
never stands inside a character.
-/

namespace TemplateScript

open Parse

variable {source : List Glyph}

/-- All that the reader has found wrong is at points of the source, and so is the token it holds. -/
structure Reader.Aligned (source : List Glyph) (r : Reader) : Prop where
  isText : ∀ g ∈ source, ∃ ch, g = .char ch
  cursor : r.cursor.PoolAligned source
  token : Glyph.IsPoint source r.token.pos
  errors : ∀ d ∈ r.errors, Glyph.IsPoint source d.place.offset

namespace Reader.Aligned

variable {r : Reader}

theorem record (h : r.Aligned source) {d : Diagnostic}
    (hd : Glyph.IsPoint source d.place.offset) : (r.record d).Aligned source := by
  refine ⟨h.isText, record_cursor r d ▸ h.cursor, record_token r d ▸ h.token, ?_⟩
  rcases record_cases r d with ⟨heq, -⟩ | ⟨heq, -⟩
  · rw [heq]
    exact h.errors
  · rw [heq]
    exact List.forall_mem_append.2 ⟨h.errors, List.forall_mem_singleton.2 hd⟩

/-- Behind a token everything is at points of the source, whether the token is kept or not. -/
theorem move (h : r.Aligned source) :
    (r.moveTo r.cursor.scan.1).Aligned source ∧ Glyph.IsPoint source r.cursor.scan.2.pos := by
  obtain ⟨hpos, hscan⟩ := h.cursor.scan h.isText
  have hmoved : Aligned source { r with cursor := r.cursor.scan.1.takeErrors } :=
    ⟨h.isText, ⟨hscan.toAligned.of_eq rfl rfl rfl, hscan.pool⟩, h.token, h.errors⟩
  have hrecords (errors : List ScanError)
      (herrors : ∀ e ∈ errors, Glyph.IsPoint source e.place.offset) {r : Reader}
      (h : r.Aligned source) :
      (errors.foldl (fun r e => r.record (.ofScanError e)) r).Aligned source := by
    induction errors generalizing r with
    | nil => exact h
    | cons e rest ih =>
      obtain ⟨he, hrest⟩ := List.forall_mem_cons.1 herrors
      exact ih hrest (h.record he)
  exact ⟨hrecords _ (fun e he => hscan.errors e (List.mem_of_mem_drop he)) hmoved, hpos⟩

theorem apply (h : r.Aligned source) (options : PragmaOptions) :
    Aligned source { r with cursor := r.cursor.apply options } := by
  have hstays := r.cursor.stays_apply options
  have hcursor : (r.cursor.apply options).Aligned source :=
    h.cursor.toAligned.of_eq hstays.rest_eq hstays.offset_eq hstays.errors_eq
  exact ⟨h.isText, ⟨hcursor, hstays.pool_eq ▸ h.cursor.pool⟩, h.token, h.errors⟩

end Reader.Aligned

namespace Parse

variable {α β : Type} {r : Reader}

/-- What came of a phrase: all that was found wrong is at points of the source, and so is what the
phrase makes known. -/
def AlignedTo (source : List Glyph) (marks : α → List Nat) :
    EStateM.Result Halt Reader α → Prop
  | .ok a later => later.Aligned source ∧ ∀ o ∈ marks a, Glyph.IsPoint source o
  | .error .bail later => later.Aligned source
  | .error (.fault _) _ => True

namespace AlignedTo

variable {marks : α → List Nat}

theorem bind {p : Parse α} {q : α → Parse β} {last : β → List Nat}
    (hp : AlignedTo source marks (p r))
    (hq : ∀ a later, later.Aligned source → (∀ o ∈ marks a, Glyph.IsPoint source o) →
      AlignedTo source last (q a later)) : AlignedTo source last ((p >>= q) r) := by
  rw [bind_run]
  cases hpr : p r with
  | ok a later =>
    rw [hpr] at hp
    exact hq a later hp.1 hp.2
  | error e later =>
    rw [hpr] at hp
    cases e with
    | bail => exact hp
    | fault f => trivial

theorem line_bind {offset : Nat} {q : Nat → Parse α}
    (hq : ∀ line, AlignedTo source marks (q line r)) :
    AlignedTo source marks ((line offset >>= q) r) := by
  by_cases hsize : offset ≤ r.cursor.file.size
  · rw [bind_run_ok (line_run hsize)]
    exact hq _
  · rw [bind_run_error (line_run_fault hsize)]
    trivial

theorem errorAt (hr : r.Aligned source) {offset : Nat} (hoffset : Glyph.IsPoint source offset)
    (cause : Cause) : AlignedTo source (fun _ => []) (errorAt offset cause r) := by
  unfold Parse.errorAt
  by_cases hsize : offset ≤ r.cursor.file.size
  · rw [bind_run_ok (place_run hsize)]
    refine ⟨hr.record ?_, List.forall_mem_nil _⟩
    rw [Cursor.place_offset]
    exact hoffset
  · rw [bind_run_error (place_run_fault hsize)]
    trivial

theorem nextWithin (limit : Nat) (hr : r.Aligned source) :
    AlignedTo source (fun _ => []) (nextWithin limit r) := by
  induction limit generalizing r with
  | zero => trivial
  | succ limit ih =>
    obtain ⟨hmoved, hpos⟩ := hr.move
    rw [nextWithin_succ]
    split
    · exact .line_bind fun first => .line_bind fun last =>
        ih ⟨hmoved.isText, hmoved.cursor, hmoved.token, hmoved.errors⟩
    · exact ⟨⟨hmoved.isText, hmoved.cursor, hpos, hmoved.errors⟩, List.forall_mem_nil _⟩

end AlignedTo

end Parse

end TemplateScript
