import TemplateScript.Proofs.Built.Document
import TemplateScript.Proofs.Cursor.Resolve
import TemplateScript.Proofs.Finish.Source
import TemplateScript.Proofs.Diagnostic.Lines

/-!
# Where diagnostics stand

A reader reports about tokens and phrases that it has read, though the line table is filled only as
far as its cursor has come. That is far enough: no operation reports about an offset behind the
cursor, so every diagnostic stands at the line and the column that its offset has in the whole
source.
-/

namespace TemplateScript

open Parse

/-- All that the reader has found wrong is at the right place, and it has read the token it holds. -/
structure Reader.Resolved (name : String) (source : List Glyph) (r : Reader) : Prop where
  cursor : r.cursor.Resolved name source
  pool : r.cursor.PoolPlaced
  token : r.token.pos ≤ r.cursor.offset
  errors : ∀ d ∈ r.errors, d.place.StandsIn name source

namespace Reader.Resolved

variable {name : String} {source : List Glyph} {r : Reader}

theorem record (h : r.Resolved name source) {d : Diagnostic} (hd : d.place.StandsIn name source) :
    (r.record d).Resolved name source := by
  refine ⟨record_cursor r d ▸ h.cursor, record_cursor r d ▸ h.pool, ?_, ?_⟩
  · rw [record_token, record_cursor]
    exact h.token
  · rcases record_cases r d with ⟨heq, -⟩ | ⟨heq, -⟩
    · rw [heq]
      exact h.errors
    · rw [heq]
      exact List.forall_mem_append.2 ⟨h.errors, List.forall_mem_singleton.2 hd⟩

/-- Behind a token everything is at the right place, whether the token is kept or not. -/
theorem move (h : r.Resolved name source) :
    (r.moveTo r.cursor.scan.1).Resolved name source ∧
      r.cursor.scan.2.pos ≤ (r.moveTo r.cursor.scan.1).cursor.offset ∧
      r.cursor.offset ≤ (r.moveTo r.cursor.scan.1).cursor.offset := by
  have hoffset := (Cursor.reaches_scan r.cursor).offset_le
  have hscan := h.cursor.scan
  obtain ⟨hpos, hpool⟩ := Cursor.scan_placed h.pool
  have hmoved : Resolved name source { r with cursor := r.cursor.scan.1.takeErrors } :=
    ⟨hscan.of_eq rfl rfl rfl rfl, hpool, Nat.le_trans h.token hoffset, h.errors⟩
  have hrecords (errors : List ScanError) (herrors : ∀ e ∈ errors, e.place.StandsIn name source)
      {r : Reader} (h : r.Resolved name source) :
      (errors.foldl (fun r e => r.record (.ofScanError e)) r).Resolved name source := by
    induction errors generalizing r with
    | nil => exact h
    | cons e rest ih =>
      obtain ⟨he, hrest⟩ := List.forall_mem_cons.1 herrors
      exact ih hrest (h.record he)
  refine ⟨hrecords _ (fun e he => hscan.errors e (List.mem_of_mem_drop he)) hmoved, ?_, ?_⟩
  · rw [moveTo_cursor]
    exact hpos
  · rw [moveTo_cursor]
    exact hoffset

theorem apply (h : r.Resolved name source) (options : PragmaOptions) :
    Resolved name source { r with cursor := r.cursor.apply options } := by
  have hstays := r.cursor.stays_apply options
  refine ⟨h.cursor.of_eq hstays.rest_eq hstays.offset_eq hstays.file_eq hstays.errors_eq, ?_, ?_,
    h.errors⟩
  · intro t ht
    rw [hstays.offset_eq]
    exact h.pool t (hstays.pool_eq ▸ ht)
  · rw [hstays.offset_eq]
    exact h.token

end Reader.Resolved

namespace Parse

variable {α β : Type} {name : String} {source : List Glyph} {r mid : Reader}

/-- What came of a phrase: all that was found wrong is at the right place, the reader has not gone
back, and it has passed what the phrase makes known. -/
def ResolvedTo (name : String) (source : List Glyph) (r : Reader) (marks : α → List Nat) :
    EStateM.Result Halt Reader α → Prop
  | .ok a later => later.Resolved name source ∧ r.cursor.offset ≤ later.cursor.offset ∧
    ∀ o ∈ marks a, o ≤ later.cursor.offset
  | .error .bail later => later.Resolved name source ∧ r.cursor.offset ≤ later.cursor.offset
  | .error (.fault _) _ => True

namespace ResolvedTo

variable {marks : α → List Nat}

theorem after {result : EStateM.Result Halt Reader α} (h : r.cursor.offset ≤ mid.cursor.offset)
    (hresult : ResolvedTo name source mid marks result) :
    ResolvedTo name source r marks result := by
  cases result with
  | ok a later => exact ⟨hresult.1, Nat.le_trans h hresult.2.1, hresult.2.2⟩
  | error e later =>
    cases e with
    | bail => exact ⟨hresult.1, Nat.le_trans h hresult.2⟩
    | fault f => trivial

theorem bind {p : Parse α} {q : α → Parse β} {last : β → List Nat}
    (hp : ResolvedTo name source r marks (p r))
    (hq : ∀ a later, later.Resolved name source → r.cursor.offset ≤ later.cursor.offset →
      (∀ o ∈ marks a, o ≤ later.cursor.offset) → ResolvedTo name source later last (q a later)) :
    ResolvedTo name source r last ((p >>= q) r) := by
  rw [bind_run]
  cases hpr : p r with
  | ok a later =>
    rw [hpr] at hp
    obtain ⟨hlater, hoffset, hmarks⟩ := hp
    exact (hq a later hlater hoffset hmarks).after hoffset
  | error e later =>
    rw [hpr] at hp
    cases e with
    | bail => exact hp
    | fault f => trivial

theorem line_bind {offset : Nat} {q : Nat → Parse α}
    (hq : ∀ line, ResolvedTo name source r marks (q line r)) :
    ResolvedTo name source r marks ((line offset >>= q) r) := by
  by_cases hsize : offset ≤ r.cursor.file.size
  · rw [bind_run_ok (line_run hsize)]
    exact hq _
  · rw [bind_run_error (line_run_fault hsize)]
    trivial

/-- A diagnostic about an offset up to the cursor is at the right place. -/
theorem errorAt (hr : r.Resolved name source) {offset : Nat} (hoffset : offset ≤ r.cursor.offset)
    (cause : Cause) : ResolvedTo name source r (fun _ => []) (errorAt offset cause r) := by
  unfold Parse.errorAt
  by_cases hsize : offset ≤ r.cursor.file.size
  · rw [bind_run_ok (place_run hsize)]
    refine ⟨hr.record (hr.cursor.place hoffset), ?_, by simp⟩
    rw [Reader.record_cursor]
  · rw [bind_run_error (place_run_fault hsize)]
    trivial

theorem nextWithin (limit : Nat) (hr : r.Resolved name source) :
    ResolvedTo name source r (fun _ => []) (nextWithin limit r) := by
  induction limit generalizing r with
  | zero => trivial
  | succ limit ih =>
    obtain ⟨hmoved, hpos, hoffset⟩ := hr.move
    rw [nextWithin_succ]
    split
    · refine .after hoffset <| .line_bind fun first => .line_bind fun last => ?_
      exact ih ⟨hmoved.cursor, hmoved.pool, hmoved.token, hmoved.errors⟩
    · exact ⟨⟨hmoved.cursor, hmoved.pool, hpos, hmoved.errors⟩, hoffset, by simp⟩

end ResolvedTo

/-- A phrase built of operations reports at the right places, if it begins behind what it knows. -/
theorem Built.resolved {known : List Nat} {p : Parse α} {marks : α → List Nat}
    (h : Built known p marks) (hr : r.Resolved name source)
    (hknown : ∀ o ∈ known, o ≤ r.cursor.offset) : ResolvedTo name source r marks (p r) := by
  induction h generalizing r with
  | pure h => exact ⟨hr, Nat.le_refl _, fun o ho => hknown o (h ho)⟩
  | bind _ _ ihp ihq =>
    refine (ihp hr hknown).bind fun a later hlater hoffset hmarks => ihq a hlater fun o ho => ?_
    rcases List.mem_append.1 ho with ho | ho
    · exact hmarks o ho
    · exact Nat.le_trans (hknown o ho) hoffset
  | look _ ih => exact ih r.cursor hr hknown
  | token => exact ⟨hr, Nat.le_refl _, List.forall_mem_singleton.2 hr.token⟩
  | isFull => exact ⟨hr, Nat.le_refl _, by simp⟩
  | bail => exact ⟨hr, Nat.le_refl _⟩
  | fault f => trivial
  | @attempt _ _ p marks _ ih =>
    have hp := ih hr hknown
    unfold Parse.attempt
    cases hpr : p r with
    | ok a later =>
      rw [hpr] at hp
      exact hp
    | error e later =>
      rw [hpr] at hp
      cases e with
      | bail => exact ⟨hp.1, hp.2, by simp⟩
      | fault f => trivial
  | errorAt h cause => exact .errorAt hr (hknown _ h) cause
  | next => exact .nextWithin _ hr
  | apply options _ _ ihp ihq =>
    rw [kind_bind]
    split
    · have hstays : (r.cursor.apply options).offset = r.cursor.offset :=
        (r.cursor.stays_apply options).offset_eq
      refine .after (Nat.le_of_eq hstays.symm) (ihp (hr.apply options) fun o ho => ?_)
      exact hstays ▸ hknown o ho
    · exact ihq hr hknown

end Parse

/-! ### Whole sources -/

theorem Place.StandsIn.exact {name : String} {source : List UInt8} {p : Place}
    (h : p.StandsIn name (Glyph.ofBytes source)) : p.file = name ∧ p.Exact source := by
  have hle : p.offset ≤ source.length := by
    rw [← Glyph.widths_ofBytes source]
    exact h.offset_le
  rw [h.place_eq]
  refine ⟨?_, Glyph.place_exact name hle⟩
  unfold Glyph.place SourceFile.place
  dsimp only
  split <;> rfl

/-- Whatever is found wrong with a text, by the parser or as its tokens are asked for one by one,
stands at the line and the column that its offset has in the whole text. When the end of the file
has been reached, the line table holds the starts of all lines. -/
theorem FileSet.parse_exact (set : FileSet) (name text : String) (options : ParseOptions) :
    ∃ cursor,
      Cursor.start? { name, base := set.base, size := (utf8 text).length } options.scan
        (Glyph.ofBytes (utf8 text)) = .ok cursor ∧
      (∃ parsed later stmts r, set.parse name (Glyph.ofBytes (utf8 text)) options =
          .ok (parsed, later) ∧
        Parse.source (SourceFile.reader cursor options.maxErrors) = .ok stmts r ∧
        parsed.file = r.cursor.file ∧ parsed.errors = Diagnostic.sort r.errors ∧
        (∀ d ∈ parsed.errors, d.place.file = name ∧ d.place.Exact (utf8 text)) ∧
        (r.isFull = true ∨ r.token.kind = .eof) ∧
        (r.token.kind = .eof → parsed.file.lines = lineStartsOf (utf8 text))) ∧
      ∀ calls,
        (∀ e ∈ (Cursor.performAll calls cursor).1.errors,
          e.place.file = name ∧ e.place.Exact (utf8 text)) ∧
        ∀ t ∈ (Cursor.performAll calls cursor).2, t.kind = .eof →
          (Cursor.performAll calls cursor).1.file.lines = lineStartsOf (utf8 text) := by
  let source := Glyph.ofBytes (utf8 text)
  let file : SourceFile := { name, base := set.base, size := (utf8 text).length }
  let cursor := Cursor.start file options.scan source
  have hsize : file.size = Glyph.widths source := (Glyph.widths_ofBytes _).symm
  have hresolved : cursor.Resolved name source := Cursor.resolved_start options.scan hsize rfl
  have hsound : cursor.Sound source := Cursor.sound_bytes (.inl ⟨text, rfl⟩) rfl rfl
  have hlines : Glyph.lineStarts source = lineStartsOf (utf8 text) := Glyph.lineStarts_ofBytes _
  obtain ⟨stmts, r, tokens, hrun, hready, htakes, htokens, hlands⟩ :=
    Parse.source_finishes (SourceFile.ready_reader hsound options.maxErrors)
  have hreader : (SourceFile.reader cursor options.maxErrors).Resolved name source :=
    ⟨hresolved, Cursor.poolPlaced_start _ _ _, Nat.le_refl _, by simp [SourceFile.reader]⟩
  have hrunResolved := Parse.source_built.resolved hreader (by simp)
  rw [hrun] at hrunResolved
  obtain ⟨later, hparse⟩ := parse_eq_ok_iff.2 <| show SourceFile.parse
      { name, base := set.base, size := Glyph.widths source } source options = .ok _ from
    SourceFile.parse_eq_ok_iff.2 ⟨rfl, stmts, r, hsize ▸ hrun, rfl⟩
  refine ⟨cursor, if_pos hsize, ⟨_, later, stmts, r, hparse, hrun, rfl, rfl, ?_, hlands, ?_⟩, ?_⟩
  · intro d hd
    exact (hrunResolved.1.errors d ((Diagnostic.sort_perm _).mem_iff.1 hd)).exact
  · intro heof
    have hrest : r.cursor.rest = [] := htakes.rest_eq hsound.inner htokens heof
    exact (hready.cursor.inSource.lines_eq hrest).trans hlines
  · intro calls
    refine ⟨fun e he => ((hresolved.performAll calls).errors e he).exact, fun t ht hkind => ?_⟩
    have hrest := (Cursor.performAll_ended hsound.inner ht hkind).rest_eq
    exact ((hsound.performAll calls).inSource.lines_eq hrest).trans hlines

end TemplateScript
