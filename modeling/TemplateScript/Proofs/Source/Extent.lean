import TemplateScript.Proofs.Extent.Document
import TemplateScript.Proofs.Finish.Source
import TemplateScript.Proofs.Source.Parsed
import TemplateScript.Proofs.WellFormed.Document

/-!
# Extents in a source

In a text in which nothing is found wrong, every node lies in its file and encloses its parts, but
that the nodes that are not written out may end up to two bytes too late.
-/

namespace TemplateScript

open Parse

/-- A text is read in order from its start. -/
theorem SourceFile.orderly_reader (file : SourceFile) (options : ScanOptions) (maxErrors : Nat)
    (text : String) :
    (reader (Cursor.start file options (Glyph.ofText text)) maxErrors).Orderly := by
  refine ⟨Cursor.ahead_start file options fun g hg => ?_, ?_⟩
  · obtain ⟨ch, -, rfl⟩ := List.mem_map.1 hg
    exact ⟨ch, rfl⟩
  · exact Cursor.common_isLegible.outer rfl

theorem Parse.source_covers (t : Token) :
    Covers True t Parse.source fun list u => ∀ s ∈ list, s.Within t.pos u.pos :=
  .next_bind fun _ hu => .get_bind fun _ => (Grammar.file_covers (Nested.covers_ofDepth _)).promised
    fun _ _ h s hs => (h s hs).since hu.le

namespace FileSet

variable {set later : FileSet} {name text : String} {options : ParseOptions} {parsed : Parsed}

/-- If nothing is found wrong with a text, its statements lie in its file. -/
theorem parse_within (h : set.parse name (Glyph.ofBytes (utf8 text)) options = .ok (parsed, later))
    (herrors : parsed.errors = []) :
    ∀ s ∈ parsed.document.stmts, s.Within set.base (set.base + (utf8 text).length) := by
  have hglyphs : Glyph.ofBytes (utf8 text) = Glyph.ofText text := Glyph.ofBytes_toUTF8 text
  have hwidths := Glyph.widths_ofBytes (utf8 text)
  obtain ⟨stmts, r, hrun, rfl⟩ := parse_eq_ok_iff_source.1 ⟨later, h⟩
  have hsound : (Cursor.start (set.newFile name (Glyph.ofBytes (utf8 text))) options.scan
      (Glyph.ofBytes (utf8 text))).Sound (Glyph.ofBytes (utf8 text)) :=
    Cursor.sound_bytes (.inl ⟨text, rfl⟩) hwidths rfl
  obtain ⟨_, _, -, hrun', hready, -⟩ :=
    Parse.source_finishes (SourceFile.ready_reader hsound options.maxErrors)
  cases hrun.symm.trans hrun'
  have horderly : (set.reader name (Glyph.ofBytes (utf8 text)) options).Orderly := by
    rw [hglyphs]
    exact SourceFile.orderly_reader _ _ _ _
  have hcovered := Parse.source_covers _ _ horderly rfl
  rw [hrun] at hcovered
  have hlocal := hcovered.2 (Diagnostic.sort_eq_nil.1 herrors) trivial
  intro s hs
  rw [show (Document.shift set.base ⟨stmts, r.comments⟩).stmts = stmts.map (·.shift set.base) from
    shiftStmts_eq_map set.base stmts] at hs
  obtain ⟨s, hmem, rfl⟩ := List.mem_map.1 hs
  have hend : r.token.pos ≤ (utf8 text).length := hwidths ▸ hready.token_le
  have hshifted := Node.Within.shift set.base ((hlocal s hmem).mono (Nat.zero_le _) hend)
  rw [Nat.zero_add, Nat.add_comm] at hshifted
  exact hshifted

/-- If nothing is found wrong with a text, every node of its tree begins in its file, ends no sooner
than it begins, and encloses its parts. Ends may be too late by two bytes, but not if all nodes are
written out. -/
theorem parse_extents (h : set.parse name (Glyph.ofBytes (utf8 text)) options = .ok (parsed, later))
    (herrors : parsed.errors = []) :
    let limit := set.base + (utf8 text).length
    ∀ s ∈ parsed.document.stmts,
      Node.Everywhere (Node.Lies 2 set.base limit) (.stmt s) ∧
      (Node.Everywhere Node.IsWritten (.stmt s) →
        Node.Everywhere (Node.Lies 0 set.base limit) (.stmt s)) := by
  intro limit s hs
  have hwithin := parse_within h herrors s hs
  exact ⟨hwithin.lies 2 (.inl (Nat.le_refl _)), fun hwritten =>
    hwithin.lies 0 (.inr ⟨trivial, hwritten⟩)⟩

/-- An assignment of names lies in its file, as all of it is written out. -/
theorem parse_extents_names :
    ∃ parsed later s, FileSet.parse {} "main" (Glyph.ofBytes (utf8 "é, b = b, é")) {} =
        .ok (parsed, later) ∧ parsed.errors = [] ∧ s ∈ parsed.document.stmts ∧ s.stop = 14 ∧
      Node.Everywhere (Node.Lies 0 1 14) (.stmt s) := by
  let isName : Node → Bool
    | .stmt _ => false
    | .expr e => e.ident?.isSome
  have hrun : (FileSet.parse {} "main" (Glyph.ofBytes (utf8 "é, b = b, é")) {}).toOption.map
      (fun read => (read.1.errors, read.1.document.stmts.map Stmt.stop,
        read.1.document.stmts.all fun s => s.children.all isName)) = some ([], [14], true) := by
    decide +kernel
  cases hparse : FileSet.parse {} "main" (Glyph.ofBytes (utf8 "é, b = b, é")) {} with
  | error fault =>
    rw [hparse] at hrun
    cases hrun
  | ok read =>
    obtain ⟨parsed, later⟩ := read
    rw [hparse] at hrun
    obtain ⟨herrors, hread⟩ := Prod.mk.inj (Option.some.inj hrun)
    obtain ⟨hstops, hnames⟩ := Prod.mk.inj hread
    obtain ⟨s, hs, hstop⟩ := List.mem_map.1 (hstops.symm ▸ List.mem_cons_self :
      14 ∈ parsed.document.stmts.map Stmt.stop)
    refine ⟨parsed, later, s, rfl, herrors, hs, hstop, (parse_extents hparse herrors s hs).2 ?_⟩
    refine .intro trivial fun m hm => ?_
    have hname : isName m = true := List.all_eq_true.1 (List.all_eq_true.1 hnames s hs) m hm
    cases m with
    | stmt s => cases hname
    | expr e =>
      cases e with
      | ident id => exact .intro trivial (List.forall_mem_nil _)
      | _ => cases hname

/-- The name of a selection counts as a string with quotes, so the selection ends two bytes behind
its file. -/
theorem parse_extents_selection :
    ∃ parsed later s, FileSet.parse {} "test" (Glyph.ofBytes (utf8 "a.b")) {} =
        .ok (parsed, later) ∧ parsed.errors = [] ∧ s ∈ parsed.document.stmts ∧
      ¬ s.stop ≤ FileSet.base {} + (utf8 "a.b").length := by
  have hrun : (FileSet.parse {} "test" (Glyph.ofBytes (utf8 "a.b")) {}).toOption.map
      (fun read => (read.1.errors, read.1.document.stmts.map Stmt.stop)) = some ([], [6]) := by
    decide +kernel
  cases hparse : FileSet.parse {} "test" (Glyph.ofBytes (utf8 "a.b")) {} with
  | error fault =>
    rw [hparse] at hrun
    cases hrun
  | ok read =>
    obtain ⟨parsed, later⟩ := read
    rw [hparse] at hrun
    obtain ⟨herrors, hstops⟩ := Prod.mk.inj (Option.some.inj hrun)
    obtain ⟨s, hs, hstop⟩ := List.mem_map.1 (hstops.symm ▸ List.mem_cons_self :
      6 ∈ parsed.document.stmts.map Stmt.stop)
    refine ⟨parsed, later, s, rfl, herrors, hs, ?_⟩
    rw [hstop]
    decide

end FileSet

end TemplateScript
