import TemplateScript.Proofs.Operation.Tokens
import TemplateScript.Proofs.Template.Roundtrip

/-!
# Sources whose tokens are known

A source that is a text without byte order marks is parsed. If its tokens are read without a
complaint, then what is known of the trees that are read is known of the parsed document, but for
how far on it stands.
-/

namespace TemplateScript

/-- A cursor at the start of a text stands in a script that is the text. -/
theorem Cursor.start_inScript {options : ScanOptions} {text : String}
    (hmixed : options.mixed = false) (file : SourceFile) (h : Template.Unmarked text) :
    (start file options (Glyph.ofText text)).InScript options false (Glyph.ofText text) := by
  have hfit : ∀ g ∈ Glyph.ofText text, g.IsFit := by
    intro g hg
    obtain ⟨ch, hch, rfl⟩ := List.mem_map.1 hg
    exact ⟨ch, rfl, h ch hch⟩
  rw [start_fit fun g hg => hfit g (List.mem_of_mem_head? hg)]
  exact ⟨rfl, hfit, rfl, rfl, hmixed, rfl, rfl, rfl⟩

/-- A text whose reading ends with statements of a kind and no complaint is parsed as statements of
that kind, further on. -/
theorem FileSet.parse_text {S : List Stmt → Prop} {text : String} (set : FileSet) (name : String)
    (options : ParseOptions)
    (h : ∀ {file : SourceFile} {t : Token} {stmts : List Stmt} {later : Reader},
      (Cursor.start file options.scan (Glyph.ofText text)).InSource (Glyph.ofText text) →
      Parse.source (.on options.maxErrors (Cursor.start file options.scan (Glyph.ofText text)) t) =
        .ok stmts later → S stmts ∧ later.errors = []) :
    ∃ parsed later stmts,
      set.parse name (Glyph.ofBytes (utf8 text)) options = .ok (parsed, later) ∧
      parsed.errors = [] ∧ parsed.document.stmts = shiftStmts set.base stmts ∧ S stmts := by
  obtain ⟨stmts, r, hrun, -⟩ := @SourceFile.source_lands _ options (.inl ⟨text, rfl⟩)
    (set.newFile name (Glyph.ofBytes (utf8 text))) (Glyph.widths_ofBytes _) rfl
  obtain ⟨later, hparse⟩ := FileSet.parse_eq_ok_iff_source.2 ⟨stmts, r, hrun, rfl⟩
  rw [show Glyph.ofBytes (utf8 text) = Glyph.ofText text from Glyph.ofBytes_toUTF8 _] at hrun
  obtain ⟨hstmts, herrors⟩ := h (Cursor.inSource_start rfl rfl) hrun
  refine ⟨_, later, stmts, hparse, ?_, rfl, hstmts⟩
  simp [herrors, Diagnostic.sort]

end TemplateScript
