import TemplateScript.Proofs.Built.Document

/-!
# What parsing a source gives

Parsing a source puts a reader before its first token and returns what the reader has at the end.
Whatever it does on the way is done in steps, so what those keep can be told of what is returned.
-/

namespace TemplateScript

namespace SourceFile

variable {f : SourceFile} {glyphs : List Glyph} {options : ParseOptions} {parsed : Parsed}

/-- A source is parsed if its file has the right size and its reader comes to the end. -/
theorem parse_eq_ok_iff :
    f.parse glyphs options = .ok parsed ↔ f.size = Glyph.widths glyphs ∧ ∃ stmts r,
      Parse.source (reader (Cursor.start f options.scan glyphs) options.maxErrors) = .ok stmts r ∧
      parsed = ⟨Document.shift f.base ⟨stmts, r.comments⟩, Diagnostic.sort r.errors,
        r.cursor.file⟩ := by
  unfold parse parseLocal Cursor.start?
  by_cases hsize : f.size = Glyph.widths glyphs
  · rw [if_pos hsize]
    dsimp only [bind, Except.bind]
    cases Parse.source (reader (Cursor.start f options.scan glyphs) options.maxErrors) with
    | ok stmts r =>
      refine ⟨fun h => ⟨hsize, stmts, r, rfl, (Except.ok.inj h).symm⟩, ?_⟩
      rintro ⟨-, _, _, hrun, rfl⟩
      cases hrun
      rfl
    | error e r =>
      constructor
      · intro h
        cases e <;> cases h
      · rintro ⟨-, _, _, hrun, -⟩
        cases hrun
  · rw [if_neg hsize]
    exact ⟨nofun, fun h => absurd h.1 hsize⟩

end SourceFile

namespace FileSet

variable {set later : FileSet} {name : String} {glyphs : List Glyph} {options : ParseOptions}
  {parsed : Parsed}

/-- A source that is added to a set is parsed if its reader comes to the end. -/
theorem parse_eq_ok_iff :
    (∃ later, set.parse name glyphs options = .ok (parsed, later)) ↔
      SourceFile.parse { name, base := set.base, size := Glyph.widths glyphs } glyphs options =
        .ok parsed := by
  unfold parse add
  simp only [Option.getD_none, Nat.lt_irrefl, if_false, bind, Except.bind]
  cases SourceFile.parse { name, base := set.base, size := Glyph.widths glyphs } glyphs options with
  | ok parsed' =>
    refine ⟨fun ⟨_, h⟩ => congrArg Except.ok (Prod.mk.inj (Except.ok.inj h)).1, fun h => ?_⟩
    rw [Except.ok.inj h]
    exact ⟨_, rfl⟩
  | error fault => exact ⟨nofun, nofun⟩

/-- The file that a source is in when it is added to a set. -/
def newFile (set : FileSet) (name : String) (glyphs : List Glyph) : SourceFile :=
  { name, base := set.base, size := Glyph.widths glyphs }

/-- The reader before the first token of a source that is added to a set. -/
def reader (set : FileSet) (name : String) (glyphs : List Glyph) (options : ParseOptions) :
    Reader :=
  SourceFile.reader (Cursor.start (set.newFile name glyphs) options.scan glyphs) options.maxErrors

/-- What is returned is what the reader of the source has at the end. -/
theorem parse_eq_ok_iff_source :
    (∃ later, set.parse name glyphs options = .ok (parsed, later)) ↔ ∃ stmts r,
      Parse.source (set.reader name glyphs options) = .ok stmts r ∧
      parsed = ⟨Document.shift set.base ⟨stmts, r.comments⟩, Diagnostic.sort r.errors,
        r.cursor.file⟩ := by
  rw [parse_eq_ok_iff, SourceFile.parse_eq_ok_iff]
  exact ⟨And.right, fun h => ⟨rfl, h⟩⟩

/-- What is returned is what a reader has that came in steps from the start of the source. -/
theorem parse_steps (h : set.parse name glyphs options = .ok (parsed, later)) :
    ∃ stmts r, (set.reader name glyphs options).Steps r ∧
      parsed = ⟨Document.shift set.base ⟨stmts, r.comments⟩, Diagnostic.sort r.errors,
        r.cursor.file⟩ := by
  obtain ⟨stmts, r, hrun, hparsed⟩ := parse_eq_ok_iff_source.1 ⟨later, h⟩
  have hsteps := Parse.source_built.steps (set.reader name glyphs options)
  rw [hrun] at hsteps
  exact ⟨stmts, r, hsteps, hparsed⟩

end FileSet

end TemplateScript
