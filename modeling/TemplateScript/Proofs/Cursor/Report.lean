import TemplateScript.Proofs.Cursor.Reach

/-!
# What reading leaves behind

Reading tokens leaves the options alone, and what it reports is about points that it has passed. So
whoever looks an error up in the file finds a place there.
-/

namespace TemplateScript

namespace Cursor

/-- Behind a read, the options are what they were, and every error is old or about a point that was
passed. -/
structure Reads (c later : Cursor) : Prop where
  offset_le : c.offset ≤ later.offset
  options_eq : later.options = c.options
  errors_le : ∀ e ∈ later.errors, e ∈ c.errors ∨ e.place.offset ≤ later.offset

variable {a b c later : Cursor}

theorem Reads.trans (h : a.Reads b) (k : b.Reads c) : a.Reads c where
  offset_le := Nat.le_trans h.offset_le k.offset_le
  options_eq := k.options_eq.trans h.options_eq
  errors_le e he := by
    rcases k.errors_le e he with he | hle
    · exact (h.errors_le e he).imp_right (Nat.le_trans · k.offset_le)
    · exact .inr hle

theorem Reads.of_eq (hoffset : later.offset = c.offset) (hoptions : later.options = c.options)
    (herrors : later.errors = c.errors) : c.Reads later where
  offset_le := Nat.le_of_eq hoffset.symm
  options_eq := hoptions
  errors_le _ he := .inl (herrors ▸ he)

theorem Walks.reads (h : c.Walks 0 later) : c.Reads later where
  offset_le := h.offset_le
  options_eq := h.options_eq
  errors_le e he := (h.errors_le e he).imp_right fun hle => by rwa [Nat.zero_max] at hle

theorem reads_skipBlanks (c : Cursor) : c.Reads c.skipBlanks := (walks_skipBlanks c).reads

theorem reads_bodyTokens (c : Cursor) : c.Reads c.bodyTokens.1 := by
  fun_induction bodyTokens c with
  | case1 c => exact reads_skipBlanks c
  | case2 c _ _ _ _ ih => exact (reads_skipBlanks c).trans ((walks_comment _).reads.trans ih)
  | case3 c g _ _ _ more ih => exact (reads_skipBlanks c).trans ((walks_lexeme _ g).reads.trans ih)

/-- What is wrong in a pragma's body is in the pragma. -/
theorem reads_pragma (c : Cursor) (head : Nat) : c.Reads (c.pragma head).1 := by
  let size := Glyph.countUntil endsPragma (c.rest.drop head)
  let start : Cursor := { c with
    rest := (c.rest.drop head).take size
    offset := c.offset + Glyph.widths (c.rest.take head)
    pending := false
    nesting := {}
    options := { c.options with
      comments := false, noAutoSemicolons := true, mixed := false, noPragma := true } }
  let body := (c.bodyStart head size).bodyTokens.1
  let last := advanceBy (head + size) { c with errors := body.errors }
  have hbody : body.offset ≤ last.offset := by
    have hend := (bodyTokens_pos (c.bodyStart head size)).1.end_eq
    rw [bodyStart_end] at hend
    rw [offset_advanceBy]
    exact Nat.le.intro hend
  have herrors : ∀ e ∈ body.errors, e ∈ c.errors ∨ e.place.offset ≤ body.offset := by
    intro e he
    rcases (reads_bodyTokens (c.bodyStart head size)).errors_le e he with he | hle
    · have hstart : start.arrive.offset ≤ body.offset := (reads_bodyTokens _).offset_le
      rw [arrive_offset] at hstart
      exact (arrive_errors (c := start) he).imp_right (Nat.le_trans · hstart)
    · exact .inr hle
  have hlast : Reads { c with errors := body.errors } last.advance :=
    (Walks.advance (walks_advanceBy (head + size) _)).reads
  have hoffset : last.offset ≤ last.advance.offset := advance_offset_le last
  have hread : (c.pragma head).1 = { last.advance with pending := false } := rfl
  rw [hread]
  refine ⟨hlast.offset_le, hlast.options_eq, fun e he => ?_⟩
  rcases hlast.errors_le e he with he | hle
  · exact (herrors e he).imp_right fun hle => Nat.le_trans hle (Nat.le_trans hbody hoffset)
  · exact .inr hle

theorem reads_textEnd (c : Cursor) : c.Reads c.textEnd :=
  (walks_advanceBy c.textRun.1 c).reads.trans (.of_eq rfl rfl rfl)

theorem reads_enterCode (c : Cursor) (length : Nat) (isValue : Bool) :
    c.Reads (c.enterCode length isValue) :=
  (walks_advanceBy length c).reads.trans (.of_eq rfl rfl rfl)

theorem reads_templateText (c : Cursor) : c.Reads c.templateText.1 := by
  have hend := reads_textEnd c
  have hcode : c.textEnd.Reads c.textCode := reads_enterCode ..
  rw [templateText_eq]
  dsimp only
  split
  · split
    · exact hend.trans hcode
    · exact hend.trans hcode
  · split
    · exact hend
    · split
      · exact hend.trans (reads_pragma ..)
      · exact hend

theorem reads_codeEnd {token : Token} (h : c.codeEnd? = some (later, token)) : c.Reads later := by
  unfold codeEnd? at h
  dsimp only at h
  split at h
  · obtain ⟨rfl, rfl⟩ := Prod.mk.inj (Option.some.inj h)
    exact (walks_advanceBy _ c).reads.trans (.of_eq rfl rfl rfl)
  · cases h

theorem reads_code (c : Cursor) : c.Reads c.code.1 := by
  fun_induction code c with
  | case1 c start last token h => exact (reads_skipBlanks c).trans (reads_codeEnd h)
  | case2 c start _ head => exact (reads_skipBlanks c).trans (reads_pragma start head)
  | case3 c start => exact (reads_skipBlanks c).trans (.of_eq rfl rfl rfl)
  | case4 c start => exact reads_skipBlanks c
  | case5 c start => exact (reads_skipBlanks c).trans (.of_eq rfl rfl rfl)
  | case6 c start => exact (reads_skipBlanks c).trans (walks_comment start).reads
  | case7 c start =>
    rename_i ih
    exact (reads_skipBlanks c).trans ((walks_comment start).reads.trans ih)
  | case8 c start =>
    exact (reads_skipBlanks c).trans ((walks_advance start).reads.trans (.of_eq rfl rfl rfl))
  | case9 c start _ _ g => exact (reads_skipBlanks c).trans (walks_lexeme start g).reads

theorem reads_scan (c : Cursor) : c.Reads c.scan.1 := by
  unfold scan
  split
  · exact .of_eq rfl rfl rfl
  · dsimp only
    split
    · exact (reads_templateText c).trans (.of_eq rfl rfl rfl)
    · exact (reads_code c).trans (.of_eq rfl rfl rfl)

theorem reads_arrive (c : Cursor) : c.Reads c.arrive where
  offset_le := Nat.le_of_eq (arrive_offset c).symm
  options_eq := by
    obtain ⟨_, h⟩ := arrive_eq c
    rw [h]
  errors_le e he := (arrive_errors he).imp_right fun hle => by rwa [arrive_offset]

theorem reads_start (file : SourceFile) (options : ScanOptions) (glyphs : List Glyph) :
    Reads { file, options, rest := glyphs, inText := options.mixed }
      (start file options glyphs) := by
  unfold start
  dsimp only
  split
  · exact (reads_arrive _).trans ((walks_advance _).reads.trans (.of_eq rfl rfl rfl))
  · exact reads_arrive _

theorem start_options (file : SourceFile) (options : ScanOptions) (glyphs : List Glyph) :
    (start file options glyphs).options = options := (reads_start file options glyphs).options_eq

end Cursor

end TemplateScript
