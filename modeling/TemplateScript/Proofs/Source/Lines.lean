import Mathlib.Data.List.Sort
import TemplateScript.Proofs.Cursor.Reach

/-!
# Lines of a source

The lines of a source start at its beginning and behind each of its line breaks, but for one that
ends the source. While a source is read, the line table of its file holds those of them that start
up to the cursor, so a place up to the cursor is resolved as it will be when all is read.
-/

namespace TemplateScript

namespace Glyph

/-- The offsets at which the lines of a source start, in ascending order. -/
def lineStarts (source : List Glyph) : List Nat :=
  0 :: (breakEnds 0 source).filter (· < widths source)

/-- The number of the line on which an offset of a source stands, counted from one. -/
def lineOf (source : List Glyph) (offset : Nat) : Nat :=
  ((lineStarts source).takeWhile (· ≤ offset)).length

theorem lt_of_mem_breakEnds {offset start : Nat} {glyphs : List Glyph}
    (h : start ∈ breakEnds offset glyphs) : offset < start ∧ start ≤ offset + widths glyphs := by
  induction glyphs generalizing offset with
  | nil => simp [breakEnds] at h
  | cons g rest ih =>
    have hwidth := g.width_pos
    rcases List.mem_append.1 h with hbreak | hrest
    · split at hbreak
      · next hg =>
        rw [List.mem_singleton.1 hbreak, hg]
        simp only [widths, width_lineBreak]
        omega
      · cases hbreak
    · have := ih hrest
      simp only [widths]
      omega

theorem sorted_breakEnds (offset : Nat) (glyphs : List Glyph) :
    (breakEnds offset glyphs).Pairwise (· < ·) := by
  induction glyphs generalizing offset with
  | nil => exact .nil
  | cons g rest ih =>
    refine List.pairwise_append.2 ⟨by split <;> simp, ih _, fun a ha b hb => ?_⟩
    have hb := (lt_of_mem_breakEnds hb).1
    split at ha
    · next hg =>
      subst hg
      rw [List.mem_singleton.1 ha]
      exact hb
    · cases ha

end Glyph

namespace SourceFile

/-- The file has the size of a source, and its line table holds the lines that start in a first part
of the source. -/
structure Tabulates (f : SourceFile) (source read : List Glyph) : Prop where
  size_eq : f.size = Glyph.widths source
  lines_eq : f.lines = 0 :: (Glyph.breakEnds 0 read).filter (· < f.size)

@[simp] theorem addLine_size (f : SourceFile) (offset : Nat) :
    (f.addLine offset).size = f.size := by
  unfold addLine
  split <;> rfl

theorem addLine_name (f : SourceFile) (offset : Nat) : (f.addLine offset).name = f.name := by
  unfold addLine
  split <;> rfl

@[simp] theorem foldl_addLine_size (f : SourceFile) (starts : List Nat) :
    (starts.foldl addLine f).size = f.size := by
  induction starts generalizing f with
  | nil => rfl
  | cons start rest ih => rw [List.foldl_cons, ih, addLine_size]

/-- Lines that start further and further on are all recorded, if they start inside the file. -/
theorem foldl_addLine_lines (f : SourceFile) {starts : List Nat}
    (hsorted : starts.Pairwise (· < ·))
    (hafter : ∀ start ∈ starts, ∀ line ∈ f.lines, line < start) :
    (starts.foldl addLine f).lines = f.lines ++ starts.filter (· < f.size) := by
  induction starts generalizing f with
  | nil => simp
  | cons start rest ih =>
    obtain ⟨hstart, hrest⟩ := List.pairwise_cons.1 hsorted
    have hlast : f.lines.getLast?.all (· < start) = true := by
      simp only [Option.all_eq_true, decide_eq_true_eq]
      exact fun line hline => hafter start List.mem_cons_self line (List.mem_of_getLast? hline)
    by_cases hsize : start < f.size
    · have hadd : f.addLine start = { f with lines := f.lines ++ [start] } :=
        if_pos ⟨hlast, hsize⟩
      rw [List.foldl_cons, hadd, ih _ hrest]
      · simp [hsize]
      · intro next hnext line hline
        rcases List.mem_append.1 hline with hline | hline
        · exact hafter next (List.mem_cons_of_mem _ hnext) line hline
        · rw [List.mem_singleton.1 hline]
          exact hstart next hnext
    · have hadd : f.addLine start = f := if_neg fun h => hsize h.2
      rw [List.foldl_cons, hadd, ih _ hrest]
      · simp [hsize]
      · exact fun next hnext => hafter next (List.mem_cons_of_mem _ hnext)

end SourceFile

/-- What begins past a limit adds nothing to the part of a list before the limit. -/
private theorem takeWhile_append_of_none {limit : Nat} {starts more : List Nat}
    (h : ∀ start ∈ more, ¬ start ≤ limit) :
    (starts ++ more).takeWhile (· ≤ limit) = starts.takeWhile (· ≤ limit) := by
  induction starts with
  | nil =>
    cases more with
    | nil => rfl
    | cons start rest => simp [h start List.mem_cons_self]
  | cons start rest ih =>
    rw [List.cons_append, List.takeWhile_cons, List.takeWhile_cons, ih]

namespace Cursor

/-- The cursor stands somewhere in a source, and its file knows the lines that start up to there. -/
def InSource (source : List Glyph) (c : Cursor) : Prop :=
  ∃ read, source = read ++ c.rest ∧ c.offset = Glyph.widths read ∧ c.file.Tabulates source read

theorem InSource.reaches {source : List Glyph} {c later : Cursor} (h : c.InSource source)
    (k : c.Reaches later) : later.InSource source := by
  obtain ⟨before, hsource, hoffset, hfile⟩ := h
  obtain ⟨read, hread⟩ := k
  have hsize : later.file.size = c.file.size := by
    rw [hread.file_eq, SourceFile.foldl_addLine_size]
  refine ⟨before ++ read, ?_, ?_, ?_, ?_⟩
  · rw [hsource, hread.rest_eq, List.append_assoc]
  · rw [hread.offset_eq, hoffset, Glyph.widths_append]
  · rw [hsize, hfile.size_eq]
  · rw [hsize, hread.file_eq, SourceFile.foldl_addLine_lines _ (Glyph.sorted_breakEnds _ _),
      hfile.lines_eq, Glyph.breakEnds_append, hoffset]
    · simp
    · intro start hstart line hline
      have hstart := (Glyph.lt_of_mem_breakEnds hstart).1
      rw [hfile.lines_eq, List.mem_cons, List.mem_filter] at hline
      rcases hline with rfl | ⟨hline, -⟩
      · omega
      · have := (Glyph.lt_of_mem_breakEnds hline).2
        omega

/-- Of the lines of a source, those that start up to the cursor are in the line table. -/
theorem InSource.lines_takeWhile {source : List Glyph} {c : Cursor} (h : c.InSource source)
    {offset : Nat} (hoffset : offset ≤ c.offset) :
    c.file.lines.takeWhile (· ≤ offset) =
      (Glyph.lineStarts source).takeWhile (· ≤ offset) := by
  obtain ⟨read, hsource, hread, hfile⟩ := h
  have hstarts : Glyph.lineStarts source =
      c.file.lines ++ (Glyph.breakEnds c.offset c.rest).filter (· < c.file.size) := by
    rw [Glyph.lineStarts, ← hfile.size_eq, hfile.lines_eq]
    conv_lhs => rw [hsource]
    rw [Glyph.breakEnds_append, ← hread, List.filter_append]
    simp
  have hlater : ∀ start ∈ (Glyph.breakEnds c.offset c.rest).filter (· < c.file.size),
      ¬ start ≤ offset := by
    intro start hstart
    have := (Glyph.lt_of_mem_breakEnds (List.mem_filter.1 hstart).1).1
    omega
  rw [hstarts]
  exact (takeWhile_append_of_none hlater).symm

/-- Up to the cursor, lines are numbered as in the source. -/
theorem InSource.place_line {source : List Glyph} {c : Cursor} (h : c.InSource source)
    {offset : Nat} (hoffset : offset ≤ c.offset) :
    (c.file.place offset).line = Glyph.lineOf source offset := by
  unfold SourceFile.place Glyph.lineOf
  rw [← h.lines_takeWhile hoffset]
  dsimp only
  split
  · next hnone => simp [List.getLast?_eq_none_iff.1 hnone]
  · rfl

/-- A cursor at the start of a fresh file stands in its source. -/
theorem inSource_start {file : SourceFile} {options : ScanOptions} {source : List Glyph}
    (hsize : file.size = Glyph.widths source) (hlines : file.lines = [0]) :
    (start file options source).InSource source := by
  let c : Cursor := { file, options, rest := source, inText := options.mixed }
  have hc : c.InSource source := ⟨[], rfl, rfl, hsize, by simpa [Glyph.breakEnds] using hlines⟩
  refine hc.reaches ?_
  unfold start
  dsimp only
  split
  · exact (reaches_arrive c).trans ((reaches_advance _).trans (.of_eq rfl rfl rfl rfl))
  · exact reaches_arrive c

end Cursor

end TemplateScript
