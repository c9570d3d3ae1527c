import TemplateScript.Proofs.Source.Lines

/-!
# Sources inside longer ones

A source may stand inside a longer one, with a line break behind it, or nothing. What is read of it
there is what is read of it alone, a fixed number of bytes and lines further on.
-/

namespace TemplateScript

namespace Glyph

theorem breakEnds_add (offset n : Nat) (glyphs : List Glyph) :
    breakEnds (offset + n) glyphs = (breakEnds offset glyphs).map (· + n) := by
  induction glyphs generalizing offset with
  | nil => rfl
  | cons g rest ih =>
    rw [breakEnds, breakEnds, List.map_append, ← ih, Nat.add_right_comm offset n g.width]
    split
    · rw [List.map_singleton, Nat.add_right_comm]
    · rfl

theorem length_breakEnds (offset : Nat) (glyphs : List Glyph) :
    (breakEnds offset glyphs).length = glyphs.count (.char '\n') := by
  induction glyphs generalizing offset with
  | nil => rfl
  | cons g rest ih =>
    rw [breakEnds, List.length_append, ih, List.count_cons]
    by_cases hg : g = .char '\n'
    · simp [hg, Nat.add_comm]
    · simp [hg]

theorem lineStarts_sorted (source : List Glyph) : (lineStarts source).Pairwise (· < ·) := by
  refine List.pairwise_cons.2 ⟨fun start hstart => ?_, (sorted_breakEnds _ _).filter _⟩
  exact (lt_of_mem_breakEnds (List.mem_filter.1 hstart).1).1

private theorem takeWhile_eq_filter {limit : Nat} {starts : List Nat}
    (hsorted : starts.Pairwise (· < ·)) :
    starts.takeWhile (· ≤ limit) = starts.filter (· ≤ limit) := by
  induction starts with
  | nil => rfl
  | cons start rest ih =>
    obtain ⟨hstart, hrest⟩ := List.pairwise_cons.1 hsorted
    by_cases hlimit : start ≤ limit
    · rw [List.takeWhile_cons_of_pos (by simpa using hlimit), ih hrest,
        List.filter_cons_of_pos (by simpa using hlimit)]
    · rw [List.takeWhile_cons_of_neg (by simpa using hlimit), eq_comm, List.filter_eq_nil_iff]
      intro next hnext
      rcases List.mem_cons.1 hnext with rfl | hnext
      · simpa using hlimit
      · have := hstart next hnext
        simp only [decide_eq_true_eq]
        omega

/-- The line of an offset inside a source, by the line breaks before it. -/
theorem lineOf_eq {source : List Glyph} {offset : Nat} (h : offset < widths source) :
    lineOf source offset = ((breakEnds 0 source).filter (· ≤ offset)).length + 1 := by
  have hfilter : ((breakEnds 0 source).filter (· < widths source)).filter (· ≤ offset) =
      (breakEnds 0 source).filter (· ≤ offset) := by
    rw [List.filter_filter]
    refine List.filter_congr fun start _ => ?_
    simp only [Bool.and_eq_left_iff_imp, decide_eq_true_eq]
    omega
  rw [lineOf, takeWhile_eq_filter (lineStarts_sorted source), lineStarts,
    List.filter_cons_of_pos (by simp), List.length_cons, hfilter]

end Glyph

/-- A source set into a longer one. A line break stands behind it, or nothing; and a source with
nothing behind it is not empty and begins a line. What stands behind the line break is fit to begin
a source. -/
structure Inset where
  before : List Glyph
  source : List Glyph
  after : List Glyph
  break_after : ∀ g ∈ after.head?, g = .char '\n'
  fit_after : ∀ g ∈ after.tail.head?, ∃ c, g = .char c ∧ c ≠ Cursor.byteOrderMark
  break_before : after = [] → source ≠ [] ∧ ∃ lines, before = lines ++ [.char '\n']

namespace Inset

variable (i : Inset)

/-- The longer source. -/
def whole : List Glyph := i.before ++ i.source ++ i.after

/-- How many bytes further on the longer source has what the inner one has. -/
def gap : Nat := Glyph.widths i.before

/-- How many lines further on. -/
def lines : Nat := i.before.count (.char '\n')

theorem widths_whole :
    Glyph.widths i.whole = i.gap + Glyph.widths i.source + Glyph.widths i.after := by
  rw [whole, Glyph.widths_append, Glyph.widths_append, gap]

theorem breakEnds_whole :
    Glyph.breakEnds 0 i.whole =
      Glyph.breakEnds 0 i.before ++ (Glyph.breakEnds 0 i.source).map (· + i.gap) ++
        Glyph.breakEnds (i.gap + Glyph.widths i.source) i.after := by
  rw [whole, Glyph.breakEnds_append, Glyph.breakEnds_append, Glyph.breakEnds_add,
    Glyph.widths_append, Nat.zero_add, gap]

/-- Lines inside the inner source are numbered further on in the longer one. -/
theorem lineOf_whole {offset : Nat} (h : offset < Glyph.widths i.source) :
    Glyph.lineOf i.whole (offset + i.gap) = Glyph.lineOf i.source offset + i.lines := by
  have hwhole := i.widths_whole
  have hbefore : (Glyph.breakEnds 0 i.before).filter (· ≤ offset + i.gap) =
      Glyph.breakEnds 0 i.before := by
    refine List.filter_eq_self.2 fun start hstart => ?_
    have := (Glyph.lt_of_mem_breakEnds hstart).2
    rw [decide_eq_true_eq, gap]
    omega
  have hafter : (Glyph.breakEnds (i.gap + Glyph.widths i.source) i.after).filter
      (· ≤ offset + i.gap) = [] := by
    refine List.filter_eq_nil_iff.2 fun start hstart => ?_
    have := (Glyph.lt_of_mem_breakEnds hstart).1
    simp only [decide_eq_true_eq]
    omega
  have hsource : ((Glyph.breakEnds 0 i.source).map (· + i.gap)).filter (· ≤ offset + i.gap) =
      ((Glyph.breakEnds 0 i.source).filter (· ≤ offset)).map (· + i.gap) := by
    rw [List.filter_map]
    refine congrArg _ (List.filter_congr fun start _ => ?_)
    simp
  rw [Glyph.lineOf_eq h, Glyph.lineOf_eq (by omega), breakEnds_whole, List.filter_append,
    List.filter_append, hbefore, hafter, hsource, List.append_nil, List.length_append,
    List.length_map, Glyph.length_breakEnds, lines]
  omega

end Inset

/-- A place further on. -/
def Place.shift (n lines : Nat) (p : Place) : Place :=
  { p with offset := p.offset + n, line := p.line + lines }

namespace Inset

variable {i : Inset} {c₁ c₂ : Cursor}

/-- At the same point, the longer source's line table holds the lines before the inner source, and
then those of the inner one. -/
theorem fileLines_eq (hafter : i.after = []) (h₁ : c₁.InSource i.whole)
    (h₂ : c₂.InSource i.source) (hrest : c₁.rest = c₂.rest) :
    ∃ before, before.length = i.lines ∧ (∀ start ∈ before, start ≤ i.gap) ∧
      c₁.file.lines = before ++ c₂.file.lines.map (· + i.gap) := by
  obtain ⟨hsource, text, htext⟩ := i.break_before hafter
  obtain ⟨read₁, hread₁, -, hfile₁⟩ := h₁
  obtain ⟨read₂, hread₂, -, hfile₂⟩ := h₂
  have hread : read₁ = i.before ++ read₂ := by
    have hwhole : read₁ ++ c₁.rest = i.before ++ read₂ ++ c₁.rest := by
      rw [← hread₁, whole, hafter, List.append_nil, hread₂, hrest, List.append_assoc]
    exact List.append_cancel_right hwhole
  have hgap : i.gap = Glyph.widths text + 1 := by
    rw [gap, htext, Glyph.widths_append]
    rfl
  have hpos : 0 < Glyph.widths i.source := by
    obtain ⟨g, rest, hsource⟩ := List.exists_cons_of_ne_nil hsource
    rw [hsource, Glyph.widths]
    exact Nat.add_pos_left g.width_pos _
  have hsize : c₁.file.size = Glyph.widths i.source + i.gap := by
    rw [hfile₁.size_eq, widths_whole, hafter, Glyph.widths, Nat.add_zero, Nat.add_comm]
  have hbefore : Glyph.breakEnds 0 i.before = Glyph.breakEnds 0 text ++ [i.gap] := by
    rw [htext, Glyph.breakEnds_append, Nat.zero_add, hgap]
    rfl
  have hle : ∀ start ∈ Glyph.breakEnds 0 text, start < i.gap := fun start hstart => by
    have := (Glyph.lt_of_mem_breakEnds hstart).2
    omega
  refine ⟨0 :: Glyph.breakEnds 0 text, ?_, ?_, ?_⟩
  · rw [List.length_cons, Glyph.length_breakEnds, lines, htext, List.count_append]
    rfl
  · intro start hstart
    rcases List.mem_cons.1 hstart with rfl | hstart
    · exact Nat.zero_le _
    · exact Nat.le_of_lt (hle start hstart)
  · have hinner : ((Glyph.breakEnds 0 read₂).map (· + i.gap)).filter (· < c₁.file.size) =
        ((Glyph.breakEnds 0 read₂).filter (· < c₂.file.size)).map (· + i.gap) := by
      rw [List.filter_map, hsize, hfile₂.size_eq]
      refine congrArg _ (List.filter_congr fun start _ => ?_)
      simp
    have houter : (Glyph.breakEnds 0 text ++ [i.gap]).filter (· < c₁.file.size) =
        Glyph.breakEnds 0 text ++ [i.gap] := by
      refine List.filter_eq_self.2 fun start hstart => ?_
      rw [decide_eq_true_eq, hsize]
      rcases List.mem_append.1 hstart with hstart | hstart
      · have := hle start hstart
        omega
      · rw [List.mem_singleton.1 hstart]
        omega
    rw [hfile₁.lines_eq, hfile₂.lines_eq, hread, Glyph.breakEnds_append, ← gap, Glyph.breakEnds_add,
      hbefore, List.filter_append, houter, hinner]
    simp

theorem place_shift (hafter : i.after = []) (h₁ : c₁.InSource i.whole)
    (h₂ : c₂.InSource i.source) (hrest : c₁.rest = c₂.rest)
    (hname : c₁.file.name = c₂.file.name) (offset : Nat) :
    c₁.file.place (offset + i.gap) = (c₂.file.place offset).shift i.gap i.lines := by
  obtain ⟨before, hlength, hbefore, hlines⟩ := fileLines_eq hafter h₁ h₂ hrest
  obtain ⟨_, -, -, hfile₂⟩ := h₂
  have htake : c₁.file.lines.takeWhile (· ≤ offset + i.gap) =
      before ++ (c₂.file.lines.takeWhile (· ≤ offset)).map (· + i.gap) := by
    rw [hlines, List.takeWhile_append_of_pos fun start hstart => ?_, List.takeWhile_map]
    · simp [Function.comp_def]
    · have := hbefore start hstart
      simp only [decide_eq_true_eq]
      omega
  obtain ⟨start, hstart⟩ :
      ∃ start, (c₂.file.lines.takeWhile (· ≤ offset)).getLast? = some start := by
    rw [hfile₂.lines_eq, List.takeWhile_cons_of_pos (by simp)]
    exact ⟨_, List.getLast?_cons⟩
  have hlast : (before ++ (c₂.file.lines.takeWhile (· ≤ offset)).map (· + i.gap)).getLast? =
      some (start + i.gap) := by
    rw [List.getLast?_append, List.getLast?_map, hstart]
    rfl
  unfold SourceFile.place
  rw [htake]
  simp only [hstart, hlast, Place.shift, hname, List.length_append, List.length_map, hlength]
  congr 1 <;> omega

end Inset

end TemplateScript
