import Mathlib.Data.List.TakeWhile
import TemplateScript.Proofs.Source.Lines
import TemplateScript.Proofs.Text.Glyph

/-!
# Places in a source

The place of an offset by all lines of a source is the right one: its line is the number of lines
that start up to there, and its column counts the bytes of the last of them. Where lines start is
told by the bytes of a source alone, since the byte of a line break is part of no other character.
-/

namespace TemplateScript

/-- The offsets at which the lines of a source start: its beginning, and behind each line break but
one that ends it. -/
def lineStartsOf (bytes : List UInt8) : List Nat :=
  0 :: ((List.range bytes.length).filter fun i =>
    bytes[i]? = some 0x0A && i + 1 < bytes.length).map (· + 1)

/-- The line and the column of a place are those of its offset in a source. -/
structure Place.Exact (bytes : List UInt8) (p : Place) : Prop where
  offset_le : p.offset ≤ bytes.length
  line_eq : p.line = (lineStartsOf bytes).countP (· ≤ p.offset)
  column_eq : ∃ start, (lineStartsOf bytes)[p.line - 1]? = some start ∧ start ≤ p.offset ∧
    p.column = p.offset - start + 1

namespace Glyph

/-! ### Line breaks -/

theorem breakEnds_eq_nil {glyphs : List Glyph} (h : .char '\n' ∉ glyphs) (offset : Nat) :
    breakEnds offset glyphs = [] := by
  induction glyphs generalizing offset with
  | nil => rfl
  | cons g rest ih =>
    rw [List.mem_cons, not_or] at h
    rw [breakEnds, if_neg (Ne.symm h.1), ih h.2, List.append_nil]

/-- A byte that is a character of its own is read as one. -/
theorem le_of_byte_mem {source : List UInt8} {b : UInt8} (h : .byte b ∈ ofBytes source) :
    0x80 ≤ b := by
  induction hn : source.length using Nat.strongRecOn generalizing source with
  | ind n ih =>
    cases source with
    | nil => cases h
    | cons a rest =>
      cases hhead : head? (a :: rest) with
      | none =>
        rw [ofBytes_byte hhead] at h
        rcases List.mem_cons.1 h with hb | hmem
        · obtain rfl := Glyph.byte.inj hb
          by_contra hlt
          have hlead : Lead.of? b = some ⟨0, 0x80, 0xBF, b.toNat⟩ := if_pos (UInt8.not_le.1 hlt)
          simp [head?, hlead, continuations_zero] at hhead
        · exact ih rest.length (by rw [← hn]; simp) hmem rfl
      | some c =>
        rw [ofBytes_char hhead] at h
        rcases List.mem_cons.1 h with hb | hmem
        · cases hb
        · refine ih _ ?_ hmem rfl
          have hpos := c.utf8Size_pos
          rw [← hn, List.length_drop, List.length_cons]
          omega

theorem mem_bytes_lineBreak {source : List UInt8} {g : Glyph} (hg : g ∈ ofBytes source) :
    0x0A ∈ g.bytes ↔ g = .char '\n' := by
  cases g with
  | char ch => exact mem_utf8EncodeChar.trans ⟨congrArg _, fun h => Glyph.char.inj h⟩
  | byte b =>
    refine ⟨fun hb => ?_, fun h => nomatch h⟩
    obtain rfl := List.mem_singleton.1 hb
    exact absurd (le_of_byte_mem hg) (by decide)

/-- The line breaks among the bytes of a run are those among its glyphs. -/
theorem breakEnds_eq {glyphs : List Glyph} (h : ∀ g ∈ glyphs, 0x0A ∈ g.bytes ↔ g = .char '\n')
    (offset : Nat) :
    breakEnds offset glyphs =
      ((List.range (widths glyphs)).filter fun i => (glyphs.flatMap bytes)[i]? = some 0x0A).map
        (offset + · + 1) := by
  induction glyphs generalizing offset with
  | nil => rfl
  | cons g rest ih =>
    obtain ⟨hg, hrest⟩ := List.forall_mem_cons.1 h
    have hwidth : g.width = g.bytes.length := (length_bytes g).symm
    have hsplit : List.range (widths (g :: rest)) =
        List.range g.width ++ (List.range (widths rest)).map (g.width + ·) := List.range_add
    -- The bytes of the first glyph come first, and the others are counted from behind it.
    have hfirst : (List.range g.width).filter
        (fun i => (g.bytes ++ rest.flatMap bytes)[i]? = some 0x0A) =
          if g = .char '\n' then [0] else [] := by
      split
      · next hbreak =>
        subst hbreak
        rfl
      · next hother =>
        refine List.filter_eq_nil_iff.2 fun i hi hbyte => hother (hg.1 ?_)
        rw [List.mem_range, hwidth] at hi
        rw [decide_eq_true_eq, List.getElem?_append_left hi] at hbyte
        exact List.mem_of_getElem? hbyte
    have hothers : ((List.range (widths rest)).map (g.width + ·)).filter
        (fun i => (g.bytes ++ rest.flatMap bytes)[i]? = some 0x0A) =
          ((List.range (widths rest)).filter
            fun i => (rest.flatMap bytes)[i]? = some 0x0A).map (g.width + ·) := by
      rw [List.filter_map]
      refine congrArg _ (List.filter_congr fun i _ => ?_)
      rw [Function.comp_apply, hwidth, List.getElem?_append_right (Nat.le_add_right ..),
        Nat.add_sub_cancel_left]
    rw [breakEnds, ih hrest, hsplit, List.filter_append, List.map_append, List.flatMap_cons, hfirst,
      hothers, List.map_map]
    congr 1
    · split <;> rfl
    · exact List.map_congr_left fun i _ => by simp only [Function.comp_apply]; omega

/-- Where lines start is told by the bytes of a source. -/
theorem lineStarts_ofBytes (source : List UInt8) :
    lineStarts (ofBytes source) = lineStartsOf source := by
  have hwidths : widths (ofBytes source) = source.length := by
    rw [← length_flatMap_bytes, flatMap_bytes_ofBytes]
  rw [lineStarts, lineStartsOf, breakEnds_eq (fun g hg => mem_bytes_lineBreak hg), hwidths,
    flatMap_bytes_ofBytes, List.filter_map, List.filter_filter]
  simp only [Function.comp_apply, Nat.zero_add, Bool.and_comm]

/-! ### Places -/

/-- The place of an offset by all lines of a source. -/
def place (name : String) (source : List Glyph) (offset : Nat) : Place :=
  SourceFile.place { name, base := 0, size := widths source, lines := lineStarts source } offset

theorem sorted_lineStarts (source : List Glyph) : (lineStarts source).Pairwise (· < ·) :=
  List.pairwise_cons.2 ⟨fun _ hstart => (lt_of_mem_breakEnds (List.mem_of_mem_filter hstart)).1,
    (sorted_breakEnds 0 source).filter _⟩

/-- In ascending order, the first numbers up to a bound are all of them. -/
theorem length_takeWhile_le {starts : List Nat} (h : starts.Pairwise (· < ·)) (bound : Nat) :
    (starts.takeWhile (· ≤ bound)).length = starts.countP (· ≤ bound) := by
  induction starts with
  | nil => rfl
  | cons start rest ih =>
    obtain ⟨hstart, hrest⟩ := List.pairwise_cons.1 h
    by_cases hbound : start ≤ bound
    · simp [hbound, ih hrest]
    · have hnone : rest.countP (· ≤ bound) = 0 :=
        List.countP_eq_zero.2 fun next hnext => by simpa using by have := hstart next hnext; omega
      simp [hbound, hnone]

/-- By all lines of a source, every offset in it has the right line and the right column. -/
theorem place_exact (name : String) {source : List UInt8} {offset : Nat}
    (h : offset ≤ source.length) : (place name (ofBytes source) offset).Exact source := by
  let starts := lineStarts (ofBytes source)
  let started := starts.takeWhile (· ≤ offset)
  have hstarted : started ≠ [] := by simp [started, starts, lineStarts]
  have hplace : place name (ofBytes source) offset =
      ⟨name, offset, started.length, offset - started.getLast hstarted + 1⟩ := by
    unfold place SourceFile.place
    dsimp only
    rw [List.getLast?_eq_some_getLast hstarted]
  have hlast : starts[started.length - 1]? = some (started.getLast hstarted) := by
    have hpos := List.length_pos_iff.2 hstarted
    rw [← List.takeWhile_append_dropWhile (p := (· ≤ offset)) (l := starts),
      List.getElem?_append_left (Nat.sub_lt hpos Nat.one_pos), List.getLast_eq_getElem,
      List.getElem?_eq_getElem]
  have hle : started.getLast hstarted ≤ offset :=
    of_decide_eq_true (List.mem_takeWhile_imp (p := fun start => decide (start ≤ offset))
      (List.getLast_mem hstarted))
  rw [hplace]
  refine ⟨h, ?_, _, ?_, hle, rfl⟩
  · rw [← lineStarts_ofBytes]
    exact length_takeWhile_le (sorted_lineStarts _) offset
  · rw [← lineStarts_ofBytes]
    exact hlast

end Glyph

end TemplateScript
