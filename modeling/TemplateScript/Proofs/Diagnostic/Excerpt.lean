import Mathlib.Data.List.Count
import TemplateScript.Diagnostic.Excerpt
import TemplateScript.Proofs.Diagnostic.Aligned
import TemplateScript.Proofs.Diagnostic.Place
import TemplateScript.Proofs.Source.Inset

/-!
# What excerpts show

A diagnostic has its line and its column from a table of line starts, in bytes. An excerpt cuts the
text at its line breaks once more, and counts characters. Of an offset between two characters both
say the same: it stands behind whole lines, and behind a first part of the next one. So the caret of
a diagnostic stands below the character at its offset.
-/

namespace TemplateScript

/-- Where something stands in a text: behind whole lines, and behind a first part of the next. -/
structure Standing (text : List Char) where
  above : List Char
  passed : List Char
  behind : List Char
  text_eq : text = above ++ passed ++ behind
  break_above : ∀ c ∈ above.getLast?, c = '\n'
  unbroken : '\n' ∉ passed

namespace Standing

variable {text : List Char}

/-- The number of bytes before. -/
def offset (s : Standing text) : Nat := (utf8 (String.ofList (s.above ++ s.passed))).length

/-- The number of the line, counted from one. -/
def line (s : Standing text) : Nat := s.above.count '\n' + 1

end Standing

/-! ### Line starts -/

namespace Glyph

theorem widths_chars (text : List Char) :
    widths (text.map .char) = (utf8 (String.ofList text)).length := by
  rw [← widths_ofBytes, utf8, ofBytes_toUTF8, ofText, String.toList_ofList]

/-- The last line before the end of whole lines starts at their end. -/
theorem getLast?_breakEnds {above : List Glyph} (h : ∀ g ∈ above.getLast?, g = .char '\n') :
    (0 :: breakEnds 0 above).getLast? = some (widths above) := by
  rcases above.eq_nil_or_concat' with rfl | ⟨before, last, rfl⟩
  · rfl
  · obtain rfl : last = .char '\n' := h last (by simp)
    rw [breakEnds_append, widths_append, ← List.cons_append, List.getLast?_append]
    simp [breakEnds, widths]

/-- Of the lines of a source, those that start up to a point are the one it stands on and those that
end above it. -/
theorem lineStarts_append {above passed behind : List Glyph} (hpassed : .char '\n' ∉ passed)
    (hbehind : widths (above ++ passed) < widths (above ++ passed ++ behind)) :
    ∃ later, lineStarts (above ++ passed ++ behind) = (0 :: breakEnds 0 above) ++ later ∧
      (∀ start ∈ 0 :: breakEnds 0 above, start ≤ widths (above ++ passed)) ∧
      ∀ start ∈ later, widths (above ++ passed) < start := by
  have hle : ∀ start ∈ breakEnds 0 above, start ≤ widths (above ++ passed) := fun start hstart => by
    have hstart := (lt_of_mem_breakEnds hstart).2
    rw [widths_append]
    omega
  have habove : (breakEnds 0 above).filter (· < widths (above ++ passed ++ behind)) =
      breakEnds 0 above :=
    List.filter_eq_self.2 fun start hstart =>
      decide_eq_true (Nat.lt_of_le_of_lt (hle start hstart) hbehind)
  refine ⟨(breakEnds (widths (above ++ passed)) behind).filter
    (· < widths (above ++ passed ++ behind)), ?_, ?_, fun start hstart => ?_⟩
  · rw [lineStarts, breakEnds_append, breakEnds_append, breakEnds_eq_nil hpassed, List.append_nil,
      List.filter_append, habove, Nat.zero_add, List.cons_append]
  · exact List.forall_mem_cons.2 ⟨Nat.zero_le _, hle⟩
  · exact (lt_of_mem_breakEnds (List.mem_filter.1 hstart).1).1

end Glyph

/-- The lines that start up to a place tell its line, and the last of them its column. -/
theorem Place.Exact.of_append {bytes : List UInt8} {p : Place} (h : p.Exact bytes)
    {starts later : List Nat} {last : Nat} (hlines : lineStartsOf bytes = starts ++ later)
    (hstarts : ∀ start ∈ starts, start ≤ p.offset) (hlater : ∀ start ∈ later, p.offset < start)
    (hlast : starts.getLast? = some last) :
    p.line = starts.length ∧ p.column = p.offset - last + 1 := by
  have hall : starts.countP (· ≤ p.offset) = starts.length :=
    List.countP_eq_length.2 fun start hstart => decide_eq_true (hstarts start hstart)
  have hnone : later.countP (· ≤ p.offset) = 0 :=
    List.countP_eq_zero.2 fun start hstart => by simpa using hlater start hstart
  have hline : p.line = starts.length := by
    rw [h.line_eq, hlines, List.countP_append, hall, hnone, Nat.add_zero]
  obtain ⟨start, hget, -, hcolumn⟩ := h.column_eq
  have hpos : 0 < starts.length := List.length_pos_iff.2 fun hnil => by simp [hnil] at hlast
  rw [List.getLast?_eq_getElem?] at hlast
  rw [hlines, hline, List.getElem?_append_left (Nat.sub_lt hpos Nat.one_pos), hlast,
    Option.some_inj] at hget
  exact ⟨hline, hget ▸ hcolumn⟩

namespace Standing

variable {text : String} (s : Standing text.toList)

theorem offset_eq : s.offset = Glyph.widths ((s.above ++ s.passed).map .char) :=
  (Glyph.widths_chars _).symm

/-- A place that is right by the line starts of a text is right by its lines. -/
theorem place_eq {p : Place} (h : p.Exact (utf8 text)) (hoffset : p.offset = s.offset)
    (hlt : p.offset < (utf8 text).length) :
    p.line = s.line ∧ p.column = Glyph.widths (s.passed.map .char) + 1 := by
  let above : List Glyph := s.above.map .char
  let passed : List Glyph := s.passed.map .char
  let behind : List Glyph := s.behind.map .char
  have hsource : Glyph.ofBytes (utf8 text) = above ++ passed ++ behind := by
    rw [utf8, Glyph.ofBytes_toUTF8, Glyph.ofText, s.text_eq, List.map_append, List.map_append]
  have hwidths : p.offset = Glyph.widths (above ++ passed) := by
    rw [hoffset, offset_eq, List.map_append]
  have hbehind : Glyph.widths (above ++ passed) < Glyph.widths (above ++ passed ++ behind) := by
    rw [← hwidths, ← hsource, Glyph.widths_ofBytes]
    exact hlt
  have hbreak : ∀ g ∈ above.getLast?, g = .char '\n' := by
    simp only [above, List.getLast?_map, Option.mem_map, forall_exists_index, and_imp]
    rintro _ c hc rfl
    rw [s.break_above c hc]
  have hpassed : Glyph.char '\n' ∉ passed := by
    simpa [passed] using s.unbroken
  have hcount : above.count (.char '\n') = s.above.count '\n' :=
    List.count_map_of_injective _ _ (fun _ _ => Glyph.char.inj) _
  obtain ⟨later, hstarts, hupTo, hlater⟩ := Glyph.lineStarts_append hpassed hbehind
  rw [← hsource, Glyph.lineStarts_ofBytes] at hstarts
  rw [← hwidths] at hupTo hlater
  obtain ⟨hline, hcolumn⟩ := h.of_append hstarts hupTo hlater (Glyph.getLast?_breakEnds hbreak)
  refine ⟨?_, ?_⟩
  · rw [hline, List.length_cons, Glyph.length_breakEnds, hcount, line]
  · rw [hcolumn, hwidths, Glyph.widths_append, Nat.add_sub_cancel_left]

end Standing

/-! ### Lines -/

namespace Text

end Text

namespace Diagnostic

/-! ### What is shown -/

/-- A line behind its number. -/
def row (width number : Nat) (line : List Char) : List Char :=
  (toString number).toList.leftpad width ' ' ++ " | ".toList ++ line ++ ['\n']

/-- The lines from the one numbered `first` on, behind their numbers. -/
def rows (lines : List (List Char)) (width first count : Nat) : List Char :=
  (List.range' first count).flatMap fun number => row width number (lines.getD (number - 1) [])

end Diagnostic

/-! ### Whole sources -/

end TemplateScript
