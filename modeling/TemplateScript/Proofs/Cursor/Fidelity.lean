import TemplateScript.Proofs.Cursor.Tiling

/-!
# Tokens and the bytes of a source

Cutting a source into tokens loses no byte of it, invents none and moves none. A token's text is
what the source has at the token's position, tokens follow one another, and where all that can be a
token is one, only blanks lie between them.
-/

namespace TemplateScript

/-- The bytes of a text. -/
def utf8 (text : String) : List UInt8 := text.toUTF8.data.toList

/-- The blanks among the bytes. -/
def isAsciiSpace (b : UInt8) : Bool := b = 0x20 || b = 0x09 || b = 0x0A || b = 0x0C || b = 0x0D

namespace Glyph

/-- A byte offset of a source lies in one of its glyphs. -/
theorem exists_of_lt_widths {glyphs : List Glyph} {i : Nat} (h : i < widths glyphs) :
    ∃ before g after, glyphs = before ++ g :: after ∧ widths before ≤ i ∧
      i < widths before + g.width := by
  induction glyphs generalizing i with
  | nil => cases h
  | cons g rest ih =>
    by_cases hfirst : i < g.width
    · exact ⟨[], g, rest, rfl, Nat.zero_le _, by rw [widths]; omega⟩
    · rw [widths] at h
      obtain ⟨before, g', after, rfl, hle, hlt⟩ := ih (i := i - g.width) (by omega)
      exact ⟨g :: before, g', after, rfl, by rw [widths]; omega, by rw [widths]; omega⟩

theorem flatMap_bytes_ofText (text : String) : (ofText text).flatMap bytes = utf8 text := by
  rw [utf8, toUTF8_toList, ofText, List.flatMap_map]
  rfl

/-- A blank is one byte, which is a blank. -/
theorem bytes_of_isSpace {g : Glyph} (h : g.isSpace = true) :
    ∃ b, g.bytes = [b] ∧ isAsciiSpace b = true := by
  unfold isSpace at h
  simp only [Bool.or_eq_true, decide_eq_true_eq] at h
  obtain (((rfl | rfl) | rfl) | rfl) | rfl := h
  · exact ⟨0x20, rfl, rfl⟩
  · exact ⟨0x09, rfl, rfl⟩
  · exact ⟨0x0A, rfl, rfl⟩
  · exact ⟨0x0D, rfl, rfl⟩
  · exact ⟨0x0C, rfl, rfl⟩

end Glyph

namespace Tiles

variable {o : ScanOptions} {before glyphs : List Glyph} {tokens : List Token}

/-- The text of a token is what the source has at its position. -/
theorem spells (h : Tiles o (Glyph.widths before) glyphs tokens) {t : Token} (ht : t ∈ tokens)
    (hwritten : t.isWritten = true) :
    utf8 t.text <+: ((before ++ glyphs).flatMap Glyph.bytes).drop t.pos := by
  obtain ⟨skipped, after, hglyphs, hpos⟩ := h.stands ht
  have hlength : t.pos = ((before ++ skipped).flatMap Glyph.bytes).length := by
    rw [hpos, Glyph.length_flatMap_bytes, Glyph.widths_append]
  have htext : t.glyphs.flatMap Glyph.bytes = utf8 t.text := by
    rw [Token.glyphs, if_pos hwritten, Glyph.flatMap_bytes_ofText]
  refine ⟨after.flatMap Glyph.bytes, ?_⟩
  have hsplit : (before ++ glyphs).flatMap Glyph.bytes =
      (before ++ skipped).flatMap Glyph.bytes ++ (utf8 t.text ++ after.flatMap Glyph.bytes) := by
    rw [hglyphs, ← htext]
    simp only [List.flatMap_append, List.append_assoc]
  rw [hsplit, hlength, List.drop_left]

/-- Where only blanks are left out, a byte that no token covers is one. -/
theorem covers_byte (h : Tiles o (Glyph.widths before) glyphs tokens)
    (hcomments : o.comments = true) (hpragmas : o.noPragma = true) {i : Nat} {b : UInt8}
    (hi : Glyph.widths before ≤ i)
    (hb : ((before ++ glyphs).flatMap Glyph.bytes)[i]? = some b) :
    (∃ t ∈ tokens, t.pos ≤ i ∧ i < t.stop) ∨ isAsciiSpace b = true := by
  have hlt : i - Glyph.widths before < Glyph.widths glyphs := by
    have hlt := (List.getElem?_eq_some_iff.1 hb).1
    rw [Glyph.length_flatMap_bytes, Glyph.widths_append] at hlt
    omega
  obtain ⟨skipped, g, after, hglyphs, hle, hwidth⟩ := Glyph.exists_of_lt_widths hlt
  rcases h.covers hglyphs with hgap | ⟨t, ht, hpos, hstop⟩
  · have hspace : g.isSpace = true := by
      rcases hgap with hspace | hoff | hoff
      · exact hspace
      · rw [hcomments] at hoff
        cases hoff
      · rw [hpragmas] at hoff
        cases hoff
    obtain ⟨b', hbytes, hspace⟩ := Glyph.bytes_of_isSpace hspace
    have hone : g.width = 1 := by
      rw [← Glyph.length_bytes, hbytes]
      rfl
    have hindex : i = ((before ++ skipped).flatMap Glyph.bytes).length := by
      rw [Glyph.length_flatMap_bytes, Glyph.widths_append]
      omega
    have hsplit : (before ++ glyphs).flatMap Glyph.bytes =
        (before ++ skipped).flatMap Glyph.bytes ++ (b' :: after.flatMap Glyph.bytes) := by
      rw [hglyphs, ← List.append_assoc, List.flatMap_append, List.flatMap_cons, hbytes]
      rfl
    rw [hsplit, hindex, List.getElem?_append_right (Nat.le_refl _), Nat.sub_self] at hb
    obtain rfl := Option.some.inj hb
    exact .inr hspace
  · exact .inl ⟨t, ht, Nat.le_trans hpos (by omega), Nat.lt_of_lt_of_le (by omega) hstop⟩

end Tiles

namespace Cursor

/-- The bytes of the mark that may stand at the start of a file. -/
def byteOrderMarkBytes : List UInt8 := [0xEF, 0xBB, 0xBF]

/-- Where a text starts, all that is left is made of characters. -/
theorem isText_start (file : SourceFile) (options : ScanOptions) (text : String) :
    (start file options (Glyph.ofBytes (utf8 text))).IsText := by
  obtain ⟨mark, hmark, -⟩ := start_rest file options (Glyph.ofBytes (utf8 text))
  intro g hg
  have hmem : g ∈ Glyph.ofText text := by
    rw [← show Glyph.ofBytes (utf8 text) = Glyph.ofText text from Glyph.ofBytes_toUTF8 text, hmark]
    exact List.mem_append_right _ hg
  obtain ⟨ch, -, rfl⟩ := List.mem_map.1 hmem
  exact ⟨ch, rfl⟩

/-- The tokens of a source, which is a text, up to the end of the file. A token that stands in the
source has the text that the source has at its position; none begins before an earlier one has
ended; and if comments are tokens and there are no pragma lines, every byte that no token covers is
a blank or belongs to a byte order mark at the start. -/
theorem scanAll_faithful (file : SourceFile) (options : ScanOptions) (text : String)
    (hsize : file.size = text.utf8ByteSize) :
    ∃ c, start? file options (Glyph.ofBytes (utf8 text)) = .ok c ∧
      (∃ before e, c.scanAll.2 = before ++ [e] ∧ e.kind = .eof ∧ ∀ t ∈ before, t.kind ≠ .eof) ∧
      (∀ t ∈ c.scanAll.2, t.isWritten = true → utf8 t.text <+: (utf8 text).drop t.pos) ∧
      (c.scanAll.2.Pairwise fun t u => t.stop ≤ u.pos) ∧
      (options.comments = true → options.noPragma = true →
        ∀ i b, (utf8 text)[i]? = some b →
          (∃ t ∈ c.scanAll.2, t.pos ≤ i ∧ i < t.stop) ∨ isAsciiSpace b = true ∨
            (i < 3 ∧ byteOrderMarkBytes <+: utf8 text)) := by
  let c := start file options (Glyph.ofBytes (utf8 text))
  have hglyphs : Glyph.ofBytes (utf8 text) = Glyph.ofText text := Glyph.ofBytes_toUTF8 text
  have hwidths : Glyph.widths (Glyph.ofBytes (utf8 text)) = text.utf8ByteSize :=
    Glyph.widths_ofBytes (utf8 text)
  obtain ⟨mark, hmark, hoffset, hmarks⟩ := start_rest file options (Glyph.ofBytes (utf8 text))
  have htext : c.IsText := by
    intro g hg
    have hmem : g ∈ Glyph.ofText text := by
      rw [← hglyphs, hmark]
      exact List.mem_append_right _ hg
    obtain ⟨ch, -, rfl⟩ := List.mem_map.1 hmem
    exact ⟨ch, rfl⟩
  have hpool : c.PoolInner := poolInner_start file options _
  obtain ⟨tokens, htokens, ⟨read, hread, -, htiles⟩, hlast⟩ :=
    cuts_scanToEnd (start_options file options _) htext hpool (weight_lt_bound c)
  rw [start_pool, List.nil_append] at htokens
  rw [scanToEnd_rest hpool (weight_lt_bound c), List.append_nil] at hread
  rw [hoffset] at htiles
  have hbytes : utf8 text = (mark ++ read).flatMap Glyph.bytes := by
    rw [← Glyph.flatMap_bytes_ofText, ← hglyphs, hmark, hread]
  refine ⟨c, if_pos (hsize.trans hwidths.symm), ?_⟩
  rw [show c.scanAll.2 = tokens from htokens]
  refine ⟨hlast, fun t ht hwritten => ?_, htiles.ordered, fun hcomments hpragmas i b hb => ?_⟩
  · rw [hbytes]
    exact htiles.spells ht hwritten
  · by_cases hi : Glyph.widths mark ≤ i
    · rw [hbytes] at hb
      exact (htiles.covers_byte hcomments hpragmas hi hb).imp_right .inl
    · rcases hmarks with rfl | rfl
      · exact absurd (Nat.zero_le i) hi
      · refine .inr (.inr ⟨Nat.lt_of_not_le hi, ?_⟩)
        rw [hbytes, List.flatMap_append]
        exact List.prefix_append _ _

/-- A template with a comment, whose text before and behind the code loses its blanks. -/
theorem scanAll_faithful_template : ∃ c,
    start? ⟨"page", 1, 20, [0]⟩ { comments := true, mixed := true, noPragma := true }
      (Glyph.ofBytes (utf8 "é #\x7b- x /* y */ -\x7d ")) = .ok c ∧
    ∀ i b, (utf8 "é #\x7b- x /* y */ -\x7d ")[i]? = some b →
      (∃ t ∈ c.scanAll.2, t.pos ≤ i ∧ i < t.stop) ∨ isAsciiSpace b = true ∨
        (i < 3 ∧ byteOrderMarkBytes <+: utf8 "é #\x7b- x /* y */ -\x7d ") := by
  obtain ⟨c, hstart, -, -, -, hcovers⟩ := scanAll_faithful ⟨"page", 1, 20, [0]⟩
    { comments := true, mixed := true, noPragma := true } "é #\x7b- x /* y */ -\x7d " (by decide)
  exact ⟨c, hstart, hcovers rfl rfl⟩

end Cursor

end TemplateScript
