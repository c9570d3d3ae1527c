import Mathlib.Data.List.TakeWhile
import TemplateScript.Proofs.Grammar.Reads
import TemplateScript.Proofs.Source.Inset

/-!
# Tokens and their lines

Where every line break of a source is a token, the tokens from one on tell the line on which it
stands: behind it there are as many line breaks as there are tokens that stand for one. So tokens
with no such token between them stand on one line, for whoever looks their lines up.
-/

namespace TemplateScript

/-- The token of a line break that ends a statement. -/
def Token.Face.lineBreak : Token.Face := ⟨.semicolon, "\n"⟩

/-- The kinds of tokens that may stand for the end of a line or of the source. -/
def Token.Kind.lineEnds : List Token.Kind := [.semicolon, .eof]

namespace Glyph

variable {source read rest : List Glyph}

/-- The line on which the rest of a source begins, by the line breaks before it. -/
theorem lineOf_append (hrest : rest ≠ []) :
    lineOf (read ++ rest) (widths read) = read.count (.char '\n') + 1 := by
  have hpos : 0 < widths rest := by
    cases rest with
    | nil => exact absurd rfl hrest
    | cons g rest => exact Nat.lt_of_lt_of_le g.width_pos (Nat.le_add_right ..)
  have hread : (breakEnds 0 read).filter (· ≤ widths read) = breakEnds 0 read := by
    refine List.filter_eq_self.2 fun start hstart => ?_
    have hend := (lt_of_mem_breakEnds hstart).2
    rw [decide_eq_true_eq]
    omega
  have hnone : (breakEnds (0 + widths read) rest).filter (· ≤ widths read) = [] := by
    refine List.filter_eq_nil_iff.2 fun start hstart => ?_
    have hbegin := (lt_of_mem_breakEnds hstart).1
    rw [decide_eq_true_eq]
    omega
  rw [lineOf_eq (by rw [widths_append]; omega), breakEnds_append, List.filter_append, hread, hnone,
    List.append_nil, length_breakEnds]

theorem lineOf_mono {offset other : Nat} (h : offset ≤ other) :
    lineOf source offset ≤ lineOf source other := by
  have hboth : ((lineStarts source).takeWhile (· ≤ other)).takeWhile (· ≤ offset) =
      (lineStarts source).takeWhile (· ≤ offset) := by
    rw [List.takeWhile_takeWhile]
    congr 1
    funext start
    rw [decide_eq_decide, decide_eq_true_eq, decide_eq_true_eq]
    omega
  rw [lineOf, ← hboth]
  exact (List.takeWhile_prefix _).length_le

/-- An offset stands on the line that is left to it by those that end with the tokens. -/
def OnLine (source : List Glyph) (faces : List Token.Face) (offset : Nat) : Prop :=
  lineOf source offset + faces.count .lineBreak = source.count (.char '\n') + 1

/-- Before equal numbers of line breaks, offsets stand on one line. -/
theorem OnLine.lineOf_eq {faces more : List Token.Face} {offset other : Nat}
    (h : OnLine source faces offset) (hother : OnLine source more other)
    (hcount : faces.count .lineBreak = more.count .lineBreak) :
    lineOf source offset = lineOf source other := by
  unfold OnLine at h hother
  omega

end Glyph

/-- An offset past the cursor is on the line of one before it if it is so in the source. -/
theorem Cursor.InSource.place_line_of_eq {source : List Glyph} {c : Cursor} (h : c.InSource source)
    {offset other : Nat} (hoffset : offset ≤ c.offset)
    (hline : Glyph.lineOf source other = Glyph.lineOf source offset) :
    (c.file.place other).line = Glyph.lineOf source other := by
  rcases Nat.le_total other c.offset with hother | hother
  · exact h.place_line hother
  -- All lines in the table start before the cursor, so the other offset is on the last of them.
  have hall {limit : Nat} (hlimit : c.offset ≤ limit) :
      c.file.lines.takeWhile (· ≤ limit) = c.file.lines := by
    obtain ⟨read, -, hread, hfile⟩ := h
    refine List.takeWhile_eq_self_iff.2 fun start hstart => ?_
    rw [decide_eq_true_eq]
    rw [hfile.lines_eq] at hstart
    rcases List.mem_cons.1 hstart with rfl | hstart
    · exact Nat.zero_le _
    · have hend := (Glyph.lt_of_mem_breakEnds (List.mem_filter.1 hstart).1).2
      omega
  have hlast : (c.file.place other).line = (c.file.place c.offset).line := by
    unfold SourceFile.place
    rw [hall hother, hall (Nat.le_refl _)]
    dsimp only
    split <;> rfl
  have hbefore : Glyph.lineOf source offset ≤ Glyph.lineOf source c.offset :=
    Glyph.lineOf_mono hoffset
  have hafter : Glyph.lineOf source c.offset ≤ Glyph.lineOf source other :=
    Glyph.lineOf_mono hother
  rw [hlast, h.place_line (Nat.le_refl _)]
  omega

open Glyph in
/-- Every line break that is left of the source is one of the tokens that are left. -/
def Token.Outlook.lines (source : List Glyph) : Token.Outlook := fun faces pos c =>
  c.InSource source ∧ ∀ f ∈ faces.head?, f.kind ∉ Token.Kind.lineEnds →
    pos ≤ c.offset ∧ OnLine source faces pos

namespace Parse

open Glyph

variable {β : Type} {source : List Glyph} {m : Nat} {faces after : List Token.Face} {f : Token.Face}
  {R : β → Prop}

theorem reads_token_onLine {q : Token → Parse β} (hf : f.kind ∉ Token.Kind.lineEnds)
    (h : ∀ pos, OnLine source (f :: faces) pos →
      (q (f.placed pos)).ReadsIn (.lines source) m (f :: faces) after R) :
    (token >>= q).ReadsIn (.lines source) m (f :: faces) after R := by
  intro r hr
  cases hr with
  | @mk c _ pos _ hknown hgives => exact h pos (hknown.2 f rfl hf).2 _ (.mk hknown hgives)

theorem reads_pos_onLine {q : Pos → Parse β} (hf : f.kind ∉ Token.Kind.lineEnds)
    (h : ∀ pos, OnLine source (f :: faces) pos →
      (q pos).ReadsIn (.lines source) m (f :: faces) after R) :
    (pos >>= q).ReadsIn (.lines source) m (f :: faces) after R := by
  intro r hr
  cases hr with
  | @mk c _ pos _ hknown hgives => exact h pos (hknown.2 f rfl hf).2 _ (.mk hknown hgives)

/-- The line of an offset is looked up where the next token stands on it. -/
theorem reads_line {q : Nat → Parse β} (hf : f.kind ∉ Token.Kind.lineEnds) {offset : Nat}
    {more : List Token.Face} (hoffset : OnLine source more offset)
    (hcount : more.count .lineBreak = (f :: faces).count .lineBreak)
    (h : (q (lineOf source offset)).ReadsIn (.lines source) m (f :: faces) after R) :
    (line offset >>= q).ReadsIn (.lines source) m (f :: faces) after R := by
  intro r hr
  have hr' := hr
  cases hr with
  | @mk c _ pos _ hknown hgives =>
    obtain ⟨hle, hpos⟩ := hknown.2 f rfl hf
    have hline := hknown.1.place_line_of_eq hle (hoffset.lineOf_eq hpos hcount)
    by_cases hsize : offset ≤ c.file.size
    · rw [bind_run_ok (line_run hsize)]
      rw [← hline] at h
      exact h _ hr'
    · exact .inr ⟨_, _, bind_run_error (line_run_fault hsize) q⟩

end Parse

end TemplateScript
