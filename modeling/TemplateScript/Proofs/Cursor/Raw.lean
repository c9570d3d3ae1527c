import TemplateScript.Proofs.Cursor.Quoted

/-!
# Reading between backquotes

Raw text begins with backquotes and ends with as many, whatever stands between them, or it is
reported.
-/

namespace TemplateScript

namespace Cursor

variable {c : Cursor}

/-- The number of backquotes at the cursor. -/
def fence (c : Cursor) : Nat := Glyph.countWhile (· = fenceGlyph) c.rest

/-- The number of glyphs before the next backquotes, as many as at the cursor. -/
def inside (c : Cursor) : Nat :=
  Glyph.countUntil (List.replicate c.fence fenceGlyph).isPrefixOf (c.rest.drop c.fence)

/-- The length of the raw text at the cursor, if it ends. Two backquotes are all of it. -/
def rawSize (c : Cursor) : Nat := if c.fence = 2 then 2 else c.fence + (c.inside + c.fence)

/-- The kind of the raw text at the cursor. -/
def rawKind (c : Cursor) : Token.Kind :=
  if c.fence = 1 ∨ c.fence = 2 then .rawString else .rawHeredoc

/-- The cursor behind the raw text at a cursor. -/
def rawEnd (c : Cursor) : Cursor :=
  if c.fence = 1 then (c.advanceBy c.fence).pastFence c.offset c.fence .unterminatedRawString
  else if c.fence = 2 then c.advanceBy c.fence
  else (c.advanceBy c.fence).pastFence c.offset c.fence .unterminatedHeredoc

/-- The raw text at the cursor ends. -/
def RawEnds (c : Cursor) : Prop := c.fence ≠ 2 → c.inside < (c.rest.drop c.fence).length

/-- What is behind the backquotes is passed to the next ones. -/
theorem pastFence_eq (start : Nat) (cause : ScanCause) :
    (c.advanceBy c.fence).pastFence start c.fence cause =
      if c.inside < (c.rest.drop c.fence).length then
        (c.advanceBy c.fence).advanceBy (c.inside + c.fence)
      else ((c.advanceBy c.fence).advanceBy c.inside).report start cause := by
  rw [pastFence, advanceBy_rest]
  rfl

theorem raw_eq (c : Cursor) : c.raw = (c.rawEnd, ⟨c.rawKind, c.textTo c.rawEnd, c.offset, {}⟩) := by
  have hraw : c.raw =
      let read :=
        if c.fence = 1 then
          (Token.Kind.rawString, (c.advanceBy c.fence).pastFence c.offset 1 .unterminatedRawString)
        else if c.fence = 2 then (Token.Kind.rawString, c.advanceBy c.fence)
        else (Token.Kind.rawHeredoc,
          (c.advanceBy c.fence).pastFence c.offset c.fence .unterminatedHeredoc)
      (read.2, ⟨read.1, c.textTo read.2, c.offset, {}⟩) := rfl
  rw [hraw, rawEnd, rawKind]
  by_cases hone : c.fence = 1
  · rw [if_pos hone, if_pos hone, if_pos (.inl hone), hone]
  · rw [if_neg hone, if_neg hone]
    by_cases htwo : c.fence = 2
    · rw [if_pos htwo, if_pos htwo, if_pos (.inr htwo)]
    · rw [if_neg htwo, if_neg htwo, if_neg (not_or.2 ⟨hone, htwo⟩)]

/-- Raw text that ends is as long as it is. -/
theorem rawEnd_of_ends (h : c.RawEnds) : c.rawEnd = c.advanceBy c.rawSize := by
  have hclosed (hne : c.fence ≠ 2) (start : Nat) (cause : ScanCause) :
      (c.advanceBy c.fence).pastFence start c.fence cause = c.advanceBy c.rawSize := by
    rw [pastFence_eq, if_pos (h hne), rawSize, if_neg hne, advanceBy_add c.fence]
  rw [rawEnd]
  split
  · next hone => exact hclosed (by omega) _ _
  · split
    · next htwo => rw [rawSize, if_pos htwo, htwo]
    · next htwo => exact hclosed htwo _ _

theorem fence_le (c : Cursor) : c.fence ≤ c.rest.length := (List.takeWhile_prefix _).length_le

theorem fence_append_drop (c : Cursor) :
    List.replicate c.fence fenceGlyph ++ c.rest.drop c.fence = c.rest := by
  have hfence : c.rest.takeWhile (· = fenceGlyph) = List.replicate c.fence fenceGlyph := by
    refine List.eq_replicate_of_mem fun g hg => ?_
    have hsame := List.mem_takeWhile_imp hg
    exact of_decide_eq_true hsame
  have htake : c.rest.take c.fence = List.replicate c.fence fenceGlyph :=
    (List.prefix_iff_eq_take.1 (List.takeWhile_prefix _)).symm.trans hfence
  rw [← htake, List.take_append_drop]

/-- The backquotes at the end are there. -/
theorem RawEnds.inside_add (h : c.RawEnds) (hne : c.fence ≠ 2) :
    c.inside + c.fence ≤ (c.rest.drop c.fence).length := by
  have hstops := Glyph.stop_countUntil _ _ (h hne)
  have hle := (List.isPrefixOf_iff_prefix.1 hstops).length_le
  have hlt := h hne
  rw [List.length_replicate, List.length_drop] at hle
  change c.fence ≤ (c.rest.drop c.fence).length - c.inside at hle
  omega

theorem RawEnds.rawSize_le (h : c.RawEnds) : c.rawSize ≤ c.rest.length := by
  have hfence := c.fence_le
  rw [rawSize]
  split
  · omega
  · next hne =>
    have hinside := h.inside_add hne
    rw [List.length_drop] at hinside
    omega

theorem fence_le_rawSize (c : Cursor) : c.fence ≤ c.rawSize := by
  rw [rawSize]
  split
  · omega
  · omega

/-- Raw text that ends stands between its backquotes. -/
theorem RawEnds.rest_eq (h : c.RawEnds) (hne : c.fence ≠ 2) :
    c.rest = List.replicate c.fence fenceGlyph ++ ((c.rest.drop c.fence).take c.inside ++
      (List.replicate c.fence fenceGlyph ++ c.rawEnd.rest)) := by
  have hstops := Glyph.stop_countUntil _ _ (h hne)
  obtain ⟨later, hlater⟩ := List.isPrefixOf_iff_prefix.1 hstops
  have hend : c.rawEnd.rest = later := by
    rw [rawEnd_of_ends h, rawSize, if_neg hne, advanceBy_rest, ← List.drop_drop, ← List.drop_drop]
    rw [inside, ← hlater, List.drop_left' List.length_replicate]
  rw [hend, hlater, ← inside, List.take_append_drop, fence_append_drop]

/-- A raw string stands between two backquotes. -/
theorem RawEnds.exists_between (h : c.RawEnds) (hkind : c.rawKind = .rawString) :
    ∃ between, c.rest = fenceGlyph :: (between ++ fenceGlyph :: c.rawEnd.rest) := by
  have hfence : c.fence = 1 ∨ c.fence = 2 := by
    by_contra hfence
    rw [rawKind, if_neg hfence] at hkind
    cases hkind
  rcases hfence with hone | htwo
  · have hrest := h.rest_eq (by omega)
    rw [hone] at hrest
    exact ⟨_, hrest⟩
  · have hrest := c.fence_append_drop
    rw [htwo] at hrest
    refine ⟨[], hrest.symm.trans ?_⟩
    rw [rawEnd_of_ends h, rawSize, if_pos htwo, advanceBy_rest]
    rfl

/-- Raw text for which nothing is reported ends. -/
theorem rawEnds_of_isClear (hpos : 0 < c.fence)
    (hclear : c.rawEnd.IsClear c.offset c.rawEnd.offset) : c.RawEnds := by
  intro hne
  by_contra hopen
  have hopened : c.offset < (c.advanceBy c.fence).offset := by
    refine (reaches_advanceBy c.fence c).offset_lt ?_
    have hle := c.fence_le
    rw [advanceBy_rest, List.length_drop]
    omega
  have hreported (cause : ScanCause) (hcause : cause ≠ .illegalByteOrderMark) :
      ¬ ((c.advanceBy c.fence).pastFence c.offset c.fence cause).IsClear c.offset
        ((c.advanceBy c.fence).pastFence c.offset c.fence cause).offset := by
    rw [pastFence_eq, if_neg hopen]
    refine not_isClear_report hcause (Nat.le_refl _) ?_
    exact Nat.lt_of_lt_of_le hopened (reaches_advanceBy _ _).offset_le
  rw [rawEnd, if_neg hne] at hclear
  split at hclear
  · exact hreported .unterminatedRawString nofun hclear
  · exact hreported .unterminatedHeredoc nofun hclear

end Cursor

end TemplateScript
