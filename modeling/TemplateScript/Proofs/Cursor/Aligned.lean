import TemplateScript.Proofs.Cursor.Tiling

/-!
# Points between glyphs

A cursor stands between two glyphs of its source, never inside one, and all that it reports and
hands out stands where it has stood itself: at the start of a token, or at the glyph that is wrong.
So no offset that comes of reading a text splits a character.
-/

namespace TemplateScript

/-- The offset is between two glyphs of a source, or at one of its ends. -/
def Glyph.IsPoint (source : List Glyph) (offset : Nat) : Prop :=
  ∃ before after, source = before ++ after ∧ offset = widths before

namespace Cursor

variable {source : List Glyph} {c later : Cursor}

/-- The cursor sees a part of a source and stands where that begins, and all that it has reported is
about points of the source. -/
structure Aligned (source : List Glyph) (c : Cursor) : Prop where
  part : ∃ before after, source = before ++ c.rest ++ after ∧ c.offset = Glyph.widths before
  errors : ∀ e ∈ c.errors, Glyph.IsPoint source e.place.offset

namespace Aligned

/-- A cursor stands at a point of its source. -/
theorem point (h : c.Aligned source) : Glyph.IsPoint source c.offset := by
  obtain ⟨before, after, hsource, hoffset⟩ := h.part
  exact ⟨before, c.rest ++ after, by rw [hsource, List.append_assoc], hoffset⟩

theorem of_eq (h : c.Aligned source) (hrest : later.rest = c.rest)
    (hoffset : later.offset = c.offset) (herrors : later.errors = c.errors) :
    later.Aligned source :=
  ⟨hrest ▸ hoffset ▸ h.part, herrors ▸ h.errors⟩

/-! ### Steps -/

theorem report (h : c.Aligned source) {offset : Nat} (hoffset : Glyph.IsPoint source offset)
    (cause : ScanCause) : (c.report offset cause).Aligned source := by
  refine ⟨h.part, List.forall_mem_append.2 ⟨h.errors, List.forall_mem_singleton.2 ?_⟩⟩
  rw [place_offset]
  exact hoffset

theorem arrive (h : c.Aligned source) : c.arrive.Aligned source := by
  unfold Cursor.arrive
  split
  · exact h.report h.point _
  · split
    · exact h.report h.point _
    · exact h
  · exact h

theorem advance (h : c.Aligned source) : c.advance.Aligned source := by
  unfold Cursor.advance
  split
  · exact h
  · next g rest hrest =>
    obtain ⟨before, after, hsource, hoffset⟩ := h.part
    refine arrive ⟨⟨before ++ [g], after, ?_, ?_⟩, ?_⟩
    · rw [hsource, hrest]
      simp
    · rw [Glyph.widths_append, ← hoffset]
      rfl
    · unfold leave
      split <;> exact h.errors

theorem advanceBy (h : c.Aligned source) (n : Nat) : (c.advanceBy n).Aligned source := by
  induction n generalizing c with
  | zero => exact h
  | succ n ih => exact ih h.advance

theorem skipBlanks (h : c.Aligned source) : c.skipBlanks.Aligned source := h.advanceBy _

/-! ### Lexemes -/

theorem numberDigits (h : c.Aligned source) : c.numberDigits.Aligned source := by
  unfold Cursor.numberDigits
  dsimp only
  split
  · exact h.advanceBy _
  · exact (h.advanceBy _).report h.point _

theorem numberEnd (h : c.Aligned source) : c.numberEnd.1.Aligned source := by
  unfold Cursor.numberEnd
  split
  · exact h.numberDigits.advance
  · exact h.numberDigits

theorem number (h : c.Aligned source) : c.number.1.Aligned source := by
  rw [number_eq]
  dsimp only
  split
  · exact h.numberEnd
  · exact (h.numberEnd.advanceBy _).report h.point _

theorem escapeDigits {start : Nat} (hstart : Glyph.IsPoint source start) (radix count value : Nat)
    (h : c.Aligned source) : (escapeDigits radix start count value c).1.Aligned source := by
  induction count generalizing value c with
  | zero => exact h
  | succ count ih =>
    rw [Cursor.escapeDigits]
    split
    · exact h.report hstart _
    · split
      · exact h.report h.point _
      · exact ih _ h.advance

theorem escape (h : c.Aligned source) (quote : Char) : (c.escape quote).1.Aligned source := by
  unfold Cursor.escape
  split
  · exact h.report h.point _
  · dsimp only
    split
    · exact h.advance
    · split
      · exact h.report h.point _
      · next radix count _ =>
        have hdigits : (if radix = 8 then c else c.advance).Aligned source := by
          split
          · exact h
          · exact h.advance
        have hlast := escapeDigits h.point radix count 0 hdigits
        split <;> rename_i heq <;> rw [heq] at hlast
        · exact hlast
        · split
          · exact hlast.report h.point _
          · exact hlast

theorem quotedRest {start : Nat} (hstart : Glyph.IsPoint source start) (quote : Char)
    (h : c.Aligned source) : (c.quotedRest start quote).Aligned source := by
  fun_induction Cursor.quotedRest start quote c with
  | case1 => exact h.report hstart _
  | case2 => exact h.report hstart _
  | case3 c _ _ _ ih => exact ih (h.advance.escape quote)
  | case4 => exact h.advance
  | case5 c =>
    rename_i ih
    exact ih h.advance

theorem charRest {start : Nat} (hstart : Glyph.IsPoint source start) (count : Option Nat)
    (h : c.Aligned source) : (c.charRest start count).1.Aligned source := by
  fun_induction Cursor.charRest start count c with
  | case1 => exact h.report hstart _
  | case2 => exact h.report hstart _
  | case3 => exact h.advance
  | case4 =>
    rename_i ih
    exact ih (h.advance.escape '\'')
  | case5 =>
    rename_i ih
    exact ih h.advance

theorem quoted (h : c.Aligned source) (quote : Char) : (c.quoted quote).1.Aligned source :=
  quotedRest h.point quote h.advance

theorem char (h : c.Aligned source) : c.char.1.Aligned source := by
  unfold Cursor.char
  split
  · exact h.quoted _
  · have hrest := charRest h.point (some 0) h.advance
    dsimp only
    split
    · exact hrest
    · exact hrest.report h.point _

theorem pastFence {start : Nat} (hstart : Glyph.IsPoint source start) (fence : Nat)
    (cause : ScanCause) (h : c.Aligned source) : (c.pastFence start fence cause).Aligned source := by
  unfold Cursor.pastFence
  dsimp only
  split
  · exact h.advanceBy _
  · exact (h.advanceBy _).report hstart _

theorem raw (h : c.Aligned source) : c.raw.1.Aligned source := by
  unfold Cursor.raw
  dsimp only
  split
  · exact pastFence h.point _ _ (h.advanceBy _)
  · split
    · exact h.advanceBy _
    · exact pastFence h.point _ _ (h.advanceBy _)

theorem closing {read : Cursor × Token} (h : read.1.Aligned source) :
    (c.closing read).1.Aligned source := h.of_eq rfl rfl rfl

theorem lexeme (h : c.Aligned source) (g : Glyph) : (c.lexeme g).1.Aligned source := by
  unfold Cursor.lexeme
  split
  · exact closing (h.advanceBy _)
  · split
    · exact closing h.number
    · split
      · exact closing (h.quoted _)
      · split
        · exact closing h.char
        · split
          · exact closing h.raw
          · split
            · exact (h.advanceBy _).of_eq rfl rfl rfl
            · exact h.advance.report h.point _

theorem comment (h : c.Aligned source) : c.comment.1.Aligned source := by
  unfold Cursor.comment
  split
  · exact h.advanceBy _
  · dsimp only [blockComment]
    split
    · exact (h.advanceBy _).report h.point _
    · exact (h.advanceBy _).advanceBy _

/-! ### Pragma lines -/

theorem bodyTokens (h : c.Aligned source) : c.bodyTokens.1.Aligned source := by
  fun_induction Cursor.bodyTokens c with
  | case1 c => exact h.skipBlanks
  | case2 c _ _ _ _ ih => exact ih h.skipBlanks.comment
  | case3 c g _ _ _ more ih => exact ih (h.skipBlanks.lexeme g)

theorem bodyStart (h : c.Aligned source) (head size : Nat) :
    (c.bodyStart head size).Aligned source := by
  obtain ⟨before, after, hsource, hoffset⟩ := h.part
  refine arrive ⟨⟨before ++ c.rest.take head, (c.rest.drop head).drop size ++ after, ?_, ?_⟩,
    h.errors⟩
  · rw [hsource]
    simp only [List.append_assoc, ← List.append_assoc (List.take size _), List.take_append_drop]
    rw [← List.append_assoc (List.take head _), List.take_append_drop]
  · rw [Glyph.widths_append, ← hoffset]

theorem pragma (h : c.Aligned source) (head : Nat) : (c.pragma head).1.Aligned source := by
  let size := Glyph.countUntil endsPragma (c.rest.drop head)
  have hlast : Aligned source
      { c with errors := (c.bodyStart head size).bodyTokens.1.errors } :=
    ⟨h.part, (h.bodyStart head size).bodyTokens.errors⟩
  exact (hlast.advanceBy (head + size)).advance.of_eq rfl rfl rfl

/-! ### Templates and tokens -/

theorem textEnd (h : c.Aligned source) : c.textEnd.Aligned source :=
  (h.advanceBy _).of_eq rfl rfl rfl

theorem enterCode (h : c.Aligned source) (length : Nat) (isValue : Bool) :
    (c.enterCode length isValue).Aligned source := (h.advanceBy length).of_eq rfl rfl rfl

theorem templateText (h : c.Aligned source) : c.templateText.1.Aligned source := by
  have hcode : c.textCode.Aligned source := h.textEnd.enterCode ..
  rw [templateText_eq]
  dsimp only
  split
  · split
    · exact hcode
    · exact hcode
  · split
    · exact h.textEnd
    · split
      · exact h.textEnd.pragma _
      · exact h.textEnd

theorem codeEnd (h : c.Aligned source) {token : Token} (hend : c.codeEnd? = some (later, token)) :
    later.Aligned source := by
  unfold codeEnd? at hend
  dsimp only at hend
  split at hend
  · obtain ⟨rfl, rfl⟩ := Prod.mk.inj (Option.some.inj hend)
    exact (h.advanceBy _).of_eq rfl rfl rfl
  · cases hend

theorem code (h : c.Aligned source) : c.code.1.Aligned source := by
  fun_induction Cursor.code c with
  | case1 c start last token hend => exact h.skipBlanks.codeEnd hend
  | case2 c start _ head => exact h.skipBlanks.pragma head
  | case3 c start => exact h.skipBlanks.of_eq rfl rfl rfl
  | case4 c start => exact h.skipBlanks
  | case5 c start => exact h.skipBlanks.of_eq rfl rfl rfl
  | case6 c start => exact h.skipBlanks.comment
  | case7 c start =>
    rename_i ih
    exact ih h.skipBlanks.comment
  | case8 c start => exact h.skipBlanks.advance.of_eq rfl rfl rfl
  | case9 c start _ _ g => exact h.skipBlanks.lexeme g

theorem read (h : c.Aligned source) : c.read.1.Aligned source := by
  unfold Cursor.read
  split
  · exact h.templateText
  · exact h.code

end Aligned

/-- The cursor is aligned in a source, and so are the tokens that wait to be handed out. -/
structure PoolAligned (source : List Glyph) (c : Cursor) : Prop extends c.Aligned source where
  pool : ∀ t ∈ c.pool, Glyph.IsPoint source t.pos

/-- A cursor in a text sees nothing but text. -/
theorem Aligned.isText (h : c.Aligned source) (htext : ∀ g ∈ source, ∃ ch, g = .char ch) :
    c.IsText := by
  obtain ⟨before, after, hsource, -⟩ := h.part
  intro g hg
  exact htext g (by rw [hsource]; simp [hg])

/-- What is cut off where a cursor stands begins at points of the source. -/
theorem Aligned.cuts (h : c.Aligned source) {o : ScanOptions} {tokens : List Token}
    (hcut : c.Cuts o tokens later) : ∀ t ∈ tokens, Glyph.IsPoint source t.pos := by
  obtain ⟨before, after, hsource, hoffset⟩ := h.part
  obtain ⟨glyphs, hrest, -, htiles⟩ := hcut
  intro t ht
  obtain ⟨passed, left, hglyphs, hpos⟩ := htiles.stands ht
  refine ⟨before ++ passed, t.glyphs ++ left ++ later.rest ++ after, ?_, ?_⟩
  · rw [hsource, hrest, hglyphs]
    simp
  · rw [hpos, hoffset, Glyph.widths_append]

/-- A token begins at a point of the source, and behind it the cursor is aligned again. -/
theorem PoolAligned.scan (h : c.PoolAligned source) (htext : ∀ g ∈ source, ∃ ch, g = .char ch) :
    Glyph.IsPoint source c.scan.2.pos ∧ c.scan.1.PoolAligned source := by
  cases hpool : c.pool with
  | cons t pool =>
    have hall : ∀ u ∈ t :: pool, Glyph.IsPoint source u.pos := by
      rw [← hpool]
      exact h.pool
    rw [scan_pool hpool]
    exact ⟨hall t List.mem_cons_self, h.toAligned.of_eq rfl rfl rfl,
      fun u hu => hall u (List.mem_cons_of_mem t hu)⟩
  | nil =>
    have hall := h.toAligned.cuts (cuts_read rfl (h.isText htext))
    rw [scan_eq hpool]
    exact ⟨hall _ List.mem_cons_self, h.toAligned.read.of_eq rfl rfl rfl,
      fun u hu => hall u (List.mem_cons_of_mem _ hu)⟩

end Cursor

end TemplateScript
