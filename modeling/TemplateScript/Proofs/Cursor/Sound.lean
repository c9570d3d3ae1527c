import TemplateScript.Proofs.Cursor.Tiling
import TemplateScript.Proofs.Source.Lines

/-!
# What a cursor hands out

Whatever a cursor in a source hands out lies in the source: its tokens begin there, what it reports
is about a place there, and the comments end there. For a comment this takes that the source is a
text, since only then its bytes are those of the comment; where comments are no tokens, nothing is
asked.
-/

namespace TemplateScript

namespace Cursor

variable {source : List Glyph} {c later : Cursor}

/-- The cursor stands in a source, and so does everything it has to hand out. -/
structure Sound (source : List Glyph) (c : Cursor) : Prop where
  inSource : c.InSource source
  placed : c.PoolPlaced
  inner : c.PoolInner
  errors_le : ∀ e ∈ c.errors, e.place.offset ≤ Glyph.widths source
  isText : c.options.comments = true → c.IsText

theorem InSource.offset_le (h : c.InSource source) : c.offset ≤ Glyph.widths source := by
  obtain ⟨read, hsource, hoffset, -⟩ := h
  rw [hsource, Glyph.widths_append, hoffset]
  exact Nat.le_add_right ..

theorem InSource.size_eq (h : c.InSource source) : c.file.size = Glyph.widths source := by
  obtain ⟨read, -, -, hfile⟩ := h
  exact hfile.size_eq

/-! ### Comments -/

theorem templateText_ne_comment (c : Cursor) : c.templateText.2.1.kind ≠ .comment := by
  have htoken {kept : List Glyph} {token : Token}
      (h : textToken? c.offset c.textBlanks kept c.textRun.2 = some token) :
      token.kind ≠ .comment := by
    unfold textToken? at h
    split at h
    · cases h
    · rw [← Option.some.inj h]
      rintro ⟨⟩
  have hdelimiter : c.textDelimiter.2.kind ≠ .comment := by
    unfold textDelimiter openingDelimiter
    dsimp only
    split <;> rintro ⟨⟩
  rw [templateText_eq]
  dsimp only
  split
  · split
    · next hsome => exact htoken hsome
    · exact hdelimiter
  · split
    · next hsome => exact htoken hsome
    · split <;> rintro ⟨⟩

theorem code_comment (h : c.code.2.1.kind = .comment) : c.options.comments = true := by
  fun_induction code c with
  | case1 c start last token hend =>
    rcases codeEnd?_kind hend with hkind | hkind <;> cases hkind.symm.trans h
  | case2 => cases h
  | case3 => cases h
  | case4 => cases h
  | case5 => cases h
  | case6 c start _ _ g rest hrest hcomment hpending hcomments =>
    rwa [show start.options = c.options from skipBlanks_options c] at hcomments
  | case7 c start _ _ g rest hrest hcomment hpending hcomments ih =>
    have hmore := ih h
    rwa [comment_options, show start.options = c.options from skipBlanks_options c] at hmore
  | case8 => cases h
  | case9 c start _ _ g rest hrest hcomment hbreak =>
    have hkind := lexeme_isOuter start g
    rw [show (start.lexeme g).2.kind = .comment from h] at hkind
    cases hkind

/-- A token that is cut from a run ends in it. -/
theorem Cuts.stop_le {o : ScanOptions} {tokens : List Token} (h : c.Cuts o tokens later) {t : Token}
    (ht : t ∈ tokens) : t.stop ≤ later.offset := by
  obtain ⟨glyphs, -, hoffset, htiles⟩ := h
  obtain ⟨before, after, hglyphs, hpos⟩ := htiles.stands ht
  rw [Token.stop, hpos, hoffset, hglyphs, Glyph.widths_append, Glyph.widths_append]
  omega

/-- A comment ends in the source. -/
theorem Sound.comment_le (h : c.Sound source) (hkind : c.scan.2.kind = .comment) :
    c.scan.2.pos + c.scan.2.literal.utf8ByteSize ≤ c.scan.1.offset := by
  have hpool : c.pool = [] := by
    by_contra hpool
    obtain ⟨t, pool, hpool⟩ := List.exists_cons_of_ne_nil hpool
    rw [scan_pool hpool] at hkind
    exact (h.inner t (hpool ▸ List.mem_cons_self)).1 hkind
  have hplaced := (scan_placed h.placed).1
  rw [scan_eq hpool] at hkind hplaced ⊢
  dsimp only at hkind hplaced ⊢
  have hcomments : c.options.comments = true := by
    unfold read at hkind
    split at hkind
    · exact absurd hkind (templateText_ne_comment c)
    · exact code_comment hkind
  have hstop := (cuts_read rfl (h.isText hcomments)).stop_le List.mem_cons_self
  by_cases hempty : c.read.2.1.literal = ""
  · rw [hempty]
    exact hplaced
  · have hwritten : c.read.2.1.isWritten = true := by
      unfold Token.isWritten Token.isInsertedSemicolon
      rw [hkind]
      rfl
    rwa [Token.stop, Token.glyphs_of_literal hwritten hempty, Glyph.widths_ofText] at hstop

/-! ### Reading on -/

theorem Sound.scan (h : c.Sound source) : c.scan.1.Sound source := by
  have hsource := h.inSource.reaches (reaches_scan c)
  have hreads := reads_scan c
  refine ⟨hsource, (scan_placed h.placed).2, h.inner.scan, fun e he => ?_, fun hcomments => ?_⟩
  · rcases hreads.errors_le e he with he | hle
    · exact h.errors_le e he
    · exact Nat.le_trans hle hsource.offset_le
  · rw [hreads.options_eq] at hcomments
    exact (h.isText hcomments).reaches (reaches_scan c)

theorem Sound.token_le (h : c.Sound source) : c.scan.2.pos ≤ Glyph.widths source :=
  Nat.le_trans (scan_placed h.placed).1 (h.inSource.reaches (reaches_scan c)).offset_le

theorem settle_comments (c : Cursor) (call : Call) :
    (c.settle call).options.comments = c.options.comments := by
  cases call with
  | setMixed on =>
    unfold settle setMixed
    dsimp only
    split <;> rfl
  | scan | takeErrors | setDelimiters | setFloatsAsDecimal | setCharAsString | setValueSugar => rfl

theorem Sound.settle (h : c.Sound source) (call : Call) : (c.settle call).Sound source := by
  have hcomments := settle_comments c call
  have hinner := h.inner.settle call
  obtain ⟨options, inText, inValue, pending, nesting, taken, heq, -⟩ := settle_eq c call
  rw [heq] at hcomments hinner ⊢
  exact ⟨h.inSource.reaches (.of_eq rfl rfl rfl rfl), h.placed, hinner, h.errors_le,
    fun hon => h.isText (hcomments ▸ hon)⟩

theorem Sound.performAll (h : c.Sound source) (calls : List Call) :
    (performAll calls c).1.Sound source := by
  induction calls generalizing c with
  | nil => exact h
  | cons call calls ih =>
    by_cases hcall : call = .scan
    · subst hcall
      exact ih h.scan
    · rw [performAll_cons hcall]
      exact ih (h.settle call)

/-- A cursor at the start of a source is sound, if the source is a text or comments are no tokens.
-/
theorem sound_start {file : SourceFile} {options : ScanOptions}
    (hsize : file.size = Glyph.widths source) (hlines : file.lines = [0])
    (htext : options.comments = true → ∀ g ∈ source, ∃ ch, g = .char ch) :
    (start file options source).Sound source := by
  have hsource : (start file options source).InSource source := inSource_start hsize hlines
  refine ⟨hsource, poolPlaced_start _ _ _, poolInner_start _ _ _, fun e he => ?_,
    fun hon g hg => ?_⟩
  · rcases (reads_start file options source).errors_le e he with he | hle
    · cases he
    · exact Nat.le_trans hle hsource.offset_le
  · rw [start_options] at hon
    obtain ⟨mark, hmark, -⟩ := start_rest file options source
    exact htext hon g (hmark ▸ List.mem_append_right _ hg)

end Cursor

end TemplateScript
