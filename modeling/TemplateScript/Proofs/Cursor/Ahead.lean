import TemplateScript.Proofs.Cursor.HasText
import TemplateScript.Proofs.Cursor.Sound

/-!
# What is still to come

In a source that is a text, no token begins before the last one has ended, whether it waits or has
yet to be read. So what is read from a token on lies behind all that was read before it.
-/

namespace TemplateScript

namespace Token

variable {t : Token}

theorem pos_le_stop (t : Token) : t.pos ≤ t.stop := Nat.le_add_right ..

/-- A token that stands in the source ends where its text does. -/
theorem stop_eq (h : t.isWritten = true) : t.stop = t.pos + t.text.utf8ByteSize := by
  rw [stop, glyphs, if_pos h, Glyph.widths_ofText]

/-- A token with a text stands in the source, unless its text is a line break. -/
theorem isWritten_of_kind (h : t.kind ≠ .semicolon) (hends : t.kind ≠ .pragmaEnd)
    (heof : t.kind ≠ .eof) : t.isWritten = true := by
  simp [isWritten, isInsertedSemicolon, h, hends, heof]

theorem literal_le_stop (h : t.isWritten = true) : t.pos + t.literal.utf8ByteSize ≤ t.stop := by
  rw [stop_eq h, text]
  split
  · next hempty =>
    rw [hempty]
    exact Nat.add_le_add_left (Nat.zero_le _) _
  · exact Nat.le_refl _

/-- A token takes the room that its kind asks for. -/
structure IsLegible (t : Token) : Prop where
  hasText : t.HasText
  isSpelled : t.IsSpelled

/-- The kinds of tokens that stand in the source as they are spelled. -/
def Kind.isFixed (kind : Kind) : Bool :=
  kind ≠ .semicolon && (keywords.contains kind || marks.contains kind)

theorem isFixed_iff {kind : Kind} :
    kind.isFixed = true ↔ kind ≠ .semicolon ∧ (kind ∈ Kind.keywords ∨ kind ∈ Kind.marks) := by
  simp [Kind.isFixed]

theorem isWritten_of_isFixed (h : t.kind.isFixed = true) : t.isWritten = true := by
  have hno : ∀ kind ∈ Kind.keywords ++ Kind.marks, kind ≠ .pragmaEnd ∧ kind ≠ .eof := by decide
  obtain ⟨hsemicolon, hmem⟩ := isFixed_iff.1 h
  obtain ⟨hends, heof⟩ := hno _ (List.mem_append.2 hmem)
  exact isWritten_of_kind hsemicolon hends heof

/-- The later token begins behind the earlier one. -/
structure Precedes (t u : Token) : Prop where
  legible : t.IsLegible
  stop_le : t.stop ≤ u.pos

namespace Precedes

variable {u : Token}

theorem le (h : t.Precedes u) : t.pos ≤ u.pos := Nat.le_trans t.pos_le_stop h.stop_le

theorem text_le (h : t.Precedes u) (hwritten : t.isWritten = true) :
    t.pos + t.text.utf8ByteSize ≤ u.pos :=
  stop_eq hwritten ▸ h.stop_le

theorem literal_le (h : t.Precedes u) (hwritten : t.isWritten = true) :
    t.pos + t.literal.utf8ByteSize ≤ u.pos :=
  Nat.le_trans (literal_le_stop hwritten) h.stop_le

/-- A keyword or a mark ends behind its spelling, if not further on. -/
theorem spelling_le (h : t.Precedes u) {kind : Kind} (hkind : t.kind = kind)
    (hfixed : kind.isFixed = true) : t.pos + kind.spelling.utf8ByteSize ≤ u.pos := by
  subst hkind
  have hspelled := h.legible.isSpelled (isFixed_iff.1 hfixed).2
  exact Nat.le_trans (Nat.add_le_add_left hspelled _) (h.text_le (isWritten_of_isFixed hfixed))

/-- A keyword or a mark takes some room. -/
theorem succ_le (h : t.Precedes u) {kind : Kind} (hkind : t.kind = kind)
    (hfixed : kind.isFixed = true) : t.pos + 1 ≤ u.pos := by
  have hspelling : ∀ kind : Kind, 1 ≤ kind.spelling.utf8ByteSize := by
    intro kind
    cases kind <;> decide
  exact Nat.le_trans (Nat.add_le_add_left (hspelling kind) _) (h.spelling_le hkind hfixed)

/-- A name or a literal ends behind its text, which is not empty. -/
theorem name_le (h : t.Precedes u) (hkind : t.kind = .ident ∨ t.kind ∈ Grammar.literalKinds) :
    t.pos < u.pos ∧ t.pos + t.literal.utf8ByteSize ≤ u.pos := by
  have hno : ∀ kind ∈ .ident :: Grammar.literalKinds,
      kind ≠ .semicolon ∧ kind ≠ .pragmaEnd ∧ kind ≠ .eof := by decide
  obtain ⟨hsemicolon, hends, heof⟩ := hno _ (List.mem_cons.2 hkind)
  have hstop := h.literal_le (isWritten_of_kind hsemicolon hends heof)
  exact ⟨Nat.lt_of_lt_of_le (Nat.lt_add_of_pos_right (h.legible.hasText hkind)) hstop, hstop⟩

end Precedes

end Token

namespace Cursor

variable {c later : Cursor} {floor : Nat}

theorem common_isLegible : Common Token.IsLegible where
  outer h := ⟨common_hasText.outer h, common_isSpelled.outer h⟩
  semicolon c := ⟨common_hasText.semicolon c, common_isSpelled.semicolon c⟩
  lexeme hrest := ⟨common_hasText.lexeme hrest, common_isSpelled.lexeme hrest⟩

/-- In a source that is a text, all tokens to come begin behind the floor, one behind the other. -/
structure Ahead (floor : Nat) (c : Cursor) : Prop where
  isText : c.IsText
  floor_le : floor ≤ c.offset
  pool_ge : ∀ t ∈ c.pool, floor ≤ t.pos
  pool_sorted : c.pool.Pairwise fun t u => t.stop ≤ u.pos
  pool_le : ∀ t ∈ c.pool, t.stop ≤ c.offset
  pool_legible : ∀ t ∈ c.pool, t.IsLegible

theorem Ahead.lower (h : c.Ahead floor) {less : Nat} (hless : less ≤ floor) : c.Ahead less :=
  { h with
    floor_le := Nat.le_trans hless h.floor_le
    pool_ge := fun t ht => Nat.le_trans hless (h.pool_ge t ht) }

/-- What is to come does not depend on options and on what was reported. -/
theorem Ahead.of_eq (h : c.Ahead floor) (hrest : later.rest = c.rest)
    (hoffset : later.offset = c.offset) (hpool : later.pool = c.pool) : later.Ahead floor := by
  obtain ⟨htext, hfloor, hge, hsorted, hle, hlegible⟩ := h
  refine ⟨?_, hoffset ▸ hfloor, hpool ▸ hge, hpool ▸ hsorted, ?_, hpool ▸ hlegible⟩
  · unfold IsText
    rw [hrest]
    exact htext
  · rw [hpool, hoffset]
    exact hle

/-- The next token begins behind the floor, and what is to come then lies behind that token. -/
theorem Ahead.scan (h : c.Ahead floor) :
    floor ≤ c.scan.2.pos ∧ c.scan.2.IsLegible ∧ c.scan.1.Ahead c.scan.2.stop := by
  have hlegible := common_isLegible.scan h.pool_legible
  have htext := h.isText.reaches (reaches_scan c)
  cases hpool : c.pool with
  | cons t pool =>
    have hge := h.pool_ge
    have hsorted := h.pool_sorted
    have hle := h.pool_le
    rw [hpool] at hge hsorted hle
    obtain ⟨hbehind, hsorted⟩ := List.pairwise_cons.1 hsorted
    obtain ⟨htge, -⟩ := List.forall_mem_cons.1 hge
    obtain ⟨htle, hle⟩ := List.forall_mem_cons.1 hle
    rw [scan_pool hpool] at hlegible htext ⊢
    exact ⟨htge, hlegible.1, htext, htle, hbehind, hsorted, hle, hlegible.2⟩
  | nil =>
    have hcuts := cuts_read rfl h.isText
    have hle := fun t ht => hcuts.stop_le (t := t) ht
    obtain ⟨glyphs, -, -, htiles⟩ := hcuts
    obtain ⟨hbehind, hsorted⟩ := List.pairwise_cons.1 htiles.ordered
    obtain ⟨htle, hle⟩ := List.forall_mem_cons.1 hle
    have hge := htiles.pos_le List.mem_cons_self
    rw [scan_eq hpool] at hlegible htext ⊢
    exact ⟨Nat.le_trans h.floor_le hge, hlegible.1, htext, htle, hbehind, hsorted, hle,
      hlegible.2⟩

/-- At the start of a text, everything is to come. -/
theorem ahead_start (file : SourceFile) (options : ScanOptions) {source : List Glyph}
    (h : ∀ g ∈ source, ∃ ch, g = .char ch) :
    (start file options source).Ahead (start file options source).offset := by
  obtain ⟨mark, hmark, -⟩ := start_rest file options source
  have hpool := start_pool file options source
  refine ⟨fun g hg => h g ?_, Nat.le_refl _, ?_, ?_, ?_, ?_⟩
  · rw [hmark]
    exact List.mem_append_right _ hg
  · rw [hpool]
    exact List.forall_mem_nil _
  · rw [hpool]
    exact .nil
  · rw [hpool]
    exact List.forall_mem_nil _
  · rw [hpool]
    exact List.forall_mem_nil _

end Cursor

end TemplateScript
