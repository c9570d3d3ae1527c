import TemplateScript.Cursor.Scan

/-!
# How a cursor walks

Whatever is read of code, the cursor behind it is reached by a walk: it moves past glyphs, reports
what is wrong at points it has passed, and keeps track of the brackets and of whether a line break
ends a statement. A walk touches nothing else, which is all that most facts about readers need. Only
the marks open or close a bracket; all other readers do no more than move.
-/

namespace TemplateScript

theorem Glyph.width_pos (g : Glyph) : 0 < g.width := by
  cases g with
  | char c => exact c.utf8Size_pos
  | byte b => exact Nat.one_pos

/-- The cause is a glyph that no source should hold where it stands. A cursor reports such a glyph
when it comes to it. -/
def ScanCause.isOfGlyph : ScanCause → Bool
  | .illegalEncoding | .illegalByteOrderMark => true
  | _ => false

namespace Cursor

/-! ### The steps of a cursor -/

/-- Nothing but the list of errors changes on arrival. -/
theorem arrive_eq (c : Cursor) : ∃ errors, c.arrive = { c with errors } := by
  unfold arrive
  split
  · exact ⟨_, rfl⟩
  · split
    · exact ⟨_, rfl⟩
    · exact ⟨_, rfl⟩
  · exact ⟨_, rfl⟩

/-- What changes when a cursor moves. -/
theorem advance_eq (c : Cursor) : ∃ rest offset lineStart file errors,
    c.advance = { c with rest, offset, lineStart, file, errors } := by
  unfold advance
  split
  · exact ⟨_, _, _, _, _, rfl⟩
  · next g rest hrest =>
    obtain ⟨errors, harrive⟩ := arrive_eq { c.leave g with rest, offset := c.offset + g.width }
    rw [harrive]
    unfold leave
    split
    · exact ⟨_, _, _, _, _, rfl⟩
    · exact ⟨_, _, _, _, _, rfl⟩

theorem arrive_pool (c : Cursor) : c.arrive.pool = c.pool := by
  obtain ⟨_, h⟩ := arrive_eq c
  rw [h]

theorem advance_pool (c : Cursor) : c.advance.pool = c.pool := by
  obtain ⟨_, _, _, _, _, h⟩ := advance_eq c
  rw [h]

theorem advance_options (c : Cursor) : c.advance.options = c.options := by
  obtain ⟨_, _, _, _, _, h⟩ := advance_eq c
  rw [h]

theorem advanceBy_options (n : Nat) (c : Cursor) : (c.advanceBy n).options = c.options := by
  induction n generalizing c with
  | zero => rfl
  | succ n ih => rw [advanceBy, ih, advance_options]

theorem advance_pending (c : Cursor) : c.advance.pending = c.pending := by
  obtain ⟨_, _, _, _, _, h⟩ := advance_eq c
  rw [h]

theorem advanceBy_pending (n : Nat) (c : Cursor) : (c.advanceBy n).pending = c.pending := by
  induction n generalizing c with
  | zero => rfl
  | succ n ih => rw [advanceBy, ih, advance_pending]

theorem advance_inText (c : Cursor) : c.advance.inText = c.inText := by
  obtain ⟨_, _, _, _, _, h⟩ := advance_eq c
  rw [h]

theorem advanceBy_inText (n : Nat) (c : Cursor) : (c.advanceBy n).inText = c.inText := by
  induction n generalizing c with
  | zero => rfl
  | succ n ih => rw [advanceBy, ih, advance_inText]

theorem arrive_offset (c : Cursor) : c.arrive.offset = c.offset := by
  obtain ⟨_, h⟩ := arrive_eq c
  rw [h]

theorem advance_offset_le (c : Cursor) : c.offset ≤ c.advance.offset := by
  unfold advance
  split
  · exact Nat.le_refl _
  · rw [arrive_offset]
    exact Nat.le_add_right ..

theorem place_offset (f : SourceFile) (offset : Nat) : (f.place offset).offset = offset := by
  unfold SourceFile.place
  dsimp only
  split <;> rfl

/-- What is wrong with the glyph that a cursor comes to is wrong there. -/
theorem arrive_errors {c : Cursor} {e : ScanError} (h : e ∈ c.arrive.errors) :
    e ∈ c.errors ∨ e.place.offset ≤ c.offset := by
  have hreport {cause : ScanCause} (h : e ∈ (c.report c.offset cause).errors) :
      e ∈ c.errors ∨ e.place.offset ≤ c.offset := by
    rcases List.mem_append.1 h with h | h
    · exact .inl h
    · rw [List.mem_singleton.1 h]
      exact .inr (Nat.le_of_eq (place_offset ..))
  unfold arrive at h
  split at h
  · exact hreport h
  · split at h
    · exact hreport h
    · exact .inl h
  · exact .inl h

theorem advance_errors {c : Cursor} {e : ScanError} (h : e ∈ c.advance.errors) :
    e ∈ c.errors ∨ e.place.offset ≤ c.advance.offset := by
  unfold advance at h ⊢
  split at h
  · exact .inl h
  · rw [arrive_offset]
    refine (arrive_errors h).imp_left fun h => ?_
    unfold leave at h
    split at h <;> exact h

/-! ### Moves -/

/-- The later cursor is reached from the earlier one by moving, with the same brackets open. What is
reported on the way, other than glyphs that are come to, is about a point that was passed, or one
that lies before a given limit. -/
inductive Moves (limit : Nat) (c : Cursor) : Cursor → Prop
  | refl : Moves limit c c
  | advance {later : Cursor} (h : Moves limit c later) : Moves limit c later.advance
  | report {later : Cursor} (h : Moves limit c later) {offset : Nat} (cause : ScanCause)
    (hoffset : offset ≤ limit ∨ offset ≤ later.offset) (hcause : cause.isOfGlyph = false) :
    Moves limit c (later.report offset cause)
  | await {later : Cursor} (h : Moves limit c later) (pending : Bool) :
    Moves limit c { later with pending }

theorem advance_nesting (c : Cursor) : c.advance.nesting = c.nesting := by
  obtain ⟨_, _, _, _, _, h⟩ := advance_eq c
  rw [h]

theorem Moves.nesting_eq {limit : Nat} {c later : Cursor} (h : c.Moves limit later) :
    later.nesting = c.nesting := by
  induction h with
  | refl => rfl
  | advance _ ih => exact (advance_nesting _).trans ih
  | report _ _ _ _ ih => exact ih
  | await _ _ ih => exact ih

theorem Moves.trans {limit : Nat} {a b c : Cursor} (h : a.Moves limit b) (k : b.Moves limit c) :
    a.Moves limit c := by
  induction k with
  | refl => exact h
  | advance _ ih => exact .advance ih
  | report _ cause hoffset hcause ih => exact .report ih cause hoffset hcause
  | await _ pending ih => exact .await ih pending

/-! ### Walks -/

/-- The later cursor is reached from the earlier one by walking. What is reported on the way, other
than glyphs that are come to, is about a point that was passed, or one that lies before a given
limit. -/
inductive Walks (limit : Nat) (c : Cursor) : Cursor → Prop
  | refl : Walks limit c c
  | advance {later : Cursor} (h : Walks limit c later) : Walks limit c later.advance
  | report {later : Cursor} (h : Walks limit c later) {offset : Nat} (cause : ScanCause)
    (hoffset : offset ≤ limit ∨ offset ≤ later.offset) (hcause : cause.isOfGlyph = false) :
    Walks limit c (later.report offset cause)
  | settle {later : Cursor} (h : Walks limit c later) (pending : Bool) (nesting : Nesting) :
    Walks limit c { later with pending, nesting }

namespace Walks

variable {limit : Nat} {a b c later : Cursor}

theorem trans (h : a.Walks limit b) (k : b.Walks limit c) : a.Walks limit c := by
  induction k with
  | refl => exact h
  | advance _ ih => exact .advance ih
  | report _ cause hoffset hcause ih => exact .report ih cause hoffset hcause
  | settle _ pending nesting ih => exact .settle ih pending nesting

/-- All that a walk changes. -/
theorem frame (h : c.Walks limit later) : ∃ rest offset lineStart file errors pending nesting,
    later = { c with rest, offset, lineStart, file, errors, pending, nesting } := by
  induction h with
  | refl => exact ⟨_, _, _, _, _, _, _, rfl⟩
  | @advance later h ih =>
    obtain ⟨_, _, _, _, _, _, _, hlater⟩ := ih
    obtain ⟨_, _, _, _, _, hadvance⟩ := advance_eq later
    rw [hadvance, hlater]
    exact ⟨_, _, _, _, _, _, _, rfl⟩
  | report h cause hoffset _ ih =>
    obtain ⟨_, _, _, _, _, _, _, hlater⟩ := ih
    rw [hlater]
    exact ⟨_, _, _, _, _, _, _, rfl⟩
  | settle h pending nesting ih =>
    obtain ⟨_, _, _, _, _, _, _, hlater⟩ := ih
    rw [hlater]
    exact ⟨_, _, _, _, _, _, _, rfl⟩

theorem options_eq (h : c.Walks limit later) : later.options = c.options := by
  obtain ⟨_, _, _, _, _, _, _, hlater⟩ := h.frame
  rw [hlater]

theorem inText_eq (h : c.Walks limit later) : later.inText = c.inText := by
  obtain ⟨_, _, _, _, _, _, _, hlater⟩ := h.frame
  rw [hlater]

theorem pool_eq (h : c.Walks limit later) : later.pool = c.pool := by
  obtain ⟨_, _, _, _, _, _, _, hlater⟩ := h.frame
  rw [hlater]

theorem offset_le (h : c.Walks limit later) : c.offset ≤ later.offset := by
  induction h with
  | refl => exact Nat.le_refl _
  | advance _ ih => exact Nat.le_trans ih (advance_offset_le _)
  | report _ _ _ _ ih => exact ih
  | settle _ _ _ ih => exact ih

/-- Whatever a walk reports lies before its limit or before its end. -/
theorem errors_le (h : c.Walks limit later) :
    ∀ e ∈ later.errors, e ∈ c.errors ∨ e.place.offset ≤ max limit later.offset := by
  induction h with
  | refl => exact fun e he => .inl he
  | @advance later h ih =>
    intro e he
    rcases advance_errors he with he | he
    · refine (ih e he).imp_right fun hle => ?_
      have := advance_offset_le later
      omega
    · exact .inr (Nat.le_trans he (Nat.le_max_right ..))
  | report h cause hoffset _ ih =>
    intro e he
    rcases List.mem_append.1 he with he | he
    · exact ih e he
    · rw [List.mem_singleton.1 he, place_offset]
      rcases hoffset with hlimit | hlater
      · exact .inr (Nat.le_trans hlimit (Nat.le_max_left ..))
      · exact .inr (Nat.le_trans hlater (Nat.le_max_right ..))
  | settle h pending nesting ih => exact ih

end Walks

theorem Moves.walks {limit : Nat} {c later : Cursor} (h : c.Moves limit later) :
    c.Walks limit later := by
  induction h with
  | refl => exact .refl
  | advance _ ih => exact .advance ih
  | report _ cause hoffset hcause ih => exact .report ih cause hoffset hcause
  | await _ pending ih => exact .settle ih pending _

theorem Moves.offset_le {limit : Nat} {c later : Cursor} (h : c.Moves limit later) :
    c.offset ≤ later.offset := h.walks.offset_le

variable {limit : Nat}

theorem moves_advance (c : Cursor) : c.Moves limit c.advance := .advance .refl

theorem moves_advanceBy (n : Nat) (c : Cursor) : c.Moves limit (c.advanceBy n) := by
  induction n generalizing c with
  | zero => exact .refl
  | succ n ih => exact (moves_advance c).trans (ih _)

theorem moves_skipBlanks (c : Cursor) : c.Moves limit c.skipBlanks := moves_advanceBy _ c

theorem walks_advance (c : Cursor) : c.Walks limit c.advance := (moves_advance c).walks

theorem walks_advanceBy (n : Nat) (c : Cursor) : c.Walks limit (c.advanceBy n) :=
  (moves_advanceBy n c).walks

theorem walks_skipBlanks (c : Cursor) : c.Walks limit c.skipBlanks := (moves_skipBlanks c).walks

/-! ### Lexemes -/

theorem moves_word (c : Cursor) : c.Moves limit c.word.1 := moves_advanceBy _ c

theorem moves_stray (c : Cursor) (g : Glyph) : c.Moves limit (c.stray g).1 :=
  .report (moves_advance c) _ (.inr (advance_offset_le c)) rfl

/-- What is found of the number at the cursor before its last letter. -/
def numberBody (c : Cursor) : Number.Body :=
  Number.body (if c.options.floatsAsDecimal then .decimal else .float) c.rest

/-- The cursor before the last letter of the number at a cursor. -/
def numberDigits (c : Cursor) : Cursor :=
  let digits := c.advanceBy c.numberBody.length
  if c.numberBody.hasDigits then digits
  else digits.report c.offset (.illegalNumber (c.textTo digits))

/-- The cursor behind the last letter of the number at a cursor, and the kind of the number. -/
def numberEnd (c : Cursor) : Cursor × Token.Kind :=
  match Number.suffixKind? c.numberBody c.numberDigits.rest with
  | some kind => (c.numberDigits.advance, kind)
  | none => (c.numberDigits, c.numberBody.kind)

theorem number_eq (c : Cursor) :
    c.number =
      let last := c.numberEnd.1
      let extra := wordRun last.rest
      if extra = 0 then (last, ⟨c.numberEnd.2, c.textTo last, c.offset, {}⟩)
      else
        let last := last.advanceBy extra
        (last.report c.offset (.illegalNumber (c.textTo last)),
          ⟨.illegal, c.textTo last, c.offset, {}⟩) := rfl

theorem moves_numberDigits (c : Cursor) : c.Moves limit c.numberDigits := by
  unfold numberDigits
  dsimp only
  have hbody : c.Moves limit (c.advanceBy c.numberBody.length) := moves_advanceBy _ c
  split
  · exact hbody
  · exact .report hbody _ (.inr hbody.offset_le) rfl

theorem numberDigits_moves (c : Cursor) : c.numberDigits.Moves limit c.numberEnd.1 := by
  unfold numberEnd
  split
  · exact moves_advance _
  · exact .refl

theorem moves_numberEnd (c : Cursor) : c.Moves limit c.numberEnd.1 :=
  (moves_numberDigits c).trans (numberDigits_moves c)

theorem numberEnd_moves (c : Cursor) : c.numberEnd.1.Moves limit c.number.1 := by
  rw [number_eq]
  dsimp only
  have hend : c.Moves limit c.numberEnd.1 := moves_numberEnd c
  split
  · exact .refl
  · have hextra : c.numberEnd.1.Moves limit _ := moves_advanceBy (wordRun c.numberEnd.1.rest) _
    exact .report hextra _ (.inr (hend.trans hextra).offset_le) rfl

theorem moves_number (c : Cursor) : c.Moves limit c.number.1 :=
  (moves_numberEnd c).trans (numberEnd_moves c)

theorem moves_escapeDigits (radix start count value : Nat) {c : Cursor}
    (hstart : start ≤ limit ∨ start ≤ c.offset) :
    c.Moves limit (escapeDigits radix start count value c).1 := by
  induction count generalizing value c with
  | zero => exact .refl
  | succ count ih =>
    rw [escapeDigits]
    split
    · exact .report .refl _ hstart rfl
    · split
      · exact .report .refl _ (.inr (Nat.le_refl _)) rfl
      · have hadvance := hstart.imp_right (Nat.le_trans · (advance_offset_le c))
        exact (moves_advance c).trans (ih _ hadvance)

theorem moves_escape (quote : Char) (c : Cursor) : c.Moves limit (c.escape quote).1 := by
  unfold escape
  split
  · exact .report .refl _ (.inr (Nat.le_refl _)) rfl
  · dsimp only
    split
    · exact moves_advance c
    · split
      · exact .report .refl _ (.inr (Nat.le_refl _)) rfl
      · next radix count _ =>
        have hstart : c.Moves limit (if radix = 8 then c else c.advance) := by
          split
          · exact .refl
          · exact moves_advance c
        have hdigits := hstart.trans
          (moves_escapeDigits radix c.offset count 0 (.inr hstart.offset_le))
        split <;> rename_i heq <;> rw [heq] at hdigits
        · exact hdigits
        · split
          · exact .report hdigits _ (.inr hdigits.offset_le) rfl
          · exact hdigits

theorem moves_quotedRest {start : Nat} (quote : Char) (c : Cursor)
    (hstart : start ≤ limit ∨ start ≤ c.offset) : c.Moves limit (c.quotedRest start quote) := by
  fun_induction quotedRest start quote c with
  | case1 => exact .report .refl _ hstart rfl
  | case2 => exact .report .refl _ hstart rfl
  | case3 c _ _ _ ih =>
    have hescape : c.Moves limit (c.advance.escape quote).1 :=
      (moves_advance c).trans (moves_escape quote _)
    exact hescape.trans (ih (hstart.imp_right (Nat.le_trans · hescape.offset_le)))
  | case4 c => exact moves_advance c
  | case5 c =>
    rename_i ih
    exact (moves_advance c).trans (ih (hstart.imp_right (Nat.le_trans · (advance_offset_le c))))

theorem moves_charRest {start : Nat} (count : Option Nat) (c : Cursor)
    (hstart : start ≤ limit ∨ start ≤ c.offset) : c.Moves limit (c.charRest start count).1 := by
  fun_induction charRest start count c with
  | case1 => exact .report .refl _ hstart rfl
  | case2 => exact .report .refl _ hstart rfl
  | case3 _ c => exact moves_advance c
  | case4 _ c =>
    rename_i ih
    have hescape : c.Moves limit (c.advance.escape '\'').1 :=
      (moves_advance c).trans (moves_escape '\'' _)
    exact hescape.trans (ih (hstart.imp_right (Nat.le_trans · hescape.offset_le)))
  | case5 _ c =>
    rename_i ih
    exact (moves_advance c).trans (ih (hstart.imp_right (Nat.le_trans · (advance_offset_le c))))

theorem moves_quoted (quote : Char) (c : Cursor) : c.Moves limit (c.quoted quote).1 :=
  (moves_advance c).trans (moves_quotedRest quote _ (.inr (advance_offset_le c)))

theorem moves_char (c : Cursor) : c.Moves limit c.char.1 := by
  unfold char
  split
  · exact moves_quoted _ c
  · have hrest : c.Moves limit (c.advance.charRest c.offset (some 0)).1 :=
      (moves_advance c).trans (moves_charRest _ _ (.inr (advance_offset_le c)))
    dsimp only
    split
    · exact hrest
    · exact .report hrest _ (.inr hrest.offset_le) rfl

theorem moves_pastFence {start : Nat} (fence : Nat) {cause : ScanCause} (c : Cursor)
    (hstart : start ≤ limit ∨ start ≤ c.offset) (hcause : cause.isOfGlyph = false) :
    c.Moves limit (c.pastFence start fence cause) := by
  unfold pastFence
  dsimp only
  split
  · exact moves_advanceBy _ c
  · have hinside : c.Moves limit _ :=
      moves_advanceBy (Glyph.countUntil (List.replicate fence fenceGlyph).isPrefixOf c.rest) c
    exact .report hinside _ (hstart.imp_right (Nat.le_trans · hinside.offset_le)) hcause

theorem moves_raw (c : Cursor) : c.Moves limit c.raw.1 := by
  unfold raw
  dsimp only
  have hopened : c.Moves limit _ := moves_advanceBy (Glyph.countWhile (· = fenceGlyph) c.rest) c
  split
  · exact hopened.trans (moves_pastFence _ _ (.inr hopened.offset_le) rfl)
  · split
    · exact hopened
    · exact hopened.trans (moves_pastFence _ _ (.inr hopened.offset_le) rfl)

/-- Only a mark opens or closes a bracket. -/
theorem moves_closing {c : Cursor} {read : Cursor × Token} (h : c.Moves limit read.1) :
    c.Moves limit (c.closing read).1 := .await h _

theorem walks_mark (c : Cursor) (kind : Token.Kind) : c.Walks limit (c.closing (c.mark kind)).1 :=
  .settle (.settle (moves_advanceBy _ c).walks _ _) _ _

theorem walks_lexeme (c : Cursor) (g : Glyph) : c.Walks limit (c.lexeme g).1 := by
  unfold lexeme
  split
  · exact (moves_closing (moves_word c)).walks
  · split
    · exact (moves_closing (moves_number c)).walks
    · split
      · exact (moves_closing (moves_quoted _ c)).walks
      · split
        · exact (moves_closing (moves_char c)).walks
        · split
          · exact (moves_closing (moves_raw c)).walks
          · split
            · exact walks_mark c _
            · exact (moves_stray c g).walks

/-! ### Comments -/

theorem moves_comment (c : Cursor) : c.Moves limit c.comment.1 := by
  unfold comment
  split
  · exact moves_advanceBy _ c
  · dsimp only [blockComment]
    have hinside : c.Moves limit _ :=
      moves_advanceBy (Glyph.countUntil (Glyph.startsWith · "*/") (c.rest.drop 2) + 2) c
    split
    · exact .report hinside _ (.inr hinside.offset_le) rfl
    · exact hinside.trans (moves_advanceBy _ _)

theorem walks_comment (c : Cursor) : c.Walks limit c.comment.1 := (moves_comment c).walks

end Cursor

end TemplateScript
