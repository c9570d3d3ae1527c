import TemplateScript.Proofs.Cursor.Walk

/-!
# How far a cursor gets

A cursor moves only forward, past one glyph after another, and records the lines that start on the
way. Whatever is read, a token or a whole pragma line, the cursor behind it is reached in this way,
and no token begins behind the cursor that follows it. Everything said elsewhere about offsets and
line tables rests on these two facts.
-/

namespace TemplateScript

namespace Glyph

/-- The offsets behind the line breaks of a run that begins at a given offset. -/
def breakEnds : Nat → List Glyph → List Nat
  | _, [] => []
  | offset, g :: rest =>
    (if g = .char '\n' then [offset + 1] else []) ++ breakEnds (offset + g.width) rest

theorem widths_append (a b : List Glyph) : widths (a ++ b) = widths a + widths b := by
  induction a with
  | nil => simp [widths]
  | cons g rest ih => simp only [List.cons_append, widths, ih, Nat.add_assoc]

theorem breakEnds_append (offset : Nat) (a b : List Glyph) :
    breakEnds offset (a ++ b) = breakEnds offset a ++ breakEnds (offset + widths a) b := by
  induction a generalizing offset with
  | nil => simp [breakEnds, widths]
  | cons g rest ih =>
    simp only [List.cons_append, breakEnds, ih, widths, List.append_assoc, Nat.add_assoc]

@[simp] theorem width_lineBreak : Glyph.width (.char '\n') = 1 := rfl

end Glyph

namespace Cursor

/-- The later cursor stands behind a run of glyphs that the earlier one stood before, has recorded
every line that starts behind a line break of that run, and has dropped no error. -/
structure Past (c : Cursor) (read : List Glyph) (later : Cursor) : Prop where
  rest_eq : c.rest = read ++ later.rest
  offset_eq : later.offset = c.offset + Glyph.widths read
  file_eq : later.file = (Glyph.breakEnds c.offset read).foldl SourceFile.addLine c.file
  errors_grow : c.errors <+: later.errors

/-- The later cursor is reached from the earlier one by reading on. -/
def Reaches (c later : Cursor) : Prop := ∃ read, c.Past read later

theorem Past.trans {a b c : Cursor} {r s : List Glyph} (h : a.Past r b) (k : b.Past s c) :
    a.Past (r ++ s) c where
  rest_eq := by rw [h.rest_eq, k.rest_eq, List.append_assoc]
  offset_eq := by rw [k.offset_eq, h.offset_eq, Glyph.widths_append, Nat.add_assoc]
  file_eq := by
    rw [k.file_eq, h.file_eq, h.offset_eq, Glyph.breakEnds_append, List.foldl_append]
  errors_grow := h.errors_grow.trans k.errors_grow

namespace Reaches

/-- What else a cursor knows does not count. -/
theorem of_errors {c later : Cursor} (hrest : later.rest = c.rest)
    (hoffset : later.offset = c.offset) (hfile : later.file = c.file)
    (herrors : c.errors <+: later.errors) : c.Reaches later :=
  ⟨[], by simp [hrest], by simp [hoffset, Glyph.widths], by simp [hfile, Glyph.breakEnds], herrors⟩

theorem of_eq {c later : Cursor} (hrest : later.rest = c.rest) (hoffset : later.offset = c.offset)
    (hfile : later.file = c.file) (herrors : later.errors = c.errors) : c.Reaches later :=
  of_errors hrest hoffset hfile (herrors ▸ List.prefix_rfl)

theorem refl (c : Cursor) : c.Reaches c := of_eq rfl rfl rfl rfl

theorem trans {a b c : Cursor} (h : a.Reaches b) (k : b.Reaches c) : a.Reaches c := by
  obtain ⟨r, hr⟩ := h
  obtain ⟨s, hs⟩ := k
  exact ⟨r ++ s, hr.trans hs⟩

theorem offset_le {c later : Cursor} (h : c.Reaches later) : c.offset ≤ later.offset := by
  obtain ⟨read, hread⟩ := h
  rw [hread.offset_eq]
  exact Nat.le_add_right _ _

theorem errors_grow {c later : Cursor} (h : c.Reaches later) : c.errors <+: later.errors := by
  obtain ⟨read, hread⟩ := h
  exact hread.errors_grow

/-- Reading on keeps the end of the source where it is. -/
theorem end_eq {c later : Cursor} (h : c.Reaches later) :
    later.offset + Glyph.widths later.rest = c.offset + Glyph.widths c.rest := by
  obtain ⟨read, hread⟩ := h
  rw [hread.offset_eq, hread.rest_eq, Glyph.widths_append, Nat.add_assoc]

theorem offset_lt {c later : Cursor} (h : c.Reaches later)
    (hlength : later.rest.length < c.rest.length) : c.offset < later.offset := by
  obtain ⟨read, hread⟩ := h
  cases read with
  | nil =>
    rw [hread.rest_eq, List.nil_append] at hlength
    exact absurd hlength (Nat.lt_irrefl _)
  | cons g rest =>
    rw [hread.offset_eq, Glyph.widths]
    exact Nat.lt_add_of_pos_right (Nat.add_pos_left g.width_pos _)

end Reaches

/-! ### The steps of a cursor -/

theorem reaches_report (c : Cursor) (offset : Nat) (cause : ScanCause) :
    c.Reaches (c.report offset cause) := .of_errors rfl rfl rfl (List.prefix_append _ _)

theorem reaches_arrive (c : Cursor) : c.Reaches c.arrive := by
  unfold arrive
  split
  · exact reaches_report ..
  · split
    · exact reaches_report ..
    · exact .refl c
  · exact .refl c

theorem past_advance {c : Cursor} {g : Glyph} {rest : List Glyph} (h : c.rest = g :: rest) :
    c.Past [g] { c.leave g with rest, offset := c.offset + g.width } where
  rest_eq := h
  offset_eq := rfl
  file_eq := by
    unfold leave
    by_cases hg : g = .char '\n'
    · simp [hg, Glyph.breakEnds]
    · simp [hg, Glyph.breakEnds]
  errors_grow := by
    unfold leave
    split <;> exact List.prefix_rfl

theorem reaches_advance (c : Cursor) : c.Reaches c.advance := by
  unfold advance
  split
  · exact .refl c
  · next g rest h => exact .trans ⟨[g], past_advance h⟩ (reaches_arrive _)

theorem reaches_advanceBy (n : Nat) (c : Cursor) : c.Reaches (c.advanceBy n) := by
  induction n generalizing c with
  | zero => exact .refl c
  | succ n ih => exact (reaches_advance c).trans (ih _)

/-- Reading on past a number of glyphs leaves behind exactly these. -/
theorem offset_advanceBy (n : Nat) (c : Cursor) :
    (c.advanceBy n).offset = c.offset + Glyph.widths (c.rest.take n) := by
  have hend := (reaches_advanceBy n c).end_eq
  have hsplit : Glyph.widths c.rest =
      Glyph.widths (c.rest.take n) + Glyph.widths (c.rest.drop n) := by
    rw [← Glyph.widths_append, List.take_append_drop]
  rw [advanceBy_rest, hsplit] at hend
  omega

theorem reaches_skipBlanks (c : Cursor) : c.Reaches c.skipBlanks := reaches_advanceBy _ c

/-- Walking is reading on. -/
theorem Walks.reaches {limit : Nat} {c later : Cursor} (h : c.Walks limit later) :
    c.Reaches later := by
  induction h with
  | refl => exact .refl c
  | advance _ ih => exact ih.trans (reaches_advance _)
  | report _ _ _ _ ih => exact ih.trans (reaches_report ..)
  | settle _ _ _ ih => exact ih.trans (.of_eq rfl rfl rfl rfl)

/-! ### Lexemes -/

theorem numberDigits_reaches (c : Cursor) : c.numberDigits.Reaches c.numberEnd.1 :=
  (numberDigits_moves c : Moves 0 _ _).walks.reaches

theorem numberEnd_reaches (c : Cursor) : c.numberEnd.1.Reaches c.number.1 :=
  (numberEnd_moves c : Moves 0 _ _).walks.reaches

theorem reaches_escapeDigits (radix start count value : Nat) (c : Cursor) :
    c.Reaches (escapeDigits radix start count value c).1 :=
  (moves_escapeDigits radix start count value (.inl (Nat.le_refl start))).walks.reaches

theorem reaches_escape (quote : Char) (c : Cursor) : c.Reaches (c.escape quote).1 :=
  (moves_escape quote c : Moves 0 _ _).walks.reaches

theorem reaches_quotedRest (start : Nat) (quote : Char) (c : Cursor) :
    c.Reaches (c.quotedRest start quote) :=
  (moves_quotedRest quote c (.inl (Nat.le_refl start))).walks.reaches

theorem reaches_charRest (start : Nat) (count : Option Nat) (c : Cursor) :
    c.Reaches (c.charRest start count).1 :=
  (moves_charRest count c (.inl (Nat.le_refl start))).walks.reaches

theorem reaches_pastFence (start fence : Nat) (cause : ScanCause) (c : Cursor) :
    c.Reaches (c.pastFence start fence cause) := by
  unfold pastFence
  dsimp only
  split
  · exact reaches_advanceBy _ c
  · exact (reaches_advanceBy _ c).trans (reaches_report ..)

theorem reaches_lexeme (c : Cursor) (g : Glyph) : c.Reaches (c.lexeme g).1 :=
  (walks_lexeme c g : Walks 0 _ _).reaches

theorem number_pos (c : Cursor) : c.number.2.pos = c.offset := by
  rw [number_eq]
  dsimp only
  split <;> rfl

theorem char_pos (c : Cursor) : c.char.2.pos = c.offset := by
  unfold char
  split <;> rfl

/-- A lexeme begins where the cursor stood before it. -/
theorem lexeme_pos (c : Cursor) (g : Glyph) : (c.lexeme g).2.pos = c.offset := by
  unfold lexeme
  split
  · rfl
  · split
    · exact number_pos c
    · split
      · rfl
      · split
        · exact char_pos c
        · split
          · rfl
          · split <;> rfl

/-! ### Comments -/

theorem reaches_comment (c : Cursor) : c.Reaches c.comment.1 :=
  (walks_comment c : Walks 0 _ _).reaches

theorem comment_kind (c : Cursor) : c.comment.2.kind = .comment := by
  unfold comment
  split <;> rfl

theorem comment_pos (c : Cursor) : c.comment.2.pos = c.offset := by
  unfold comment
  split <;> rfl

/-! ### Pragma lines -/

/-- The tokens of a pragma's body begin inside it. -/
theorem bodyTokens_pos (c : Cursor) :
    c.Reaches c.bodyTokens.1 ∧ ∀ t ∈ c.bodyTokens.2, t.pos ≤ c.bodyTokens.1.offset := by
  fun_induction bodyTokens c with
  | case1 c => exact ⟨reaches_skipBlanks c, by simp⟩
  | case2 c _ _ _ _ ih =>
    exact ⟨(reaches_skipBlanks c).trans ((reaches_comment _).trans ih.1), ih.2⟩
  | case3 c g _ _ _ more ih =>
    have hmore := (reaches_lexeme c.skipBlanks g).trans ih.1
    refine ⟨(reaches_skipBlanks c).trans hmore, ?_⟩
    intro t ht
    rcases List.mem_cons.1 ht with rfl | ht
    · rw [lexeme_pos]
      exact hmore.offset_le
    · exact ih.2 t ht

theorem bodyStart_errors (c : Cursor) (head size : Nat) :
    c.errors <+: (c.bodyStart head size).errors := by
  have harrive (d : Cursor) (h : d.errors = c.errors) : c.errors <+: d.arrive.errors :=
    h ▸ (reaches_arrive d).errors_grow
  exact harrive _ rfl

theorem reaches_pragma (c : Cursor) (head : Nat) : c.Reaches (c.pragma head).1 := by
  let size := Glyph.countUntil endsPragma (c.rest.drop head)
  let body := (c.bodyStart head size).bodyTokens.1
  have hbody : c.errors <+: body.errors :=
    (bodyStart_errors c head size).trans (bodyTokens_pos _).1.errors_grow
  have hstart : c.Reaches { c with errors := body.errors } := .of_errors rfl rfl rfl hbody
  exact hstart.trans <| (reaches_advanceBy _ _).trans <|
    (reaches_advance _).trans (.of_eq rfl rfl rfl rfl)

/-- The cursor in a pragma's body sees the source to the end of the body. -/
theorem bodyStart_end (c : Cursor) (head size : Nat) :
    (c.bodyStart head size).offset + Glyph.widths (c.bodyStart head size).rest =
      c.offset + Glyph.widths (c.rest.take (head + size)) := by
  unfold bodyStart
  have h := (reaches_arrive { c with
    rest := (c.rest.drop head).take size
    offset := c.offset + Glyph.widths (c.rest.take head)
    pending := false
    nesting := {}
    options := { c.options with
      comments := false, noAutoSemicolons := true, mixed := false, noPragma := true } }).end_eq
  rw [h, Nat.add_assoc, ← Glyph.widths_append, ← List.take_add]

/-- No token of what was read begins behind the cursor that was reached. -/
def Placed (read : Cursor × Token × List Token) : Prop :=
  read.2.1.pos ≤ read.1.offset ∧ ∀ t ∈ read.2.2, t.pos ≤ read.1.offset

theorem placed_pragma (c : Cursor) (head : Nat) : Placed (c.pragma head) := by
  refine ⟨(reaches_pragma c head).offset_le, ?_⟩
  have hbody (size : Nat) (errors : List ScanError) :
      (c.bodyStart head size).bodyTokens.1.offset ≤
        (advanceBy (head + size) { c with errors }).offset := by
    have hend := (bodyTokens_pos (c.bodyStart head size)).1.end_eq
    rw [bodyStart_end] at hend
    rw [offset_advanceBy]
    exact Nat.le.intro hend
  intro t ht
  have hlast : (advanceBy _ { c with errors := _ }).offset ≤ (c.pragma head).1.offset :=
    (reaches_advance _).offset_le
  rcases List.mem_append.1 ht with ht | ht
  · exact Nat.le_trans ((bodyTokens_pos _).2 t ht) (Nat.le_trans (hbody _ _) hlast)
  · rw [List.mem_singleton.1 ht]
    exact hlast

/-! ### Templates -/

theorem enterCode_rest (c : Cursor) (length : Nat) (isValue : Bool) :
    (c.enterCode length isValue).rest = c.rest.drop length := advanceBy_rest length c

theorem reaches_enterCode (c : Cursor) (length : Nat) (isValue : Bool) :
    c.Reaches (c.enterCode length isValue) := (reaches_advanceBy _ c).trans (.of_eq rfl rfl rfl rfl)

theorem reaches_codeEnd {c last : Cursor} {token : Token} (h : c.codeEnd? = some (last, token)) :
    c.Reaches last ∧ token.pos = c.offset := by
  unfold codeEnd? at h
  dsimp only at h
  split at h
  · obtain ⟨rfl, rfl⟩ := Prod.mk.inj (Option.some.inj h)
    exact ⟨(reaches_advanceBy _ c).trans (.of_eq rfl rfl rfl rfl), rfl⟩
  · cases h

theorem textToken_pos {start : Nat} {blanks kept : List Glyph} {escaped : Bool} {token : Token}
    (h : textToken? start blanks kept escaped = some token) :
    token.pos = start + Glyph.widths blanks := by
  unfold textToken? at h
  split at h
  · cases h
  · rw [← Option.some.inj h]

theorem widths_takeWhile_le (p : Glyph → Bool) (glyphs : List Glyph) :
    Glyph.widths (glyphs.takeWhile p) ≤ Glyph.widths glyphs := by
  calc Glyph.widths (glyphs.takeWhile p)
      ≤ Glyph.widths (glyphs.takeWhile p) + Glyph.widths (glyphs.dropWhile p) :=
        Nat.le_add_right _ _
    _ = Glyph.widths glyphs := by rw [← Glyph.widths_append, List.takeWhile_append_dropWhile]

/-- How far the text at a cursor reaches, and whether an escaped delimiter is in it. -/
def textRun (c : Cursor) : Nat × Bool :=
  textExtent (!c.options.noPragma) c.options.delimiters.opening (c.offset = c.lineStart) 0 c.rest

/-- The cursor behind the text at a cursor. -/
def textEnd (c : Cursor) : Cursor := { c.advanceBy c.textRun.1 with trimNext := false }

/-- The blanks that the text at a cursor loses at its beginning. -/
def textBlanks (c : Cursor) : List Glyph :=
  if c.trimNext then (c.rest.take c.textRun.1).takeWhile Glyph.isSpace else []

/-- The text at a cursor without the blanks it loses at its beginning. -/
def textKept (c : Cursor) : List Glyph := (c.rest.take c.textRun.1).drop c.textBlanks.length

/-- The opening delimiter behind the text at a cursor, and its length. -/
def textDelimiter (c : Cursor) : Nat × Token :=
  c.textEnd.openingDelimiter c.options.delimiters.opening

/-- The cursor in the code behind the text at a cursor. -/
def textCode (c : Cursor) : Cursor :=
  c.textEnd.enterCode c.textDelimiter.1 (c.textDelimiter.2.kind = .valueBegin)

theorem templateText_eq (c : Cursor) :
    c.templateText =
      if Glyph.startsWith c.textEnd.rest c.options.delimiters.opening &&
          c.textEnd.pragmaLine?.isNone then
        let kept :=
          if c.textDelimiter.2.flags.trimRight then dropTrailingSpace c.textKept else c.textKept
        match textToken? c.offset c.textBlanks kept c.textRun.2 with
        | some text => (c.textCode, text, [c.textDelimiter.2])
        | none => (c.textCode, c.textDelimiter.2, [])
      else
        match textToken? c.offset c.textBlanks c.textKept c.textRun.2 with
        | some text => (c.textEnd, text, [])
        | none =>
          match c.textEnd.pragmaLine? with
          | some head => c.textEnd.pragma head
          | none => (c.textEnd, c.textEnd.endOfFile, []) := rfl

theorem reaches_textEnd (c : Cursor) : c.Reaches c.textEnd :=
  (reaches_advanceBy _ c).trans (.of_eq rfl rfl rfl rfl)

theorem textBlanks_le (c : Cursor) : c.offset + Glyph.widths c.textBlanks ≤ c.textEnd.offset := by
  have hend : c.textEnd.offset = c.offset + Glyph.widths (c.rest.take c.textRun.1) :=
    offset_advanceBy _ c
  rw [hend]
  refine Nat.add_le_add_left ?_ _
  unfold textBlanks
  split
  · exact widths_takeWhile_le ..
  · exact Nat.zero_le _

theorem templateText_reaches_placed (c : Cursor) :
    c.Reaches c.templateText.1 ∧ Placed c.templateText := by
  have hend := reaches_textEnd c
  have hcode : c.textEnd.Reaches c.textCode := reaches_enterCode ..
  have hblanks := textBlanks_le c
  rw [templateText_eq]
  dsimp only
  split
  · split
    · next htoken =>
      refine ⟨hend.trans hcode, ?_, fun t ht => ?_⟩
      · rw [textToken_pos htoken]
        exact Nat.le_trans hblanks hcode.offset_le
      · rw [List.mem_singleton.1 ht]
        exact hcode.offset_le
    · exact ⟨hend.trans hcode, hcode.offset_le, by simp⟩
  · split
    · next htoken => exact ⟨hend, textToken_pos htoken ▸ hblanks, by simp⟩
    · split
      · exact ⟨hend.trans (reaches_pragma _ _), placed_pragma _ _⟩
      · exact ⟨hend, Nat.le_refl _, by simp⟩

/-! ### Tokens -/

theorem code_reaches_placed (c : Cursor) : c.Reaches c.code.1 ∧ Placed c.code := by
  fun_induction code c with
  | case1 c start last token h =>
    obtain ⟨hlast, hpos⟩ := reaches_codeEnd h
    exact ⟨(reaches_skipBlanks c).trans hlast, hpos ▸ hlast.offset_le, by simp⟩
  | case2 c start _ head => exact ⟨(reaches_skipBlanks c).trans (reaches_pragma start head),
      placed_pragma start head⟩
  | case3 c start =>
    exact ⟨(reaches_skipBlanks c).trans (.of_eq rfl rfl rfl rfl), Nat.le_refl _, by simp⟩
  | case4 c start => exact ⟨reaches_skipBlanks c, Nat.le_refl _, by simp⟩
  | case5 c start =>
    exact ⟨(reaches_skipBlanks c).trans (.of_eq rfl rfl rfl rfl), Nat.le_refl _, by simp⟩
  | case6 c start =>
    refine ⟨(reaches_skipBlanks c).trans (reaches_comment start), ?_, by simp⟩
    rw [comment_pos]
    exact (reaches_comment start).offset_le
  | case7 c start =>
    rename_i ih
    exact ⟨(reaches_skipBlanks c).trans ((reaches_comment start).trans ih.1), ih.2⟩
  | case8 c start =>
    have hadvance := reaches_advance start
    exact ⟨(reaches_skipBlanks c).trans (hadvance.trans (.of_eq rfl rfl rfl rfl)),
      hadvance.offset_le, by simp⟩
  | case9 c start _ _ g =>
    refine ⟨(reaches_skipBlanks c).trans (reaches_lexeme start g), ?_, by simp⟩
    rw [lexeme_pos]
    exact (reaches_lexeme start g).offset_le

/-- The tokens that wait to be handed out begin before the cursor. -/
def PoolPlaced (c : Cursor) : Prop := ∀ t ∈ c.pool, t.pos ≤ c.offset

theorem start_pool (file : SourceFile) (options : ScanOptions) (glyphs : List Glyph) :
    (start file options glyphs).pool = [] := by
  unfold start
  dsimp only
  split
  · rw [advance_pool, arrive_pool]
  · rw [arrive_pool]

theorem start_taken (file : SourceFile) (options : ScanOptions) (glyphs : List Glyph) :
    (start file options glyphs).taken = 0 := by
  obtain ⟨_, harrive⟩ := arrive_eq { file, options, rest := glyphs, inText := options.mixed }
  unfold start
  rw [harrive]
  dsimp only
  split
  · obtain ⟨_, _, _, _, _, hadvance⟩ := advance_eq _
    rw [hadvance]
  · rfl

/-- The start of a file is reached from before its first glyph. -/
theorem reaches_start (file : SourceFile) (options : ScanOptions) (glyphs : List Glyph) :
    Reaches { file, options, rest := glyphs, inText := options.mixed }
      (start file options glyphs) := by
  unfold start
  dsimp only
  split
  · exact ((reaches_arrive _).trans (reaches_advance _)).trans (.of_eq rfl rfl rfl rfl)
  · exact reaches_arrive _

theorem poolPlaced_start (file : SourceFile) (options : ScanOptions) (glyphs : List Glyph) :
    (start file options glyphs).PoolPlaced := by
  simp [PoolPlaced, start_pool]

theorem reaches_scan (c : Cursor) : c.Reaches c.scan.1 := by
  unfold scan
  split
  · exact .of_eq rfl rfl rfl rfl
  · dsimp only
    split
    · exact (templateText_reaches_placed c).1.trans (.of_eq rfl rfl rfl rfl)
    · exact (code_reaches_placed c).1.trans (.of_eq rfl rfl rfl rfl)

theorem reaches_scanToEnd (limit : Nat) (c : Cursor) : c.Reaches (scanToEnd limit c).1 := by
  induction limit generalizing c with
  | zero => exact .refl c
  | succ limit ih =>
    rw [scanToEnd]
    dsimp only
    split
    · exact reaches_scan c
    · exact (reaches_scan c).trans (ih _)

theorem scan_placed {c : Cursor} (h : c.PoolPlaced) :
    c.scan.2.pos ≤ c.scan.1.offset ∧ c.scan.1.PoolPlaced := by
  unfold scan
  split
  · next token pool hpool =>
    have hall : ∀ t ∈ token :: pool, t.pos ≤ c.offset := hpool ▸ h
    exact ⟨hall token List.mem_cons_self, fun t ht => hall t (List.mem_cons_of_mem _ ht)⟩
  · dsimp only
    split
    · exact (templateText_reaches_placed c).2
    · exact (code_reaches_placed c).2

end Cursor

end TemplateScript
