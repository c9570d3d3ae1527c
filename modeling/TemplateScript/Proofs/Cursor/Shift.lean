import TemplateScript.Grammar.Template
import TemplateScript.Proofs.Cursor.Lexeme
import TemplateScript.Proofs.Cursor.Weight

/-!
# Cursors further on

A source may be what a longer one ends with. A cursor that has come to where it begins, with nothing
on its mind, reads it as a cursor at the start of the source alone would, in any mode: what is found
is the same, a fixed number of bytes and lines further on. It does not matter either where the
longer source has its file, whether its comments are tokens, how many of its errors were handed out,
or what becomes of the values in its code.
-/

namespace TemplateScript

/-- Where a source is set that a longer one ends with. -/
structure Setting where
  /-- Where the lines before the source start. -/
  starts : List Nat
  /-- How many bytes are before the source. -/
  gap : Nat
  /-- How many bytes are behind it. -/
  behind : Nat
  starts_le : ∀ start ∈ starts, start ≤ gap
  /-- How much further on the file of the longer source begins. -/
  base : Nat := 0
  /-- No comment of the longer source is a token. -/
  quiet : Bool := false
  /-- How many errors of the longer source have been handed out, unless it is as many. -/
  taken : Option Nat := none
  /-- Whether a lone expression of the longer source emits its value, unless it does as here. -/
  sugar : Option Bool := none

/-- A source that begins where the longer one does has no lines before it. -/
theorem Setting.no_starts_le : ∀ start ∈ ([] : List Nat), start ≤ 0 :=
  fun _ hstart => absurd hstart List.not_mem_nil

/-- The file has a first line. -/
def SourceFile.Lined (f : SourceFile) : Prop := f.lines.head? = some 0

/-- The cursor's file has a first line. -/
def Cursor.Lined (c : Cursor) : Prop := c.file.Lined

namespace SourceFile

variable {f : SourceFile}

theorem Lined.addLine (h : f.Lined) (offset : Nat) : (f.addLine offset).Lined := by
  unfold Lined at h
  unfold SourceFile.addLine
  split
  · unfold Lined
    rw [List.head?_append, h]
    rfl
  · exact h

theorem Lined.foldl_addLine (h : f.Lined) (starts : List Nat) :
    (starts.foldl SourceFile.addLine f).Lined := by
  induction starts generalizing f with
  | nil => exact h
  | cons start rest ih => exact ih (h.addLine start)

end SourceFile

theorem Cursor.Lined.reaches {c later : Cursor} (h : c.Lined) (k : c.Reaches later) :
    later.Lined := by
  obtain ⟨read, hread⟩ := k
  unfold Cursor.Lined
  rw [hread.file_eq]
  exact SourceFile.Lined.foldl_addLine h _

theorem Cursor.lined_start {file : SourceFile} (h : file.Lined) (options : ScanOptions)
    (glyphs : List Glyph) : (Cursor.start file options glyphs).Lined := by
  apply Cursor.Lined.reaches _ (Cursor.reaches_start file options glyphs)
  exact h

namespace Cursor

theorem bodyTokens_eq (c : Cursor) :
    c.bodyTokens =
      match c.skipBlanks.rest with
      | [] => (c.skipBlanks, [])
      | g :: _ =>
        if c.skipBlanks.atComment then bodyTokens c.skipBlanks.comment.1
        else
          ((bodyTokens (c.skipBlanks.lexeme g).1).1,
            (c.skipBlanks.lexeme g).2 :: (bodyTokens (c.skipBlanks.lexeme g).1).2) := by
  rw [bodyTokens]
  split <;> rename_i h <;> rw [h]

theorem code_eq (c : Cursor) :
    c.code =
      match c.skipBlanks.codeEnd? with
      | some (last, token) => (last, token, [])
      | none =>
        match c.skipBlanks.pragmaLine? with
        | some head => c.skipBlanks.pragma head
        | none =>
          match c.skipBlanks.rest with
          | [] =>
            if c.skipBlanks.pending then
              ({ c.skipBlanks with pending := false }, c.skipBlanks.insertedSemicolon, [])
            else (c.skipBlanks, c.skipBlanks.endOfFile, [])
          | g :: _ =>
            if c.skipBlanks.atComment then
              if c.skipBlanks.pending && commentEndsLine c.skipBlanks.rest then
                ({ c.skipBlanks with pending := false }, c.skipBlanks.insertedSemicolon, [])
              else if c.skipBlanks.options.comments then
                (c.skipBlanks.comment.1, c.skipBlanks.comment.2, [])
              else code c.skipBlanks.comment.1
            else if g = .char '\n' then
              ({ c.skipBlanks.advance with pending := false }, c.skipBlanks.insertedSemicolon, [])
            else ((c.skipBlanks.lexeme g).1, (c.skipBlanks.lexeme g).2, []) := by
  rw [code]
  dsimp only
  cases c.skipBlanks.codeEnd? with
  | some read => rfl
  | none =>
    cases c.skipBlanks.pragmaLine? with
    | some head => rfl
    | none =>
      dsimp only
      split <;> rename_i h <;> simp only [h]

/-- The length of the body of a pragma line. -/
def bodySize (c : Cursor) (head : Nat) : Nat :=
  Glyph.countUntil endsPragma (c.rest.drop head)

/-- The tokens in the body of a pragma line, and the cursor behind them. -/
def pragmaBody (c : Cursor) (head : Nat) : Cursor × List Token :=
  (c.bodyStart head (c.bodySize head)).bodyTokens

/-- The cursor behind the body of a pragma line. -/
def pragmaLast (c : Cursor) (head : Nat) : Cursor :=
  advanceBy (head + c.bodySize head) { c with errors := (c.pragmaBody head).1.errors }

theorem pragma_eq (c : Cursor) (head : Nat) :
    c.pragma head =
      ({ (c.pragmaLast head).advance with pending := false },
        ⟨.pragmaStart, Glyph.text (c.rest.take head), c.offset, {}⟩,
        (c.pragmaBody head).2 ++ [⟨.pragmaEnd, "", (c.pragmaLast head).offset, {}⟩]) := rfl

end Cursor

namespace Setting

variable (s : Setting)

/-- How many lines start before the source. -/
def lines : Nat := s.starts.length

/-- The file of the longer source. -/
def file (f : SourceFile) : SourceFile :=
  { f with
    base := f.base + s.base
    size := f.size + s.gap + s.behind
    lines := s.starts ++ f.lines.map (· + s.gap) }

/-- The options for the longer source. -/
def options (o : ScanOptions) : ScanOptions :=
  { o with comments := o.comments && !s.quiet, valueSugar := s.sugar.getD o.valueSugar }

/-- The cursor in the longer source. -/
def cursor (c : Cursor) : Cursor :=
  { c with
    file := s.file c.file
    options := s.options c.options
    offset := c.offset + s.gap
    lineStart := c.lineStart + s.gap
    pool := c.pool.map (·.shift s.gap)
    errors := c.errors.map (·.shift s.gap s.lines)
    taken := s.taken.getD c.taken }

/-- What was read in the longer source. -/
def read {α : Type} (r : Cursor × α) : Cursor × α := (s.cursor r.1, r.2)

/-- The token that was read in the longer source. -/
def handed (r : Cursor × Token) : Cursor × Token := (s.cursor r.1, r.2.shift s.gap)

/-- The tokens that were read in the longer source. -/
def handedAll (r : Cursor × Token × List Token) : Cursor × Token × List Token :=
  (s.cursor r.1, r.2.1.shift s.gap, r.2.2.map (·.shift s.gap))

/-- What is read inside the source is the same in the longer one. Where that goes on behind the
source, no line break may be the last thing read. -/
structure Reads (c : Cursor) : Prop where
  lined : c.Lined
  breaks : s.behind ≠ 0 → .char '\n' ∉ c.rest

variable {s} {c : Cursor} {f : SourceFile}

theorem Reads.inside {later : Cursor} (h : s.Reads c) (hfile : later.file = c.file)
    (hrest : later.rest ⊆ c.rest) : s.Reads later :=
  ⟨(congrArg SourceFile.Lined hfile).mpr h.lined, fun hbehind hmem => h.breaks hbehind (hrest hmem)⟩

theorem Reads.reaches {later : Cursor} (h : s.Reads c) (k : c.Reaches later) : s.Reads later := by
  refine ⟨h.lined.reaches k, fun hbehind hmem => ?_⟩
  obtain ⟨read, hread⟩ := k
  exact h.breaks hbehind (hread.rest_eq ▸ List.mem_append_right _ hmem)

@[simp] theorem cursor_rest : (s.cursor c).rest = c.rest := rfl

@[simp] theorem cursor_options : (s.cursor c).options = s.options c.options := rfl

@[simp] theorem options_mixed (o : ScanOptions) : (s.options o).mixed = o.mixed := rfl

@[simp] theorem options_noPragma (o : ScanOptions) : (s.options o).noPragma = o.noPragma := rfl

@[simp] theorem options_charAsString (o : ScanOptions) :
    (s.options o).charAsString = o.charAsString := rfl

@[simp] theorem options_delimiters (o : ScanOptions) : (s.options o).delimiters = o.delimiters :=
  rfl

@[simp] theorem cursor_offset : (s.cursor c).offset = c.offset + s.gap := rfl

@[simp] theorem cursor_pending : (s.cursor c).pending = c.pending := rfl

@[simp] theorem cursor_inText : (s.cursor c).inText = c.inText := rfl

@[simp] theorem cursor_inValue : (s.cursor c).inValue = c.inValue := rfl

@[simp] theorem cursor_trimNext : (s.cursor c).trimNext = c.trimNext := rfl

@[simp] theorem cursor_nesting : (s.cursor c).nesting = c.nesting := rfl

/-! ### Lines -/

theorem place_file (h : f.Lined) (offset : Nat) :
    (s.file f).place (offset + s.gap) = (f.place offset).shift s.gap s.lines := by
  obtain ⟨rest, hlines⟩ : ∃ rest, f.lines = 0 :: rest := List.head?_eq_some_iff.1 h
  have htake : (s.file f).lines.takeWhile (· ≤ offset + s.gap) =
      s.starts ++ (f.lines.takeWhile (· ≤ offset)).map (· + s.gap) := by
    rw [file, List.takeWhile_append_of_pos, List.takeWhile_map]
    · simp [Function.comp_def]
    · intro start hstart
      have := s.starts_le start hstart
      simp only [decide_eq_true_eq]
      omega
  obtain ⟨start, hstart⟩ : ∃ start, (f.lines.takeWhile (· ≤ offset)).getLast? = some start := by
    rw [hlines, List.takeWhile_cons_of_pos (by simp)]
    exact ⟨_, List.getLast?_cons⟩
  have hlast : (s.starts ++ (f.lines.takeWhile (· ≤ offset)).map (· + s.gap)).getLast? =
      some (start + s.gap) := by
    rw [List.getLast?_append, List.getLast?_map, hstart]
    rfl
  unfold SourceFile.place
  rw [htake]
  simp only [hstart, hlast, Place.shift, List.length_append, List.length_map]
  unfold file lines
  congr 1 <;> omega

theorem addLine_file (h : f.Lined) (hbehind : s.behind = 0) (offset : Nat) :
    (s.file f).addLine (offset + s.gap) = s.file (f.addLine offset) := by
  obtain ⟨rest, hlines⟩ : ∃ rest, f.lines = 0 :: rest := List.head?_eq_some_iff.1 h
  obtain ⟨start, hstart⟩ : ∃ start, f.lines.getLast? = some start := by
    rw [hlines]
    exact ⟨_, List.getLast?_cons⟩
  have hlast : (s.file f).lines.getLast? = some (start + s.gap) := by
    rw [file, List.getLast?_append, List.getLast?_map, hstart]
    rfl
  have hsize : (s.file f).size = f.size + s.gap := congrArg (f.size + s.gap + ·) hbehind
  unfold SourceFile.addLine
  rw [hlast, hstart, hsize]
  simp only [Option.all_some, decide_eq_true_eq, Nat.add_lt_add_iff_right]
  split
  · simp [file, hbehind, List.append_assoc]
  · rfl

/-! ### Moving -/

theorem report_cursor (h : s.Reads c) (offset : Nat) (cause : ScanCause) :
    (s.cursor c).report (offset + s.gap) cause = s.cursor (c.report offset cause) := by
  have hplace := place_file (s := s) h.lined offset
  simp only [Cursor.report, cursor, List.map_append, List.map_singleton, ScanError.shift, hplace]

/-- Only at the start of the file a byte order mark may stand. -/
theorem arrive_cursor (h : s.Reads c) (hpos : 0 < c.offset ∨ s.gap = 0) :
    (s.cursor c).arrive = s.cursor c.arrive := by
  have hinside : 0 < c.offset + s.gap ↔ 0 < c.offset := by omega
  unfold Cursor.arrive
  rw [cursor_rest]
  split
  · exact report_cursor h _ _
  · rw [cursor_offset]
    simp only [hinside]
    split
    · exact report_cursor h _ _
    · rfl
  · rfl

theorem leave_cursor (h : s.Reads c) {g : Glyph} (hg : g ∈ c.rest) :
    (s.cursor c).leave g = s.cursor (c.leave g) := by
  unfold Cursor.leave
  split
  · next hbreak =>
    have hbehind : s.behind = 0 := by_contra fun hne => h.breaks hne (hbreak ▸ hg)
    have hfile := addLine_file (s := s) h.lined hbehind (c.offset + 1)
    simp only [cursor, Nat.add_right_comm c.offset s.gap 1, hfile]
  · rfl

theorem advance_cursor (h : s.Reads c) : (s.cursor c).advance = s.cursor c.advance := by
  cases hrest : c.rest with
  | nil => simp only [Cursor.advance, cursor_rest, hrest]
  | cons g rest =>
    have hpast : s.Reads { c.leave g with rest, offset := c.offset + g.width } :=
      h.reaches ⟨[g], Cursor.past_advance hrest⟩
    have harrive := arrive_cursor (s := s) hpast (.inl (Nat.add_pos_right _ g.width_pos))
    simp only [Cursor.advance, cursor_rest, hrest]
    rw [← harrive, leave_cursor h (by simp [hrest]), cursor_offset, Nat.add_right_comm]
    rfl

theorem advanceBy_cursor (h : s.Reads c) (n : Nat) :
    (s.cursor c).advanceBy n = s.cursor (c.advanceBy n) := by
  induction n generalizing c with
  | zero => rfl
  | succ n ih =>
    rw [Cursor.advanceBy, Cursor.advanceBy, advance_cursor h,
      ih (h.reaches (Cursor.reaches_advance c))]

theorem skipBlanks_cursor (h : s.Reads c) : (s.cursor c).skipBlanks = s.cursor c.skipBlanks :=
  advanceBy_cursor h _

/-! ### Lexemes -/

theorem word_cursor (h : s.Reads c) : (s.cursor c).word = s.handed c.word := by
  unfold Cursor.word
  rw [cursor_rest, advanceBy_cursor h]
  rfl

theorem mark_cursor (h : s.Reads c) (kind : Token.Kind) :
    (s.cursor c).mark kind = s.handed (c.mark kind) := by
  unfold Cursor.mark
  rw [advanceBy_cursor h]
  rfl

theorem stray_cursor (h : s.Reads c) (g : Glyph) : (s.cursor c).stray g = s.handed (c.stray g) := by
  unfold Cursor.stray
  rw [advance_cursor h, cursor_offset, report_cursor (h.reaches (Cursor.reaches_advance c))]
  rfl

theorem numberDigits_cursor (h : s.Reads c) :
    (s.cursor c).numberDigits = s.cursor c.numberDigits := by
  have hbody : (s.cursor c).numberBody = c.numberBody := rfl
  unfold Cursor.numberDigits
  rw [hbody, advanceBy_cursor h]
  dsimp only
  split
  · rfl
  · exact report_cursor (h.reaches (Cursor.reaches_advanceBy _ c)) _ _

theorem numberEnd_cursor (h : s.Reads c) : (s.cursor c).numberEnd = s.read c.numberEnd := by
  have hdigits : c.Reaches c.numberDigits :=
    (Cursor.moves_numberDigits c : Cursor.Moves 0 _ _).walks.reaches
  have hbody : (s.cursor c).numberBody = c.numberBody := rfl
  unfold Cursor.numberEnd
  rw [numberDigits_cursor h, hbody, cursor_rest]
  split
  · rw [advance_cursor (h.reaches hdigits)]
    rfl
  · rfl

theorem number_cursor (h : s.Reads c) : (s.cursor c).number = s.handed c.number := by
  have hend : c.Reaches c.numberEnd.1 := (Cursor.moves_numberEnd c : Cursor.Moves 0 _ _).walks.reaches
  have hlast := hend.trans (Cursor.reaches_advanceBy (Cursor.wordRun c.numberEnd.1.rest) _)
  rw [Cursor.number_eq, Cursor.number_eq, numberEnd_cursor h]
  dsimp only [read]
  rw [cursor_rest, cursor_offset, advanceBy_cursor (h.reaches hend)]
  split
  · rfl
  · rw [report_cursor (h.reaches hlast)]
    rfl

theorem escapeDigits_cursor (h : s.Reads c) (radix start count value : Nat) :
    Cursor.escapeDigits radix (start + s.gap) count value (s.cursor c) =
      s.read (Cursor.escapeDigits radix start count value c) := by
  induction count generalizing value c with
  | zero => rfl
  | succ count ih =>
    rw [Cursor.escapeDigits, Cursor.escapeDigits, cursor_rest]
    split
    · rw [report_cursor h]
      rfl
    · split
      · rw [cursor_offset, report_cursor h]
        rfl
      · rw [advance_cursor h, ih (h.reaches (Cursor.reaches_advance c))]

theorem escape_cursor (h : s.Reads c) (quote : Char) :
    (s.cursor c).escape quote = s.read (c.escape quote) := by
  have hadvance := h.reaches (Cursor.reaches_advance c)
  unfold Cursor.escape
  rw [cursor_rest]
  split
  · rw [cursor_offset, report_cursor h]
    rfl
  · dsimp only
    split
    · rw [advance_cursor h]
      rfl
    · split
      · rw [cursor_offset, report_cursor h]
        rfl
      · next radix count _ =>
        have hstart : (if radix = 8 then s.cursor c else (s.cursor c).advance) =
            s.cursor (if radix = 8 then c else c.advance) := by
          split
          · rfl
          · exact advance_cursor h
        have hlined : s.Reads (if radix = 8 then c else c.advance) := by
          split
          · exact h
          · exact hadvance
        have hread := hlined.reaches (Cursor.reaches_escapeDigits radix c.offset count 0 _)
        rw [hstart, cursor_offset, escapeDigits_cursor hlined]
        generalize Cursor.escapeDigits radix c.offset count 0 _ = digits at hread
        obtain ⟨last, value⟩ := digits
        cases value with
        | none => rfl
        | some value =>
          dsimp only [read]
          split
          · rw [report_cursor hread]
          · rfl

theorem quotedRest_cursor (h : s.Reads c) (start : Nat) (quote : Char) :
    (s.cursor c).quotedRest (start + s.gap) quote = s.cursor (c.quotedRest start quote) := by
  fun_induction Cursor.quotedRest start quote c with
  | case1 c hrest =>
    rw [Cursor.quotedRest_eq, cursor_rest, hrest]
    exact report_cursor h _ _
  | case2 c rest hrest =>
    rw [Cursor.quotedRest_eq, cursor_rest, hrest]
    exact report_cursor h _ _
  | case3 c rest hrest hbreak ih =>
    have hadvance := h.reaches (Cursor.reaches_advance c)
    rw [Cursor.quotedRest_eq, cursor_rest, hrest]
    dsimp only
    rw [if_neg hbreak, if_pos rfl, advance_cursor h, escape_cursor hadvance]
    exact ih (hadvance.reaches (Cursor.reaches_escape ..))
  | case4 c rest hrest hbreak hescape =>
    rw [Cursor.quotedRest_eq, cursor_rest, hrest]
    dsimp only
    rw [if_neg hbreak, if_neg hescape, if_pos rfl, advance_cursor h]
  | case5 c g rest hrest hbreak hescape hquote ih =>
    rw [Cursor.quotedRest_eq, cursor_rest, hrest]
    dsimp only
    rw [if_neg hbreak, if_neg hescape, if_neg hquote, advance_cursor h]
    exact ih (h.reaches (Cursor.reaches_advance c))

theorem charRest_cursor (h : s.Reads c) (start : Nat) (count : Option Nat) :
    (s.cursor c).charRest (start + s.gap) count = s.read (c.charRest start count) := by
  fun_induction Cursor.charRest start count c with
  | case1 count c hrest =>
    rw [Cursor.charRest_eq, cursor_rest, hrest]
    exact congrArg (·, none) (report_cursor h _ _)
  | case2 count c rest hrest =>
    rw [Cursor.charRest_eq, cursor_rest, hrest]
    exact congrArg (·, none) (report_cursor h _ _)
  | case3 count c rest hrest hbreak =>
    rw [Cursor.charRest_eq, cursor_rest, hrest]
    dsimp only
    rw [if_neg hbreak, if_pos rfl, advance_cursor h]
    rfl
  | case4 count c rest step hrest hbreak hquote =>
    rename_i ih
    have hadvance := h.reaches (Cursor.reaches_advance c)
    rw [Cursor.charRest_eq, cursor_rest, hrest]
    dsimp only
    rw [if_neg hbreak, if_neg hquote, if_pos rfl, advance_cursor h, escape_cursor hadvance]
    exact ih (hadvance.reaches (Cursor.reaches_escape ..))
  | case5 count c g rest hrest hbreak hquote hescape ih =>
    rw [Cursor.charRest_eq, cursor_rest, hrest]
    dsimp only
    rw [if_neg hbreak, if_neg hquote, if_neg hescape, advance_cursor h]
    exact ih (h.reaches (Cursor.reaches_advance c))

theorem quoted_cursor (h : s.Reads c) (quote : Char) :
    (s.cursor c).quoted quote = s.handed (c.quoted quote) := by
  unfold Cursor.quoted
  rw [advance_cursor h, cursor_offset, quotedRest_cursor (h.reaches (Cursor.reaches_advance c))]
  rfl

theorem char_cursor (h : s.Reads c) : (s.cursor c).char = s.handed c.char := by
  have hadvance := h.reaches (Cursor.reaches_advance c)
  have hlast := hadvance.reaches (Cursor.reaches_charRest c.offset (some 0) c.advance)
  unfold Cursor.char
  rw [cursor_options, options_charAsString]
  split
  · exact quoted_cursor h _
  · rw [advance_cursor h, cursor_offset, charRest_cursor hadvance]
    dsimp only [read]
    split
    · rfl
    · rw [report_cursor hlast]
      rfl

theorem pastFence_cursor (h : s.Reads c) (start fence : Nat) (cause : ScanCause) :
    (s.cursor c).pastFence (start + s.gap) fence cause =
      s.cursor (c.pastFence start fence cause) := by
  unfold Cursor.pastFence
  rw [cursor_rest]
  dsimp only
  split
  · exact advanceBy_cursor h _
  · rw [advanceBy_cursor h, report_cursor (h.reaches (Cursor.reaches_advanceBy _ c))]

theorem raw_cursor (h : s.Reads c) : (s.cursor c).raw = s.handed c.raw := by
  have hopened := h.reaches
    (Cursor.reaches_advanceBy (Glyph.countWhile (· = Cursor.fenceGlyph) c.rest) c)
  unfold Cursor.raw
  dsimp only
  rw [cursor_rest, advanceBy_cursor h, cursor_offset]
  split
  · rw [pastFence_cursor hopened]
    rfl
  · split
    · rfl
    · rw [pastFence_cursor hopened]
      rfl

theorem closing_handed (read : Cursor × Token) :
    (s.cursor c).closing (s.handed read) = s.handed (c.closing read) := rfl

theorem lexeme_cursor (h : s.Reads c) (g : Glyph) :
    (s.cursor c).lexeme g = s.handed (c.lexeme g) := by
  unfold Cursor.lexeme
  rw [show (s.cursor c).atWord = c.atWord from rfl,
    show (s.cursor c).atNumber = c.atNumber from rfl,
    cursor_rest, word_cursor h, number_cursor h, quoted_cursor h, char_cursor h, raw_cursor h]
  split
  · exact closing_handed _
  · split
    · exact closing_handed _
    · split
      · exact closing_handed _
      · split
        · exact closing_handed _
        · split
          · exact closing_handed _
          · split
            · rw [mark_cursor h]
              exact closing_handed _
            · exact stray_cursor h g

/-! ### Comments -/

theorem blockComment_cursor (h : s.Reads c) :
    (s.cursor c).blockComment = s.cursor c.blockComment := by
  have hlast := h.reaches (Cursor.reaches_advanceBy
    (Glyph.countUntil (Glyph.startsWith · "*/") (c.rest.drop 2) + 2) c)
  unfold Cursor.blockComment
  dsimp only
  rw [cursor_rest, advanceBy_cursor h, cursor_rest]
  split
  · exact report_cursor hlast _ _
  · exact advanceBy_cursor hlast _

theorem comment_cursor (h : s.Reads c) : (s.cursor c).comment = s.handed c.comment := by
  unfold Cursor.comment
  rw [cursor_rest, show (s.cursor c).lineComment = s.cursor c.lineComment from advanceBy_cursor h _,
    blockComment_cursor h]
  split
  · rfl
  · rfl

/-! ### Pragma lines -/

theorem bodyTokens_cursor (h : s.Reads c) :
    (s.cursor c).bodyTokens = (s.cursor c.bodyTokens.1, c.bodyTokens.2.map (·.shift s.gap)) := by
  fun_induction Cursor.bodyTokens c with
  | case1 c hrest =>
    rw [Cursor.bodyTokens_eq, skipBlanks_cursor h, cursor_rest, hrest]
    rfl
  | case2 c g rest hrest hcomment ih =>
    have hblanks := h.reaches (Cursor.reaches_skipBlanks c)
    rw [Cursor.bodyTokens_eq, skipBlanks_cursor h, cursor_rest, hrest]
    dsimp only
    rw [show (s.cursor c.skipBlanks).atComment = c.skipBlanks.atComment from rfl, if_pos hcomment,
      comment_cursor hblanks]
    exact ih (hblanks.reaches (Cursor.reaches_comment _))
  | case3 c g rest hrest hcomment more ih =>
    have hblanks := h.reaches (Cursor.reaches_skipBlanks c)
    have hmore := ih (hblanks.reaches (Cursor.reaches_lexeme _ g))
    rw [Cursor.bodyTokens_eq, skipBlanks_cursor h, cursor_rest, hrest]
    dsimp only
    rw [show (s.cursor c.skipBlanks).atComment = c.skipBlanks.atComment from rfl, if_neg hcomment,
      lexeme_cursor hblanks]
    dsimp only [handed]
    rw [hmore]
    rfl

theorem pragmaLine?_cursor : (s.cursor c).pragmaLine? = c.pragmaLine? := by
  have hstart : (s.cursor c).offset ≠ (s.cursor c).lineStart ↔ c.offset ≠ c.lineStart :=
    not_congr Nat.add_right_cancel_iff
  simp only [Cursor.pragmaLine?, hstart, cursor_options, options_noPragma, cursor_rest]

/-- The head of a pragma line is not empty. -/
theorem bodyStart_cursor (h : s.Reads c) {head : Nat} (hhead : c.pragmaLine? = some head)
    (size : Nat) : (s.cursor c).bodyStart head size = s.cursor (c.bodyStart head size) := by
  obtain ⟨hpos, hle⟩ : 0 < head ∧ head ≤ c.rest.length := by
    unfold Cursor.pragmaLine? at hhead
    split at hhead
    · cases hhead
    · exact Cursor.pragmaHead?_le hhead
  have hwidth : 0 < Glyph.widths (c.rest.take head) := by
    obtain ⟨g, rest, hrest⟩ := List.exists_cons_of_length_pos (Nat.lt_of_lt_of_le hpos hle)
    rw [hrest, show head = head - 1 + 1 by omega, List.take_succ_cons, Glyph.widths]
    exact Nat.add_pos_left g.width_pos _
  have harrive := arrive_cursor (s := s) (c := { c with
    rest := (c.rest.drop head).take size
    offset := c.offset + Glyph.widths (c.rest.take head)
    pending := false
    nesting := {}
    options := { c.options with
      comments := false, noAutoSemicolons := true, mixed := false, noPragma := true } })
    (h.inside rfl fun _ hg => List.mem_of_mem_drop (List.mem_of_mem_take hg))
    (.inl (Nat.add_pos_right _ hwidth))
  unfold Cursor.bodyStart
  rw [← harrive, cursor_rest, cursor_offset, Nat.add_right_comm]
  rfl

theorem pragmaBody_cursor (h : s.Reads c) {head : Nat} (hhead : c.pragmaLine? = some head) :
    (s.cursor c).pragmaBody head =
      (s.cursor (c.pragmaBody head).1, (c.pragmaBody head).2.map (·.shift s.gap)) := by
  have hcut : s.Reads { c with
      rest := (c.rest.drop head).take (c.bodySize head)
      offset := c.offset + Glyph.widths (c.rest.take head)
      pending := false
      nesting := {}
      options := { c.options with
        comments := false, noAutoSemicolons := true, mixed := false, noPragma := true } } :=
    h.inside rfl fun _ hg => List.mem_of_mem_drop (List.mem_of_mem_take hg)
  have hstart : s.Reads (c.bodyStart head (c.bodySize head)) :=
    hcut.reaches (Cursor.reaches_arrive _)
  unfold Cursor.pragmaBody
  rw [show (s.cursor c).bodySize head = c.bodySize head from rfl, bodyStart_cursor h hhead,
    bodyTokens_cursor hstart]

theorem pragmaLast_cursor (h : s.Reads c) {head : Nat} (hhead : c.pragmaLine? = some head) :
    (s.cursor c).pragmaLast head = s.cursor (c.pragmaLast head) := by
  have hlined : s.Reads { c with errors := (c.pragmaBody head).1.errors } := ⟨h.lined, h.breaks⟩
  unfold Cursor.pragmaLast
  rw [pragmaBody_cursor h hhead, ← advanceBy_cursor hlined]
  rfl

theorem pragma_cursor (h : s.Reads c) {head : Nat} (hhead : c.pragmaLine? = some head) :
    (s.cursor c).pragma head = s.handedAll (c.pragma head) := by
  have hlined : s.Reads { c with errors := (c.pragmaBody head).1.errors } := ⟨h.lined, h.breaks⟩
  have hlast : s.Reads (c.pragmaLast head) := hlined.reaches (Cursor.reaches_advanceBy _ _)
  rw [Cursor.pragma_eq, Cursor.pragma_eq, pragmaLast_cursor h hhead, advance_cursor hlast,
    pragmaBody_cursor h hhead]
  simp only [handedAll, List.map_append]
  rfl

/-! ### Tokens -/

theorem codeEnd?_cursor (h : s.Reads c) :
    (s.cursor c).codeEnd? = c.codeEnd?.map s.handed := by
  unfold Cursor.codeEnd?
  dsimp only
  rw [cursor_rest, cursor_options, options_delimiters,
    show (s.cursor c).isDelimited = c.isDelimited from rfl]
  split
  · rw [advanceBy_cursor h]
    rfl
  · rfl

/-- A comment is no token of a quiet reading, which goes on behind it. -/
theorem code_cursor (h : s.Reads c) (hquiet : s.quiet = true → c.code.2.1.kind ≠ .comment) :
    (s.cursor c).code = s.handedAll c.code := by
  induction hlength : c.rest.length using Nat.strongRecOn generalizing c with
  | _ length ih =>
    have hblanks := h.reaches (Cursor.reaches_skipBlanks c)
    have hshorter := Cursor.skipBlanks_length_le c
    rw [Cursor.code_eq c] at hquiet
    rw [Cursor.code_eq (s.cursor c), Cursor.code_eq c, skipBlanks_cursor h]
    generalize c.skipBlanks = start at hblanks hshorter hquiet ⊢
    rw [codeEnd?_cursor hblanks]
    cases hend : start.codeEnd? with
    | some read => rfl
    | none =>
      rw [pragmaLine?_cursor]
      cases hhead : start.pragmaLine? with
      | some head => exact pragma_cursor hblanks hhead
      | none =>
        rw [hend, hhead] at hquiet
        rw [cursor_rest]
        dsimp only [Option.map_none] at hquiet ⊢
        have hcomment := Cursor.comment_length_lt start
        have hnext (hrest : start.rest ≠ []) :=
          ih _ (Nat.lt_of_lt_of_le (hcomment hrest) (hlength ▸ hshorter))
            (hblanks.reaches (Cursor.reaches_comment start))
        cases hrest : start.rest with
        | nil =>
          dsimp only
          rw [cursor_pending, ← hrest]
          split
          · rfl
          · rfl
        | cons g rest =>
          rw [hrest] at hquiet
          dsimp only at hquiet ⊢
          rw [← hrest] at hquiet ⊢
          rw [show (s.cursor start).atComment = start.atComment from rfl, cursor_pending,
            cursor_options, comment_cursor hblanks, advance_cursor hblanks, lexeme_cursor hblanks]
          by_cases hat : start.atComment = true
          · rw [if_pos hat, if_pos hat]
            rw [if_pos hat] at hquiet
            by_cases hbreak : (start.pending && Cursor.commentEndsLine start.rest) = true
            · rw [if_pos hbreak, if_pos hbreak]
              rfl
            · rw [if_neg hbreak, if_neg hbreak]
              rw [if_neg hbreak] at hquiet
              by_cases hon : start.options.comments = true
              · rw [if_pos hon] at hquiet ⊢
                have hloud : s.quiet = false :=
                  Bool.eq_false_of_not_eq_true fun hs => hquiet hs (Cursor.comment_kind start)
                have hkept : (s.options start.options).comments = true := by
                  simp [options, hon, hloud]
                rw [if_pos hkept]
                rfl
              · have hoff : ¬ (s.options start.options).comments = true := by simp [options, hon]
                rw [if_neg hon] at hquiet ⊢
                rw [if_neg hoff]
                exact hnext (by simp [hrest]) hquiet rfl
          · rw [if_neg hat, if_neg hat]
            split
            · rfl
            · rfl

theorem textRun_cursor : (s.cursor c).textRun = c.textRun := by
  have hstart : (s.cursor c).offset = (s.cursor c).lineStart ↔ c.offset = c.lineStart :=
    Nat.add_right_cancel_iff
  unfold Cursor.textRun
  simp only [hstart, cursor_options, options_noPragma, options_delimiters, cursor_rest]

theorem textEnd_cursor (h : s.Reads c) : (s.cursor c).textEnd = s.cursor c.textEnd := by
  unfold Cursor.textEnd
  rw [textRun_cursor, advanceBy_cursor h]
  rfl

theorem textDelimiter_cursor (h : s.Reads c) :
    (s.cursor c).textDelimiter = (c.textDelimiter.1, c.textDelimiter.2.shift s.gap) := by
  unfold Cursor.textDelimiter
  rw [textEnd_cursor h]
  rfl

theorem textCode_cursor (h : s.Reads c) : (s.cursor c).textCode = s.cursor c.textCode := by
  unfold Cursor.textCode Cursor.enterCode
  rw [textEnd_cursor h, textDelimiter_cursor h,
    advanceBy_cursor (h.reaches (Cursor.reaches_textEnd c))]
  rfl

theorem textToken?_shift (n start : Nat) (blanks kept : List Glyph) (escaped : Bool) :
    Cursor.textToken? (start + n) blanks kept escaped =
      (Cursor.textToken? start blanks kept escaped).map (·.shift n) := by
  unfold Cursor.textToken?
  split
  · rfl
  · rw [Nat.add_right_comm]
    rfl

theorem templateText_cursor (h : s.Reads c) :
    (s.cursor c).templateText = s.handedAll c.templateText := by
  have hkept : (s.cursor c).textKept = c.textKept ∧ (s.cursor c).textBlanks = c.textBlanks := by
    unfold Cursor.textKept Cursor.textBlanks
    rw [textRun_cursor]
    exact ⟨rfl, rfl⟩
  have htext (kept : List Glyph) :=
    textToken?_shift s.gap c.offset c.textBlanks kept c.textRun.2
  have hend := h.reaches (Cursor.reaches_textEnd c)
  rw [Cursor.templateText_eq, Cursor.templateText_eq, textEnd_cursor h, textDelimiter_cursor h,
    textCode_cursor h, textRun_cursor, hkept.1, hkept.2, pragmaLine?_cursor]
  have hflags : (c.textDelimiter.2.shift s.gap).flags = c.textDelimiter.2.flags := rfl
  simp only [cursor_rest, cursor_options, options_delimiters, cursor_offset, hflags, htext]
  split
  · generalize Cursor.textToken? c.offset c.textBlanks _ c.textRun.2 = text
    cases text <;> rfl
  · generalize Cursor.textToken? c.offset c.textBlanks _ c.textRun.2 = text
    cases text with
    | some text => rfl
    | none =>
      dsimp only [Option.map_none]
      cases hhead : c.textEnd.pragmaLine? with
      | some head => exact pragma_cursor hend hhead
      | none => rfl

/-- The next token is the same one further on. -/
theorem scan_cursor (h : s.Reads c) (hquiet : s.quiet = true → c.scan.2.kind ≠ .comment) :
    (s.cursor c).scan = s.handed c.scan := by
  cases hpool : c.pool with
  | cons token pool =>
    unfold Cursor.scan
    rw [show (s.cursor c).pool = c.pool.map (·.shift s.gap) from rfl, hpool]
    rfl
  | nil =>
    have hread : (if (s.cursor c).inText then (s.cursor c).templateText else (s.cursor c).code) =
        s.handedAll (if c.inText then c.templateText else c.code) := by
      unfold Cursor.scan at hquiet
      rw [hpool] at hquiet
      rw [cursor_inText]
      split
      · exact templateText_cursor h
      · next hcode =>
        rw [if_neg hcode] at hquiet
        exact code_cursor h hquiet
    unfold Cursor.scan
    rw [show (s.cursor c).pool = c.pool.map (·.shift s.gap) from rfl, hread, hpool]
    rfl

/-- The start of a file is the start of the same file elsewhere. -/
theorem start_cursor (hgap : s.gap = 0) (htaken : s.taken = none)
    (hf : f.Lined) (o : ScanOptions) (glyphs : List Glyph)
    (hbreaks : s.behind ≠ 0 → .char '\n' ∉ glyphs) :
    Cursor.start (s.file f) (s.options o) glyphs = s.cursor (Cursor.start f o glyphs) := by
  let fresh : Cursor := { file := f, options := o, rest := glyphs, inText := o.mixed }
  have hreads : s.Reads fresh := ⟨hf, hbreaks⟩
  have hfresh : { fresh with file := s.file f, options := s.options o } = s.cursor fresh := by
    simp [cursor, fresh, hgap, htaken]
  have harrive := arrive_cursor hreads (.inr hgap)
  rw [← hfresh] at harrive
  have hstart : Cursor.start (s.file f) (s.options o) glyphs =
      if (s.cursor fresh.arrive).rest.head? = some (.char Cursor.byteOrderMark) then
        { (s.cursor fresh.arrive).advance with
          lineStart := (s.cursor fresh.arrive).advance.offset }
      else s.cursor fresh.arrive := by
    rw [← harrive]
    rfl
  rw [hstart, advance_cursor (hreads.reaches (Cursor.reaches_arrive _)), cursor_rest]
  unfold Cursor.start
  dsimp only
  split
  · rfl
  · rfl

theorem setMixed_cursor (on : Bool) : (s.cursor c).setMixed on = s.cursor (c.setMixed on) := by
  unfold Cursor.setMixed
  rw [cursor_options, options_mixed]
  split
  · rfl
  · rfl

theorem elim_cursor (set : Cursor → Bool → Cursor)
    (hset : ∀ c on, set (s.cursor c) on = s.cursor (set c on)) (c : Cursor) (on : Option Bool) :
    on.elim (s.cursor c) (set (s.cursor c)) = s.cursor (on.elim c (set c)) := by
  cases on with
  | none => rfl
  | some on => exact hset c on

theorem setValueSugar_cursor (hsugar : s.sugar = none) (c : Cursor) (on : Bool) :
    (s.cursor c).setValueSugar on = s.cursor (c.setValueSugar on) := by
  simp only [Cursor.setValueSugar, cursor, options, hsugar, Option.getD_none]

theorem apply_cursor (hsugar : s.sugar = none) (options : PragmaOptions) :
    (s.cursor c).apply options = s.cursor (c.apply options) := by
  have hdelimiters : (s.cursor c).setDelimiters options.opening options.closing =
      s.cursor (c.setDelimiters options.opening options.closing) := rfl
  unfold Cursor.apply
  rw [hdelimiters]
  dsimp only
  rw [elim_cursor Cursor.setMixed fun _ on => setMixed_cursor on,
    elim_cursor Cursor.setFloatsAsDecimal fun _ _ => rfl,
    elim_cursor Cursor.setCharAsString fun _ _ => rfl,
    elim_cursor Cursor.setValueSugar (setValueSugar_cursor hsugar)]

theorem newErrors_cursor (htaken : s.taken = none) :
    (s.cursor c).newErrors = c.newErrors.map (·.shift s.gap s.lines) := by
  unfold Cursor.newErrors
  rw [show (s.cursor c).taken = s.taken.getD c.taken from rfl, htaken]
  exact List.map_drop.symm

end Setting

end TemplateScript
