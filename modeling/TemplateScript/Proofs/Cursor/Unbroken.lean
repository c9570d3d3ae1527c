import TemplateScript.Proofs.Cursor.Fidelity
import TemplateScript.Proofs.Cursor.Onward
import TemplateScript.Proofs.Cursor.Shift

/-!
# Line breaks that end no statement

Where line breaks are no semicolons, a cursor waits for none. It pauses nowhere on its way to the
next token, yet it finds the same tokens and reports the same errors: each time the other cursor
stops for a semicolon, this one is already behind the blanks that the other still has to skip.
-/

namespace TemplateScript

/-- No closing delimiter that ends code begins with a line break. -/
def ScanOptions.ClosesInLine (o : ScanOptions) : Prop :=
  o.mixed = true → o.delimiters.closing.toList.head? ≠ some '\n'

namespace Cursor

/-- The cursor that takes no line break for a semicolon. -/
def unbroken (c : Cursor) : Cursor :=
  { c with pending := false, options := { c.options with noAutoSemicolons := true } }

/-- What is read where line breaks are no semicolons. -/
def readUnbroken {α : Type} (r : Cursor × α) : Cursor × α := (r.1.unbroken, r.2)

variable {c : Cursor}

@[simp] theorem unbroken_rest : c.unbroken.rest = c.rest := rfl

@[simp] theorem unbroken_offset : c.unbroken.offset = c.offset := rfl

/-! ### Moving -/

theorem arrive_unbroken (c : Cursor) : c.unbroken.arrive = c.arrive.unbroken := by
  unfold arrive
  rw [unbroken_rest]
  split
  · rfl
  · rw [unbroken_offset]
    split <;> rfl
  · rfl

theorem leave_unbroken (c : Cursor) (g : Glyph) : c.unbroken.leave g = (c.leave g).unbroken := by
  unfold leave
  split <;> rfl

theorem advance_unbroken (c : Cursor) : c.unbroken.advance = c.advance.unbroken := by
  unfold advance
  rw [unbroken_rest]
  split
  · rfl
  · rw [leave_unbroken, ← arrive_unbroken]
    rfl

theorem advanceBy_unbroken (n : Nat) (c : Cursor) :
    c.unbroken.advanceBy n = (c.advanceBy n).unbroken := by
  induction n generalizing c with
  | zero => rfl
  | succ n ih => rw [advanceBy, advanceBy, advance_unbroken, ih]

/-! ### Lexemes -/

theorem word_unbroken (c : Cursor) : c.unbroken.word = readUnbroken c.word := by
  rw [word, unbroken_rest, advanceBy_unbroken]
  rfl

theorem mark_unbroken (c : Cursor) (kind : Token.Kind) :
    c.unbroken.mark kind = readUnbroken (c.mark kind) := by
  rw [mark, advanceBy_unbroken]
  rfl

theorem stray_unbroken (c : Cursor) (g : Glyph) :
    c.unbroken.stray g = readUnbroken (c.stray g) := by
  rw [stray, advance_unbroken]
  rfl

theorem numberDigits_unbroken (c : Cursor) :
    c.unbroken.numberDigits = c.numberDigits.unbroken := by
  have hbody : c.unbroken.numberBody = c.numberBody := rfl
  rw [numberDigits, numberDigits, hbody, advanceBy_unbroken]
  split <;> rfl

theorem numberEnd_unbroken (c : Cursor) : c.unbroken.numberEnd = readUnbroken c.numberEnd := by
  have hbody : c.unbroken.numberBody = c.numberBody := rfl
  rw [numberEnd, numberEnd, numberDigits_unbroken, hbody, unbroken_rest]
  split
  · rw [advance_unbroken]
    rfl
  · rfl

theorem number_unbroken (c : Cursor) : c.unbroken.number = readUnbroken c.number := by
  rw [number_eq, number_eq, numberEnd_unbroken]
  dsimp only [readUnbroken]
  rw [unbroken_rest, advanceBy_unbroken]
  split <;> rfl

theorem escapeDigits_unbroken (radix start count value : Nat) (c : Cursor) :
    escapeDigits radix start count value c.unbroken =
      readUnbroken (escapeDigits radix start count value c) := by
  induction count generalizing value c with
  | zero => rfl
  | succ count ih =>
    rw [escapeDigits, escapeDigits, unbroken_rest]
    split
    · rfl
    · split
      · rfl
      · rw [advance_unbroken, ih]

theorem escape_unbroken (quote : Char) (c : Cursor) :
    c.unbroken.escape quote = readUnbroken (c.escape quote) := by
  rw [escape, escape, unbroken_rest]
  split
  · rfl
  · dsimp only
    split
    · rw [advance_unbroken]
      rfl
    · split
      · rfl
      · next radix count _ =>
        have hstart : (if radix = 8 then c.unbroken else c.unbroken.advance) =
            (if radix = 8 then c else c.advance).unbroken := by
          split
          · rfl
          · exact advance_unbroken c
        rw [hstart, unbroken_offset, escapeDigits_unbroken]
        generalize escapeDigits radix c.offset count 0 _ = digits
        obtain ⟨last, value⟩ := digits
        cases value with
        | none => rfl
        | some value =>
          dsimp only [readUnbroken]
          split <;> rfl

theorem quotedRest_unbroken (start : Nat) (quote : Char) (c : Cursor) :
    c.unbroken.quotedRest start quote = (c.quotedRest start quote).unbroken := by
  fun_induction quotedRest start quote c with
  | case1 c hrest =>
    rw [quotedRest_eq, unbroken_rest, hrest]
    rfl
  | case2 c rest hrest =>
    rw [quotedRest_eq, unbroken_rest, hrest]
    rfl
  | case3 c rest hrest hbreak ih =>
    rw [quotedRest_eq, unbroken_rest, hrest]
    dsimp only
    rw [if_neg hbreak, if_pos rfl, advance_unbroken, escape_unbroken]
    exact ih
  | case4 c rest hrest hbreak hescape =>
    rw [quotedRest_eq, unbroken_rest, hrest]
    dsimp only
    rw [if_neg hbreak, if_neg hescape, if_pos rfl, advance_unbroken]
  | case5 c g rest hrest hbreak hescape hquote ih =>
    rw [quotedRest_eq, unbroken_rest, hrest]
    dsimp only
    rw [if_neg hbreak, if_neg hescape, if_neg hquote, advance_unbroken]
    exact ih

theorem charRest_unbroken (start : Nat) (count : Option Nat) (c : Cursor) :
    c.unbroken.charRest start count = readUnbroken (c.charRest start count) := by
  fun_induction charRest start count c with
  | case1 count c hrest =>
    rw [charRest_eq, unbroken_rest, hrest]
    rfl
  | case2 count c rest hrest =>
    rw [charRest_eq, unbroken_rest, hrest]
    rfl
  | case3 count c rest hrest hbreak =>
    rw [charRest_eq, unbroken_rest, hrest]
    dsimp only
    rw [if_neg hbreak, if_pos rfl, advance_unbroken]
    rfl
  | case4 count c rest step hrest hbreak hquote =>
    rename_i ih
    rw [charRest_eq, unbroken_rest, hrest]
    dsimp only
    rw [if_neg hbreak, if_neg hquote, if_pos rfl, advance_unbroken, escape_unbroken]
    exact ih
  | case5 count c g rest hrest hbreak hquote hescape ih =>
    rw [charRest_eq, unbroken_rest, hrest]
    dsimp only
    rw [if_neg hbreak, if_neg hquote, if_neg hescape, advance_unbroken]
    exact ih

theorem quoted_unbroken (quote : Char) (c : Cursor) :
    c.unbroken.quoted quote = readUnbroken (c.quoted quote) := by
  rw [quoted, advance_unbroken, unbroken_offset, quotedRest_unbroken]
  rfl

theorem char_unbroken (c : Cursor) : c.unbroken.char = readUnbroken c.char := by
  have hsame : c.unbroken.options.charAsString = c.options.charAsString := rfl
  rw [char, char, hsame, quoted_unbroken, advance_unbroken, unbroken_offset, charRest_unbroken]
  dsimp only [readUnbroken]
  split
  · rfl
  · split <;> rfl

theorem pastFence_unbroken (start fence : Nat) (cause : ScanCause) (c : Cursor) :
    c.unbroken.pastFence start fence cause = (c.pastFence start fence cause).unbroken := by
  rw [pastFence, pastFence, unbroken_rest, advanceBy_unbroken, advanceBy_unbroken]
  split <;> rfl

theorem raw_unbroken (c : Cursor) : c.unbroken.raw = readUnbroken c.raw := by
  rw [raw, raw, unbroken_rest, unbroken_offset, advanceBy_unbroken, pastFence_unbroken,
    pastFence_unbroken]
  dsimp only
  split
  · rfl
  · split <;> rfl

theorem closing_unbroken (read : Cursor × Token) :
    c.unbroken.closing (readUnbroken read) = readUnbroken (c.closing read) := by
  simp [closing, readUnbroken, unbroken]

theorem lexeme_unbroken (c : Cursor) (g : Glyph) :
    c.unbroken.lexeme g = readUnbroken (c.lexeme g) := by
  rw [lexeme, lexeme, show c.unbroken.atWord = c.atWord from rfl,
    show c.unbroken.atNumber = c.atNumber from rfl, unbroken_rest, word_unbroken, number_unbroken,
    quoted_unbroken, char_unbroken, raw_unbroken]
  split
  · exact closing_unbroken _
  · split
    · exact closing_unbroken _
    · split
      · exact closing_unbroken _
      · split
        · exact closing_unbroken _
        · split
          · exact closing_unbroken _
          · split
            · rw [mark_unbroken]
              exact closing_unbroken _
            · exact stray_unbroken c g

/-! ### Comments and pragma lines -/

theorem blockComment_unbroken (c : Cursor) :
    c.unbroken.blockComment = c.blockComment.unbroken := by
  rw [blockComment, blockComment, unbroken_rest, advanceBy_unbroken, unbroken_rest]
  split
  · rfl
  · exact advanceBy_unbroken 2 _

theorem comment_unbroken (c : Cursor) : c.unbroken.comment = readUnbroken c.comment := by
  have hline : c.unbroken.lineComment = c.lineComment.unbroken := advanceBy_unbroken _ c
  rw [comment, comment, unbroken_rest, hline, blockComment_unbroken]
  split <;> rfl

/-- In the body of a pragma line, line breaks are no semicolons anyway. -/
theorem pragma_unbroken (c : Cursor) (head : Nat) :
    c.unbroken.pragma head = readUnbroken (c.pragma head) := by
  have hbody : c.unbroken.pragmaBody head = c.pragmaBody head := rfl
  have hlast : c.unbroken.pragmaLast head = (c.pragmaLast head).unbroken := by
    rw [pragmaLast, pragmaLast, hbody, ← advanceBy_unbroken]
    rfl
  rw [pragma_eq, pragma_eq, hlast, hbody, advance_unbroken]
  rfl

theorem codeEnd?_unbroken (c : Cursor) : c.unbroken.codeEnd? = c.codeEnd?.map readUnbroken := by
  rw [codeEnd?, codeEnd?, unbroken_rest, show c.unbroken.isDelimited = c.isDelimited from rfl,
    show c.unbroken.options.delimiters = c.options.delimiters from rfl]
  dsimp only
  split
  · rw [advanceBy_unbroken]
    rfl
  · rfl

theorem templateText_unbroken (c : Cursor) :
    c.unbroken.templateText = readUnbroken c.templateText := by
  have hend : c.unbroken.textEnd = c.textEnd.unbroken := by
    rw [textEnd, show c.unbroken.textRun = c.textRun from rfl, advanceBy_unbroken]
    rfl
  have hdelimiter : c.unbroken.textDelimiter = c.textDelimiter := by
    rw [textDelimiter, hend]
    rfl
  have hcode : c.unbroken.textCode = c.textCode.unbroken := by
    rw [textCode, hend, hdelimiter, enterCode, advanceBy_unbroken]
    rfl
  rw [templateText_eq, templateText_eq, hend, hdelimiter, hcode,
    show c.unbroken.textBlanks = c.textBlanks from rfl,
    show c.unbroken.textKept = c.textKept from rfl,
    show c.unbroken.textRun = c.textRun from rfl,
    show c.unbroken.options.delimiters = c.options.delimiters from rfl,
    show c.textEnd.unbroken.pragmaLine? = c.textEnd.pragmaLine? from rfl, unbroken_rest,
    unbroken_offset]
  dsimp only
  by_cases hopens : (Glyph.startsWith c.textEnd.rest c.options.delimiters.opening &&
      c.textEnd.pragmaLine?.isNone) = true
  · rw [if_pos hopens, if_pos hopens]
    generalize textToken? c.offset c.textBlanks _ c.textRun.2 = text
    cases text <;> rfl
  · rw [if_neg hopens, if_neg hopens]
    cases textToken? c.offset c.textBlanks c.textKept c.textRun.2 with
    | some text => rfl
    | none =>
      cases c.textEnd.pragmaLine? with
      | some head => exact pragma_unbroken c.textEnd head
      | none => rfl

/-! ### Tokens -/

/-- What is read of code depends on what is behind the blanks. -/
theorem code_congr {b : Cursor} (h : c.skipBlanks = b.skipBlanks) : c.code = b.code := by
  rw [code_eq, code_eq b, h]

/-- The glyphs that satisfy a weaker condition may be counted in two steps. -/
theorem countWhile_add {p q : Glyph → Bool} (hsub : ∀ g, p g = true → q g = true)
    (glyphs : List Glyph) :
    Glyph.countWhile q glyphs =
      Glyph.countWhile p glyphs +
        Glyph.countWhile q (glyphs.drop (Glyph.countWhile p glyphs)) := by
  have hdrop : glyphs.drop (Glyph.countWhile p glyphs) = glyphs.dropWhile p :=
    List.append_cancel_left ((List.prefix_iff_eq_append.1 (List.takeWhile_prefix p)).trans
      List.takeWhile_append_dropWhile.symm)
  have hall : ∀ g ∈ glyphs.takeWhile p, q g = true := fun g hg =>
    hsub g (List.mem_takeWhile_imp hg)
  calc Glyph.countWhile q glyphs
      = Glyph.countWhile q (glyphs.takeWhile p ++ glyphs.dropWhile p) := by
        rw [List.takeWhile_append_dropWhile]
    _ = _ := by
        rw [hdrop, Glyph.countWhile, List.takeWhile_append_of_pos hall, List.length_append]
        rfl

/-- Behind the blanks that do not end a line there may be others. -/
theorem skipBlanks_unbroken (c : Cursor) :
    c.unbroken.skipBlanks = c.skipBlanks.unbroken.skipBlanks := by
  have hsub (g : Glyph) (h : (g.isInlineSpace || (g = .char '\n' && !c.pending)) = true) :
      (g.isInlineSpace || (g = .char '\n' && !c.unbroken.pending)) = true := by
    simp only [Bool.or_eq_true, Bool.and_eq_true] at h ⊢
    exact h.imp_right fun hbreak => ⟨hbreak.1, rfl⟩
  have hcount := countWhile_add hsub c.rest
  have hstart : c.skipBlanks.unbroken = c.unbroken.advanceBy
      (Glyph.countWhile (fun g => g.isInlineSpace || (g = .char '\n' && !c.pending)) c.rest) :=
    (advanceBy_unbroken _ c).symm
  rw [skipBlanks, unbroken_rest, hcount, advanceBy_add, ← hstart, ← advanceBy_rest]
  rfl

/-- A cursor before no line break is before no blank at all. -/
theorem skipBlanks_unbroken_eq (h : c.skipBlanks.rest.head? ≠ some (.char '\n')) :
    c.unbroken.skipBlanks = c.skipBlanks.unbroken := by
  rw [skipBlanks_unbroken, skipBlanks, unbroken_rest]
  cases hrest : c.skipBlanks.rest with
  | nil => rfl
  | cons g rest =>
    have hspace := (Bool.or_eq_false_iff.1 (skipBlanks_stops hrest)).1
    have hbreak : g ≠ .char '\n' := by
      intro hg
      rw [hrest, hg] at h
      exact h rfl
    rw [Glyph.countWhile, List.takeWhile_cons_of_neg (by simp [hspace, hbreak])]
    rfl

/-- A line break may be passed as the first of the blanks. -/
theorem skipBlanks_unbroken_break {rest : List Glyph} (hrest : c.rest = .char '\n' :: rest) :
    c.unbroken.skipBlanks = c.advance.unbroken.skipBlanks := by
  rw [skipBlanks, skipBlanks, ← advance_unbroken, advance_rest, unbroken_rest, hrest,
    List.tail_cons, Glyph.countWhile, List.takeWhile_cons_of_pos (by rfl), List.length_cons,
    advanceBy, advance_unbroken]
  rfl

theorem codeEnd?_head (hclosing : c.options.ClosesInLine) {read : Cursor × Token}
    (h : c.codeEnd? = some read) : c.rest.head? ≠ some (.char '\n') := by
  intro hhead
  obtain ⟨rest, hrest⟩ := List.head?_eq_some_iff.1 hhead
  have hdash : Glyph.startsWith c.rest "-" = false := by
    rw [hrest]
    rfl
  rw [codeEnd?, hdash, isDelimited] at h
  dsimp only at h
  split at h
  · next hdelimited =>
    simp only [Bool.false_and, Bool.false_or, Bool.and_eq_true] at hdelimited
    obtain ⟨⟨hmixed, -⟩, hstarts⟩ := hdelimited
    have hne := hclosing hmixed
    cases hchars : c.options.delimiters.closing.toList with
    | nil =>
      rw [String.toList_eq_nil_iff.1 hchars] at hstarts
      cases hstarts
    | cons ch chars =>
      obtain ⟨rest', hrest'⟩ := startsWith_head hchars hstarts
      rw [hrest] at hrest'
      obtain ⟨hbreak, -⟩ := List.cons.inj hrest'
      rw [hchars, ← Glyph.char.inj hbreak] at hne
      exact hne rfl
  · cases h

theorem pragmaLine?_head {head : Nat} (h : c.pragmaLine? = some head) :
    c.rest.head? ≠ some (.char '\n') := by
  intro hhead
  obtain ⟨rest, hrest⟩ := List.head?_eq_some_iff.1 hhead
  have hmark : Glyph.char '\n' ≠ .char '#' := by decide
  rw [pragmaLine?, hrest, pragmaHead?, if_neg (not_and.2 fun heq => absurd heq hmark),
    ite_self] at h
  cases h

theorem atComment_ne_break (h : c.atComment = true) : c.rest.head? ≠ some (.char '\n') := by
  intro hhead
  obtain ⟨rest, hrest⟩ := List.head?_eq_some_iff.1 hhead
  rw [atComment, hrest] at h
  cases h

/-- What two cursors read of which only one takes line breaks for semicolons: the same, or that one
reads a semicolon, from behind which the other goes on. -/
inductive ReadsUnbroken (read : Cursor → Cursor × Token × List Token) (c : Cursor) :
    Cursor × Token × List Token → Prop
  | same {last : Cursor} {token : Token} {more : List Token}
    (hstands : ∀ t ∈ token :: more, t.isInsertedSemicolon = false)
    (h : read c.unbroken = readUnbroken (last, token, more)) :
    ReadsUnbroken read c (last, token, more)
  | inserted {last : Cursor} {token : Token} (ht : token.isInsertedSemicolon = true)
    (hlast : last.inText = c.inText ∧ last.pool = c.pool)
    (h : read c.unbroken = read last.unbroken) : ReadsUnbroken read c (last, token, [])

/-- A token of another kind is no semicolon that was inserted. -/
theorem stands_of_kind {t : Token} (h : t.kind ≠ .semicolon) : t.isInsertedSemicolon = false := by
  rw [Token.isInsertedSemicolon, decide_eq_false h, Bool.false_and]

theorem stands_of_flags {t : Token} (h : t.flags = {}) : t.isInsertedSemicolon = false := by
  rw [Token.isInsertedSemicolon, h, Bool.and_false]

theorem stands_bodyTokens (c : Cursor) : ∀ t ∈ c.bodyTokens.2, t.isInsertedSemicolon = false := by
  fun_induction bodyTokens c with
  | case1 c => simp
  | case2 c _ _ _ _ ih => exact ih
  | case3 c g _ _ _ more ih =>
    intro t ht
    rcases List.mem_cons.1 ht with rfl | ht
    · exact stands_of_flags (lexeme_flags c.skipBlanks g)
    · exact ih t ht

theorem stands_pragma (c : Cursor) (head : Nat) :
    ∀ t ∈ (c.pragma head).2.1 :: (c.pragma head).2.2, t.isInsertedSemicolon = false := by
  intro t ht
  rw [pragma_eq, List.mem_cons, List.mem_append, List.mem_singleton] at ht
  rcases ht with rfl | ht | rfl
  · exact stands_of_kind nofun
  · exact stands_bodyTokens _ t ht
  · exact stands_of_kind nofun

theorem stands_one {t : Token} (h : t.isInsertedSemicolon = false) :
    ∀ t' ∈ [t], t'.isInsertedSemicolon = false := List.forall_mem_singleton.2 h

/-- What is read before neither a line break, nor a delimiter, nor a pragma line. -/
theorem code_unbroken_eq (hbreak : c.skipBlanks.rest.head? ≠ some (.char '\n'))
    (hend : c.skipBlanks.codeEnd? = none) (hhead : c.skipBlanks.pragmaLine? = none) :
    c.unbroken.code =
      match c.skipBlanks.rest with
      | [] => readUnbroken (c.skipBlanks, c.skipBlanks.endOfFile, [])
      | g :: _ =>
        if c.skipBlanks.atComment then
          if c.skipBlanks.options.comments then
            readUnbroken (c.skipBlanks.comment.1, c.skipBlanks.comment.2, [])
          else c.skipBlanks.comment.1.unbroken.code
        else readUnbroken ((c.skipBlanks.lexeme g).1, (c.skipBlanks.lexeme g).2, []) := by
  rw [code_eq, skipBlanks_unbroken_eq hbreak, codeEnd?_unbroken, hend,
    show c.skipBlanks.unbroken.pragmaLine? = c.skipBlanks.pragmaLine? from rfl, hhead,
    comment_unbroken, unbroken_rest]
  cases hrest : c.skipBlanks.rest with
  | nil => rfl
  | cons g rest =>
    have hg : g ≠ .char '\n' := by
      intro hg
      rw [hrest, hg] at hbreak
      exact hbreak rfl
    dsimp only [Option.map_none]
    rw [if_neg hg, lexeme_unbroken]
    rfl

/-- Code is read alike, but for the semicolons. -/
theorem code_unbroken (hclosing : c.options.ClosesInLine) : ReadsUnbroken code c c.code := by
  have hblanks : c.skipBlanks.inText = c.inText ∧ c.skipBlanks.pool = c.pool :=
    have hwalk : c.Walks 0 c.skipBlanks := walks_skipBlanks c
    ⟨hwalk.inText_eq, hwalk.pool_eq⟩
  fun_induction code c with
  | case1 c start last token hend =>
    have hbreak := codeEnd?_head ((skipBlanks_options c).symm ▸ hclosing) hend
    refine .same (stands_one (stands_of_kind ?_)) ?_
    · rcases codeEnd?_kind hend with hkind | hkind <;> rw [hkind] <;> decide
    · rw [code_eq, skipBlanks_unbroken_eq hbreak, codeEnd?_unbroken, hend]
      rfl
  | case2 c start hend head hhead =>
    have hbreak := pragmaLine?_head hhead
    refine .same (stands_pragma start head) ?_
    rw [code_eq, skipBlanks_unbroken_eq hbreak, codeEnd?_unbroken, hend,
      show start.unbroken.pragmaLine? = start.pragmaLine? from rfl, hhead]
    exact pragma_unbroken start head
  | case3 c start hend hhead hrest hpending =>
    refine .inserted rfl hblanks ?_
    exact code_congr (skipBlanks_unbroken c)
  | case4 c start hend hhead hrest hpending =>
    refine .same (stands_one (stands_of_kind (by rintro ⟨⟩))) ?_
    rw [code_unbroken_eq (by rw [hrest]; rintro ⟨⟩) hend hhead, hrest]
  | case5 c start hend hhead g rest hrest hcomment hends =>
    refine .inserted rfl hblanks ?_
    exact code_congr (skipBlanks_unbroken c)
  | case6 c start hend hhead g rest hrest hcomment hends hcomments =>
    have hbreak := atComment_ne_break hcomment
    have hkind : start.comment.2.kind ≠ .semicolon := by
      rw [comment_kind]
      decide
    refine .same (stands_one (stands_of_kind hkind)) ?_
    rw [code_unbroken_eq hbreak hend hhead, hrest]
    dsimp only
    rw [if_pos hcomment, if_pos hcomments]
  | case7 c start hend hhead g rest hrest hcomment hends hcomments ih =>
    have hoptions : start.comment.1.options = c.options :=
      (comment_options start).trans (skipBlanks_options c)
    have hwalk : start.Walks 0 start.comment.1 := walks_comment start
    have hpassed : start.comment.1.Walks 0 start.comment.1.skipBlanks := walks_skipBlanks _
    have hskip : c.unbroken.code = start.comment.1.unbroken.code := by
      rw [code_unbroken_eq (atComment_ne_break hcomment) hend hhead, hrest]
      dsimp only
      rw [if_pos hcomment, if_neg hcomments]
    have hread := ih (hoptions ▸ hclosing) ⟨hpassed.inText_eq, hpassed.pool_eq⟩
    generalize start.comment.1.code = read at hread
    cases hread with
    | same hstands h => exact .same hstands (hskip.trans h)
    | inserted ht hlast h =>
      rw [hwalk.inText_eq, hwalk.pool_eq, hblanks.1, hblanks.2] at hlast
      exact .inserted ht hlast (hskip.trans h)
  | case8 c start hend hhead rest hcomment hrest =>
    refine .inserted rfl ⟨(advance_inText start).trans hblanks.1,
      (advance_pool start).trans hblanks.2⟩ ?_
    refine code_congr ((skipBlanks_unbroken c).trans ?_)
    exact skipBlanks_unbroken_break hrest
  | case9 c start hend hhead g rest hrest hcomment hbreak =>
    have hhere : start.rest.head? ≠ some (.char '\n') := by
      rw [hrest]
      simpa using hbreak
    refine .same (stands_one (stands_of_flags (lexeme_flags start g))) ?_
    rw [code_unbroken_eq hhere hend hhead, hrest]
    dsimp only
    rw [if_neg hcomment]

theorem stands_textToken {start : Nat} {blanks kept : List Glyph} {escaped : Bool} {text : Token}
    (h : textToken? start blanks kept escaped = some text) : text.isInsertedSemicolon = false := by
  unfold textToken? at h
  split at h
  · cases h
  · rw [← Option.some.inj h]
    rfl

theorem stands_templateText (c : Cursor) :
    ∀ t ∈ c.templateText.2.1 :: c.templateText.2.2, t.isInsertedSemicolon = false := by
  have hdelimiter : c.textDelimiter.2.isInsertedSemicolon = false := by
    refine stands_of_kind ?_
    unfold textDelimiter openingDelimiter
    dsimp only
    split <;> rintro ⟨⟩
  rw [templateText_eq]
  dsimp only
  split
  · split
    · next htext => exact List.forall_mem_cons.2 ⟨stands_textToken htext, stands_one hdelimiter⟩
    · exact stands_one hdelimiter
  · split
    · next htext => exact stands_one (stands_textToken htext)
    · split
      · exact stands_pragma _ _
      · exact stands_one (stands_of_kind (by rintro ⟨⟩))

/-! ### Streams -/

/-- No token that waits is a semicolon that was inserted. -/
def PoolStands (c : Cursor) : Prop := ∀ t ∈ c.pool, t.isInsertedSemicolon = false

theorem read_unbroken (hclosing : c.options.ClosesInLine) : ReadsUnbroken read c c.read := by
  cases htext : c.inText with
  | true =>
    have hread : c.read = c.templateText := if_pos htext
    have hunbroken : c.unbroken.read = c.unbroken.templateText := if_pos htext
    rw [hread]
    exact .same (stands_templateText c) (hunbroken.trans (templateText_unbroken c))
  | false =>
    have hread {d : Cursor} (hd : d.inText = c.inText) : d.read = d.code :=
      if_neg (Bool.not_eq_true _ ▸ hd.trans htext)
    have hcode := code_unbroken hclosing
    rw [hread rfl]
    generalize c.code = read at hcode
    cases hcode with
    | same hstands h => exact .same hstands ((hread (d := c.unbroken) rfl).trans h)
    | @inserted last token ht hlast h =>
      have hnext : last.unbroken.read = last.unbroken.code := hread hlast.1
      exact .inserted ht hlast ((hread (d := c.unbroken) rfl).trans (h.trans hnext.symm))

/-- A token is handed out by both cursors, or it is a semicolon, from behind which the other one
goes on. -/
theorem scan_unbroken (hclosing : c.options.ClosesInLine) (hpool : c.PoolStands) :
    c.scan.1.PoolStands ∧
      if c.scan.2.isInsertedSemicolon then c.unbroken.scan = c.scan.1.unbroken.scan
      else c.unbroken.scan = readUnbroken c.scan := by
  cases hwait : c.pool with
  | cons token pool =>
    rw [PoolStands, hwait] at hpool
    obtain ⟨htoken, hpool⟩ := List.forall_mem_cons.1 hpool
    rw [scan_pool hwait, if_neg (by simp [htoken]), scan_pool (c := c.unbroken) hwait]
    exact ⟨hpool, rfl⟩
  | nil =>
    have hread := read_unbroken hclosing
    rw [scan_eq hwait, scan_eq (c := c.unbroken) hwait]
    generalize c.read = read at hread
    cases hread with
    | same hstands h =>
      obtain ⟨htoken, hmore⟩ := List.forall_mem_cons.1 hstands
      rw [if_neg (by simp [htoken]), h]
      exact ⟨hmore, rfl⟩
    | @inserted last token ht hlast h =>
      have hempty : last.unbroken.pool = [] := hlast.2.trans hwait
      have hlater : ({ last with pool := [] } : Cursor).unbroken = last.unbroken :=
        withPool_eq hempty
      dsimp only
      rw [if_pos ht, h, hlater, scan_eq hempty]
      exact ⟨List.forall_mem_nil _, rfl⟩

theorem scanToEnd_succ (limit : Nat) (c : Cursor) :
    scanToEnd (limit + 1) c =
      if c.scan.2.kind = .eof then (c.scan.1, [c.scan.2])
      else ((scanToEnd limit c.scan.1).1, c.scan.2 :: (scanToEnd limit c.scan.1).2) := rfl

/-- The tokens of a source, and the errors, are those that are found where line breaks are no
semicolons, but for the semicolons. -/
theorem scanToEnd_unbroken (hclosing : c.options.ClosesInLine) (hpool : c.PoolStands)
    {limit n : Nat} (hlimit : c.weight < limit) (hn : c.weight < n) :
    scanToEnd n c.unbroken =
      ((scanToEnd limit c).1.unbroken,
        (scanToEnd limit c).2.filter fun t => !t.isInsertedSemicolon) := by
  induction limit generalizing c n with
  | zero => exact absurd hlimit (Nat.not_lt_zero _)
  | succ limit ih =>
    obtain ⟨n, rfl⟩ := Nat.exists_eq_succ_of_ne_zero (Nat.ne_zero_of_lt hn)
    obtain ⟨hstands, hscan⟩ := scan_unbroken hclosing hpool
    have hlighter := scan_weight_lt c
    have hoptions : c.scan.1.options.ClosesInLine := (reads_scan c).options_eq ▸ hclosing
    rw [scanToEnd_succ limit c]
    by_cases hinserted : c.scan.2.isInsertedSemicolon = true
    · have hkind : c.scan.2.kind ≠ .eof := by
        intro hkind
        rw [Token.isInsertedSemicolon, hkind] at hinserted
        cases hinserted
      have hweight := hlighter hkind
      have hrest := ih hoptions hstands (n := n + 1) (by omega) (by omega)
      rw [if_pos hinserted] at hscan
      rw [scanToEnd_succ] at hrest ⊢
      rw [hscan, hrest, if_neg hkind, List.filter_cons_of_neg (by simp [hinserted])]
    · rw [if_neg hinserted, readUnbroken] at hscan
      obtain ⟨hlast, htoken⟩ := Prod.ext_iff.1 hscan
      rw [scanToEnd_succ, hlast, htoken]
      by_cases hkind : c.scan.2.kind = .eof
      · rw [if_pos hkind, if_pos hkind, List.filter_cons_of_pos (by simp [hinserted])]
        rfl
      · have hweight := hlighter hkind
        have hrest := ih hoptions hstands (n := n) (by omega) (by omega)
        rw [if_neg hkind, if_neg hkind, hrest, List.filter_cons_of_pos (by simp [hinserted])]

theorem start_unbroken (file : SourceFile) (options : ScanOptions) (glyphs : List Glyph) :
    start file { options with noAutoSemicolons := true } glyphs =
      (start file { options with noAutoSemicolons := false } glyphs).unbroken := by
  let fresh : Cursor :=
    { file, options := { options with noAutoSemicolons := false }, rest := glyphs,
      inText := options.mixed }
  have hstart : start file { options with noAutoSemicolons := true } glyphs =
      if fresh.unbroken.arrive.rest.head? = some (.char byteOrderMark) then
        { fresh.unbroken.arrive.advance with
          lineStart := fresh.unbroken.arrive.advance.offset }
      else fresh.unbroken.arrive := rfl
  rw [hstart, arrive_unbroken, advance_unbroken, unbroken_rest, start]
  dsimp only
  split <;> rfl

/-- Semicolons that are inserted are only added: without them, the tokens are those that are found
where line breaks are no semicolons. What is reported is the same. -/
theorem scanAll_unbroken (file : SourceFile) (options : ScanOptions) (bytes : List UInt8)
    (hsize : file.size = bytes.length) (hclosing : options.ClosesInLine) :
    ∃ c d,
      start? file { options with noAutoSemicolons := false } (Glyph.ofBytes bytes) = .ok c ∧
      start? file { options with noAutoSemicolons := true } (Glyph.ofBytes bytes) = .ok d ∧
      d.scanAll.2 = (c.scanAll.2.filter fun t => !t.isInsertedSemicolon) ∧
      d.scanAll.1.errors = c.scanAll.1.errors := by
  let c := start file { options with noAutoSemicolons := false } (Glyph.ofBytes bytes)
  have hwidths : file.size = Glyph.widths (Glyph.ofBytes bytes) :=
    hsize.trans (Glyph.widths_ofBytes bytes).symm
  have hoptions : c.options = { options with noAutoSemicolons := false } := start_options ..
  have hpool : c.PoolStands := by
    rw [PoolStands, start_pool]
    exact List.forall_mem_nil _
  have hscan : c.unbroken.scanAll =
      (c.scanAll.1.unbroken, c.scanAll.2.filter fun t => !t.isInsertedSemicolon) :=
    scanToEnd_unbroken (hoptions ▸ hclosing) hpool (weight_lt_bound c) (weight_lt_bound c)
  refine ⟨c, c.unbroken, if_pos hwidths, ?_, by rw [hscan], by rw [hscan]; rfl⟩
  rw [start?, if_pos hwidths, start_unbroken]

/-- A template with a comment that ends a line, a stray character and a byte that is none. -/
theorem scanAll_unbroken_template : ∃ c d,
    start? ⟨"page", 1, 26, [0]⟩ { mixed := true }
      (Glyph.ofBytes (utf8 "a #\x7b x /* y\n*/ @\n + 1\n\x7d b" ++ [0xFF])) = .ok c ∧
    start? ⟨"page", 1, 26, [0]⟩ { mixed := true, noAutoSemicolons := true }
      (Glyph.ofBytes (utf8 "a #\x7b x /* y\n*/ @\n + 1\n\x7d b" ++ [0xFF])) = .ok d ∧
    d.scanAll.2 = (c.scanAll.2.filter fun t => !t.isInsertedSemicolon) ∧
    d.scanAll.1.errors = c.scanAll.1.errors :=
  scanAll_unbroken ⟨"page", 1, 26, [0]⟩ { mixed := true }
    (utf8 "a #\x7b x /* y\n*/ @\n + 1\n\x7d b" ++ [0xFF]) (by decide) fun _ => by decide

end Cursor

end TemplateScript
