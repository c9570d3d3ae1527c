import TemplateScript.Proofs.Cursor.Ahead
import TemplateScript.Proofs.Cursor.Shift

/-!
# Tokens that begin at places of their own

No two tokens of a source begin at one place, comments and the end of the file aside. That is clear
for tokens that cover something. Of the others, the end of a pragma line stands before its line
break, and so does an inserted semicolon, unless the end of the file or a comment takes the place of
the line break. Only a comment can then begin where the semicolon stands.
-/

namespace TemplateScript

namespace Token

/-- A token that stands in the source covers something. -/
theorem lt_stop {t : Token} (h : t.isWritten = true) : t.pos < t.stop := by
  have hspelling : ∀ kind : Kind, 0 < kind.spelling.utf8ByteSize := by
    intro kind
    cases kind <;> decide
  rw [stop_eq h, text]
  refine Nat.lt_add_of_pos_right ?_
  split
  · exact hspelling _
  · next hne => exact Nat.pos_of_ne_zero (mt String.utf8ByteSize_eq_zero_iff.1 hne)

end Token

namespace Cursor

variable {o : ScanOptions} {c later : Cursor} {floor : Nat} {t : Token}

/-- Each of the tokens begins behind the one before it, and the cursor has moved on from all of
them, unless nothing but the end of the file is left. -/
structure Passed (tokens : List Token) (c : Cursor) : Prop where
  ordered : tokens.Pairwise fun t u => t.pos < u.pos
  past : ∀ t ∈ tokens, t.pos < c.offset ∨ c.rest = [] ∧ c.pending = false

namespace Passed

theorem of_eq {tokens : List Token} (h : c.Passed tokens) (hoffset : later.offset = c.offset)
    (hrest : later.rest = c.rest) (hpending : c.pending = false → later.pending = false) :
    later.Passed tokens := by
  refine ⟨h.ordered, fun t ht => ?_⟩
  rw [hoffset, hrest]
  exact (h.past t ht).imp_right fun hend => ⟨hend.1, hpending hend.2⟩

theorem tail {tokens : List Token} (h : c.Passed (t :: tokens)) : c.Passed tokens :=
  ⟨(List.pairwise_cons.1 h.ordered).2, fun u hu => h.past u (List.mem_cons_of_mem _ hu)⟩

/-- Tokens that are cut from a source, and stand in it, are passed. -/
theorem of_cuts {written closing : List Token} (hcuts : c.Cuts o (written ++ closing) later)
    (hwritten : ∀ t ∈ written, t.isWritten = true) (hclosing : later.Passed closing) :
    later.Passed (written ++ closing) := by
  have hstop {t : Token} (ht : t ∈ written ++ closing) := hcuts.stop_le ht
  obtain ⟨glyphs, -, -, htiles⟩ := hcuts
  obtain ⟨hfirst, -, hcross⟩ := List.pairwise_append.1 htiles.ordered
  refine ⟨List.pairwise_append.2 ⟨?_, hclosing.ordered, ?_⟩, fun t ht => ?_⟩
  · exact hfirst.imp_of_mem fun ht _ hle => Nat.lt_of_lt_of_le (Token.lt_stop (hwritten _ ht)) hle
  · exact fun t ht u hu => Nat.lt_of_lt_of_le (Token.lt_stop (hwritten t ht)) (hcross t ht u hu)
  · rcases List.mem_append.1 ht with hmem | hmem
    · exact .inl (Nat.lt_of_lt_of_le (Token.lt_stop (hwritten t hmem)) (hstop ht))
    · exact hclosing.past t hmem

theorem of_written {tokens : List Token} (hcuts : c.Cuts o tokens later)
    (hwritten : ∀ t ∈ tokens, t.isWritten = true) : later.Passed tokens := by
  rw [← List.append_nil tokens] at hcuts ⊢
  exact of_cuts hcuts hwritten ⟨.nil, List.forall_mem_nil _⟩

theorem single (h : t.pos < c.offset ∨ c.rest = [] ∧ c.pending = false) : c.Passed [t] :=
  ⟨List.pairwise_singleton _ _, List.forall_mem_singleton.2 h⟩

end Passed

/-! ### What is read at once -/

theorem bodyTokens_isWritten (c : Cursor) : ∀ t ∈ c.bodyTokens.2, t.isWritten = true := by
  fun_induction bodyTokens c with
  | case1 => exact List.forall_mem_nil _
  | case2 c g rest hrest hcomment ih => exact ih
  | case3 c g rest hrest hcomment more ih =>
    exact List.forall_mem_cons.2 ⟨lexeme_isWritten _ _, ih⟩

theorem advance_cases (c : Cursor) : c.offset < c.advance.offset ∨ c.advance.rest = [] := by
  cases hrest : c.rest with
  | nil => exact .inr (by rw [advance_rest, hrest, List.tail_nil])
  | cons g rest =>
    refine .inl ((reaches_advance c).offset_lt ?_)
    rw [advance_rest, hrest, List.tail_cons]
    exact Nat.lt_succ_self _

theorem pragma_passed {head : Nat} (htext : c.IsText) (hhead : c.pragmaLine? = some head) :
    (c.pragma head).1.Passed ((c.pragma head).2.1 :: (c.pragma head).2.2) := by
  have hpragma := (pragmaLine?_le hhead).1
  have hcuts := cuts_pragma (o := c.options) (fun g => .inr (.inr hpragma)) htext hhead
  let body := c.bodyStart head (Glyph.countUntil endsPragma (c.rest.drop head))
  have hwritten : ∀ t ∈ (c.pragma head).2.1 :: body.bodyTokens.2, t.isWritten = true :=
    List.forall_mem_cons.2 ⟨rfl, bodyTokens_isWritten body⟩
  refine Passed.of_cuts hcuts hwritten (.single ?_)
  exact (advance_cases _).imp_right fun hrest => ⟨hrest, rfl⟩

theorem templateText_passed (htext : c.IsText) (hkind : c.templateText.2.1.kind ≠ .eof) :
    c.templateText.1.Passed (c.templateText.2.1 :: c.templateText.2.2) := by
  have hcuts := cuts_templateText (o := c.options) (fun hpragma g => .inr (.inr hpragma)) htext
  have htoken {kept : List Glyph} {token : Token}
      (h : textToken? c.offset c.textBlanks kept c.textRun.2 = some token) :
      token.isWritten = true := by
    unfold textToken? at h
    split at h
    · cases h
    · rw [← Option.some.inj h]
      rfl
  have hdelimiter := (openingDelimiter_token c.textEnd c.options.delimiters.opening).2.2
  rw [← textDelimiter] at hdelimiter
  rw [templateText_eq] at hcuts hkind ⊢
  dsimp only at hcuts hkind ⊢
  split at hcuts
  · next hopening =>
    rw [if_pos hopening] at hkind ⊢
    split at hcuts
    · next text hsome =>
      exact .of_written hcuts
        (List.forall_mem_cons.2 ⟨htoken hsome, List.forall_mem_singleton.2 hdelimiter⟩)
    · exact .of_written hcuts (List.forall_mem_singleton.2 hdelimiter)
  · next hopening =>
    rw [if_neg hopening] at hkind ⊢
    split at hcuts
    · next text hsome => exact .of_written hcuts (List.forall_mem_singleton.2 (htoken hsome))
    · split at hcuts
      · next head hhead => exact pragma_passed (htext.reaches (reaches_textEnd c)) hhead
      · next hnone _ hhead =>
        rw [hnone, hhead] at hkind
        exact absurd rfl hkind

/-- The cursor stands at a comment, before which a line break was made a semicolon. -/
structure AtBrokenComment (c : Cursor) : Prop where
  inText_eq : c.inText = false
  pending_eq : c.pending = false
  codeEnd?_eq : c.codeEnd? = none
  pragmaLine?_eq : c.pragmaLine? = none
  rest_ne : c.rest ≠ []
  atComment : c.atComment = true

theorem codeEnd?_isWritten {token : Token} (h : c.codeEnd? = some (later, token)) :
    token.isWritten = true := by
  rcases codeEnd?_kind h with hkind | hkind
  · simp [Token.isWritten, Token.isInsertedSemicolon, hkind]
  · simp [Token.isWritten, Token.isInsertedSemicolon, hkind]

theorem comment_isWritten (c : Cursor) : c.comment.2.isWritten = true := by
  simp [Token.isWritten, Token.isInsertedSemicolon, c.comment_kind]

/-- A comment does not begin with a blank. -/
theorem atComment_head (h : c.atComment = true) :
    ∃ ch rest, c.rest = .char ch :: rest ∧ (ch = '#' ∨ ch = '/') := by
  unfold atComment startsLineComment at h
  rcases Bool.or_eq_true_iff.1 h with hline | hblock
  · rcases Bool.or_eq_true_iff.1 hline with hhash | hslash
    · obtain ⟨rest, hrest⟩ := startsWith_head (show "#".toList = ['#'] by decide) hhash
      exact ⟨_, rest, hrest, .inl rfl⟩
    · obtain ⟨rest, hrest⟩ := startsWith_head (show "//".toList = ['/', '/'] by decide) hslash
      exact ⟨_, rest, hrest, .inr rfl⟩
  · obtain ⟨rest, hrest⟩ := startsWith_head (show "/*".toList = ['/', '*'] by decide) hblock
    exact ⟨_, rest, hrest, .inr rfl⟩

/-- No blank is before a comment at the cursor. -/
theorem skipBlanks_of_atComment (h : c.atComment = true) : c.skipBlanks = c := by
  obtain ⟨ch, rest, hrest, hch⟩ := atComment_head h
  have hno : ¬ ((Glyph.char ch).isInlineSpace || (Glyph.char ch = .char '\n' && !c.pending)) =
      true := by
    rcases hch with rfl | rfl
    · simp [Glyph.isInlineSpace]
    · simp [Glyph.isInlineSpace]
  rw [skipBlanks, Glyph.countWhile, hrest, List.takeWhile_cons, if_neg hno]
  rfl

theorem codeEnd?_of_eq (h : c.codeEnd? = none) (hoptions : later.options = c.options)
    (hnesting : later.nesting = c.nesting) (hrest : later.rest = c.rest) :
    later.codeEnd? = none := by
  unfold codeEnd? isDelimited at h ⊢
  dsimp only at h ⊢
  rw [hoptions, hnesting, hrest]
  split at h
  · cases h
  · next hcond => exact if_neg hcond

/-- The tokens of code are passed, if a semicolon does not stand before a comment. -/
theorem code_passed (htext : c.IsText) (hcode : c.inText = false) :
    c.code.1.Passed (c.code.2.1 :: c.code.2.2) ∨ c.code.2.1.kind = .eof ∨
      c.code.2 = (c.code.1.insertedSemicolon, []) ∧ c.code.1.AtBrokenComment := by
  fun_induction code c with
  | case1 c start last token h =>
    have hcuts := cuts_codeEnd (o := c.options) (htext.reaches (reaches_skipBlanks c)) h
    exact .inl (.of_written hcuts (List.forall_mem_singleton.2 (codeEnd?_isWritten h)))
  | case2 c start _ head hhead =>
    exact .inl (pragma_passed (htext.reaches (reaches_skipBlanks c)) hhead)
  | case3 c start hend hline hrest hpending => exact .inl (.single (.inr ⟨hrest, rfl⟩))
  | case4 c start => exact .inr (.inl rfl)
  | case5 c start hend hline g rest hrest hcomment hpending =>
    refine .inr (.inr ⟨rfl, ?_⟩)
    exact
      { inText_eq := (advanceBy_inText _ c).trans hcode
        pending_eq := rfl
        codeEnd?_eq := codeEnd?_of_eq hend rfl rfl rfl
        pragmaLine?_eq := hline
        rest_ne := hrest ▸ List.cons_ne_nil g rest
        atComment := hcomment }
  | case6 c start _ _ g rest hrest =>
    have hne : start.rest ≠ [] := hrest ▸ List.cons_ne_nil g rest
    have hcuts := cuts_comment (o := c.options) (htext.reaches (reaches_skipBlanks c)) hne
    exact .inl (.of_written hcuts (List.forall_mem_singleton.2 (comment_isWritten start)))
  | case7 c start _ _ g rest hrest hcomment hpending hcomments ih =>
    refine ih (htext.reaches ((reaches_skipBlanks c).trans (reaches_comment start))) ?_
    exact (walks_comment start : Walks 0 _ _).inText_eq.trans ((advanceBy_inText _ c).trans hcode)
  | case8 c start _ _ rest hcomment hrest =>
    refine .inl (.single (.inl ?_))
    refine (reaches_advance start).offset_lt ?_
    rw [advance_rest, hrest, List.tail_cons]
    exact Nat.lt_succ_self _
  | case9 c start _ _ g rest hrest =>
    have hcuts := cuts_lexeme (o := c.options) (htext.reaches (reaches_skipBlanks c)) hrest
    exact .inl (.of_written hcuts (List.forall_mem_singleton.2 (lexeme_isWritten start g)))

/-! ### What is handed out -/

/-- The tokens that wait are passed. -/
structure Strict (c : Cursor) : Prop where
  inner : c.PoolInner
  passed : c.Passed c.pool

/-- The token that is handed out next begins behind an earlier one. The end of the file need not,
and a comment may begin where that stands. -/
def Clears (t : Token) (c : Cursor) : Prop :=
  c.scan.2.kind = .eof ∨ t.pos < c.scan.2.pos ∨ c.scan.2.kind = .comment ∧ t.pos ≤ c.scan.2.pos

theorem AtEnd.scan (h : c.AtEnd) : c.scan.2.kind = .eof ∧ c.scan.1.AtEnd := by
  have hended : c.Ended c.endOfFile c.errors := { h with token_eq := rfl, errors_eq := rfl }
  obtain ⟨htoken, hscan⟩ := hended.scan
  exact ⟨htoken ▸ rfl, hscan.toAtEnd⟩

theorem Passed.clears (h : c.Passed (t :: c.pool)) (htext : c.IsText) : c.Clears t := by
  cases hpool : c.pool with
  | cons u pool =>
    have hordered := h.ordered
    rw [hpool] at hordered
    have hlt := (List.pairwise_cons.1 hordered).1 u List.mem_cons_self
    refine .inr (.inl ?_)
    rw [scan_pool hpool]
    exact hlt
  | nil =>
    rcases h.past t List.mem_cons_self with hlt | ⟨hrest, hpending⟩
    · have hle := (cuts_read (o := c.options) rfl htext)
      obtain ⟨glyphs, -, -, htiles⟩ := hle
      refine .inr (.inl ?_)
      rw [scan_eq hpool]
      exact Nat.lt_of_lt_of_le hlt (htiles.pos_le List.mem_cons_self)
    · exact .inl (AtEnd.scan ⟨hrest, hpool, fun _ => hpending⟩).1

theorem AtBrokenComment.clears (h : c.AtBrokenComment) (htext : c.IsText) (hpool : c.pool = [])
    (hpos : t.pos = c.offset) : c.Clears t := by
  have hread : c.read = c.code := by
    rw [read, h.inText_eq]
    rfl
  have hcode : c.code = if c.options.comments then (c.comment.1, c.comment.2, [])
      else c.comment.1.code := by
    obtain ⟨g, rest, hrest⟩ := List.exists_cons_of_ne_nil h.rest_ne
    rw [code_eq, skipBlanks_of_atComment h.atComment, h.codeEnd?_eq, h.pragmaLine?_eq, hrest]
    dsimp only
    rw [if_pos h.atComment, h.pending_eq, Bool.false_and, if_neg Bool.false_ne_true]
  unfold Clears
  rw [scan_eq hpool, hread, hcode]
  split
  · exact .inr (.inr ⟨c.comment_kind, Nat.le_of_eq (hpos.trans (comment_pos c).symm)⟩)
  · refine .inr (.inl ?_)
    have hlt := (reaches_comment c).offset_lt (comment_length_lt c h.rest_ne)
    obtain ⟨glyphs, -, -, htiles⟩ :=
      cuts_code (o := c.comment.1.options) rfl (htext.reaches (reaches_comment c))
    rw [hpos]
    exact Nat.lt_of_lt_of_le hlt (htiles.pos_le List.mem_cons_self)

/-- Where a cursor is that has handed out a token: past it, or where a semicolon was inserted before
a comment, or at the end. -/
inductive Leaves (t : Token) (c : Cursor) : Prop
  | passed (hkind : t.kind ≠ .eof) (h : c.Passed (t :: c.pool))
  | semicolon (hkind : t.kind = .semicolon) (hpos : t.pos = c.offset) (hpool : c.pool = [])
    (h : c.AtBrokenComment)
  | eof (hkind : t.kind = .eof) (h : c.AtEnd)

theorem Leaves.clears (h : c.Leaves t) (htext : c.IsText) : c.Clears t := by
  cases h with
  | passed _ h => exact h.clears htext
  | semicolon _ hpos hpool h => exact h.clears htext hpool hpos
  | eof _ h => exact .inl h.scan.1

theorem Strict.scan (h : c.Strict) (htext : c.IsText) :
    c.scan.1.Strict ∧ c.scan.1.Leaves c.scan.2 := by
  have hinner := h.inner.scan
  cases hpool : c.pool with
  | cons t pool =>
    have hpassed := h.passed
    rw [hpool] at hpassed
    have hkind : t.kind ≠ .eof := (h.inner t (hpool ▸ List.mem_cons_self)).2
    rw [scan_pool hpool] at hinner ⊢
    exact ⟨⟨hinner, hpassed.tail.of_eq rfl rfl id⟩, .passed hkind (hpassed.of_eq rfl rfl id)⟩
  | nil =>
    by_cases hkind : c.scan.2.kind = .eof
    · have hend := (ended_of_eof h.inner hkind).toAtEnd
      refine ⟨⟨hinner, ?_⟩, .eof hkind hend⟩
      rw [hend.pool_eq]
      exact ⟨.nil, List.forall_mem_nil _⟩
    · rw [scan_eq hpool] at hinner hkind ⊢
      have hread : c.read.1.Passed (c.read.2.1 :: c.read.2.2) ∨
          c.read.2 = (c.read.1.insertedSemicolon, []) ∧ c.read.1.AtBrokenComment := by
        unfold read at hkind ⊢
        split
        · next htemplate =>
          rw [if_pos htemplate] at hkind
          exact .inl (templateText_passed htext hkind)
        · next hcode =>
          rw [if_neg hcode] at hkind
          exact (code_passed htext (Bool.eq_false_of_not_eq_true hcode)).imp_right
            (Or.resolve_left · hkind)
      rcases hread with hpassed | ⟨hsemicolon, hbroken⟩
      · exact ⟨⟨hinner, hpassed.tail.of_eq rfl rfl id⟩,
          .passed hkind (hpassed.of_eq rfl rfl id)⟩
      · rw [hsemicolon] at hinner ⊢
        refine ⟨⟨hinner, .nil, List.forall_mem_nil _⟩, .semicolon rfl rfl rfl ?_⟩
        exact { hbroken with codeEnd?_eq := codeEnd?_of_eq hbroken.codeEnd?_eq rfl rfl rfl }

/-- Behind the end of the file, there is nothing but the end of the file. -/
theorem Leaves.eof_next (h : c.Leaves t) (hkind : t.kind = .eof) : c.scan.2.kind = .eof := by
  cases h with
  | passed hne => exact absurd hkind hne
  | semicolon hsemicolon => cases hkind.symm.trans hsemicolon
  | eof _ h => exact h.scan.1

theorem Strict.takeErrors (h : c.Strict) : c.takeErrors.Strict :=
  ⟨h.inner, h.passed.of_eq rfl rfl id⟩

theorem Leaves.takeErrors (h : c.Leaves t) : c.takeErrors.Leaves t := by
  cases h with
  | passed hkind h => exact .passed hkind (h.of_eq rfl rfl id)
  | semicolon hkind hpos hpool h =>
    refine .semicolon hkind hpos hpool ?_
    exact { h with codeEnd?_eq := codeEnd?_of_eq h.codeEnd?_eq rfl rfl rfl }
  | eof hkind h => exact .eof hkind { h with }

/-- Nothing waits at the start. -/
theorem strict_start (file : SourceFile) (options : ScanOptions) (source : List Glyph) :
    (start file options source).Strict := by
  constructor
  · unfold PoolInner
    rw [start_pool]
    exact List.forall_mem_nil _
  · rw [start_pool]
    exact ⟨.nil, List.forall_mem_nil _⟩

end Cursor

end TemplateScript
