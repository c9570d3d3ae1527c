import Mathlib.Data.List.TakeWhile
import TemplateScript.Proofs.Cursor.Calls
import TemplateScript.Proofs.Cursor.Report

/-!
# Tokens and the source they are cut from

The tokens of a source tile it: each stands where its text does, one behind the other, and what lies
between them is left out for a reason. Where comments are tokens and there are no pragma lines, the
only reason is that it is a blank.
-/

namespace TemplateScript

namespace Token

/-- The token stands in the source with its text. Any other marks a point of it. -/
def isWritten (t : Token) : Bool := !(t.isInsertedSemicolon || t.kind = .pragmaEnd || t.kind = .eof)

/-- The glyphs of the source that a token covers. -/
def glyphs (t : Token) : List Glyph := if t.isWritten then Glyph.ofText t.text else []

/-- The offset at which a token ends. -/
def stop (t : Token) : Nat := t.pos + Glyph.widths t.glyphs

end Token

/-- A glyph that a reader with these options may leave out. -/
def ScanOptions.LeavesOut (o : ScanOptions) (g : Glyph) : Prop :=
  g.isSpace = true ∨ o.comments = false ∨ o.noPragma = false

/-! ### Tilings -/

/-- Tokens that cover a run of glyphs from an offset on, but for what is left out between them. -/
inductive Tiles (o : ScanOptions) : Nat → List Glyph → List Token → Prop
  | nil (offset : Nat) : Tiles o offset [] []
  | gap {offset : Nat} {g : Glyph} {glyphs : List Glyph} {tokens : List Token}
    (hgap : o.LeavesOut g) (h : Tiles o (offset + g.width) glyphs tokens) :
    Tiles o offset (g :: glyphs) tokens
  | token {t : Token} {glyphs : List Glyph} {tokens : List Token}
      (h : Tiles o t.stop glyphs tokens) :
    Tiles o t.pos (t.glyphs ++ glyphs) (t :: tokens)

namespace Tiles

variable {o : ScanOptions} {offset : Nat} {glyphs more : List Glyph} {tokens later : List Token}

theorem append (h : Tiles o offset glyphs tokens)
    (k : Tiles o (offset + Glyph.widths glyphs) more later) :
    Tiles o offset (glyphs ++ more) (tokens ++ later) := by
  induction h with
  | nil offset => exact k
  | gap hgap h ih =>
    rw [Glyph.widths, ← Nat.add_assoc] at k
    exact .gap hgap (ih k)
  | @token t glyphs tokens h ih =>
    rw [Glyph.widths_append, ← Nat.add_assoc] at k
    rw [List.append_assoc]
    exact .token (ih k)

theorem gaps (h : ∀ g ∈ glyphs, o.LeavesOut g) : Tiles o offset glyphs [] := by
  induction glyphs generalizing offset with
  | nil => exact .nil offset
  | cons g rest ih =>
    exact .gap (h g List.mem_cons_self) (ih fun g hg => h g (List.mem_cons_of_mem _ hg))

/-- Each token stands where its glyphs do. -/
theorem stands (h : Tiles o offset glyphs tokens) {t : Token} (ht : t ∈ tokens) :
    ∃ before after, glyphs = before ++ t.glyphs ++ after ∧
      t.pos = offset + Glyph.widths before := by
  induction h with
  | nil => cases ht
  | @gap offset g glyphs tokens hgap h ih =>
    obtain ⟨before, after, hglyphs, hpos⟩ := ih ht
    refine ⟨g :: before, after, by rw [hglyphs]; rfl, ?_⟩
    rw [hpos, Glyph.widths, Nat.add_assoc]
  | @token u glyphs tokens h ih =>
    rcases List.mem_cons.1 ht with rfl | ht
    · exact ⟨[], glyphs, rfl, rfl⟩
    · obtain ⟨before, after, hglyphs, hpos⟩ := ih ht
      refine ⟨u.glyphs ++ before, after, by rw [hglyphs]; simp, ?_⟩
      rw [hpos, Token.stop, Glyph.widths_append, Nat.add_assoc]

theorem pos_le (h : Tiles o offset glyphs tokens) {t : Token} (ht : t ∈ tokens) :
    offset ≤ t.pos := by
  obtain ⟨before, after, -, hpos⟩ := h.stands ht
  rw [hpos]
  exact Nat.le_add_right ..

/-- No token begins before an earlier one has ended. -/
theorem ordered (h : Tiles o offset glyphs tokens) : tokens.Pairwise fun t u => t.stop ≤ u.pos := by
  induction h with
  | nil => exact .nil
  | gap hgap h ih => exact ih
  | token h ih => exact .cons (fun u hu => h.pos_le hu) ih

/-- A glyph that no token covers is left out. -/
theorem covers (h : Tiles o offset glyphs tokens) {before after : List Glyph} {g : Glyph}
    (hglyphs : glyphs = before ++ g :: after) :
    o.LeavesOut g ∨ ∃ t ∈ tokens, t.pos ≤ offset + Glyph.widths before ∧
      offset + Glyph.widths before + g.width ≤ t.stop := by
  induction h generalizing before with
  | nil => simp at hglyphs
  | @gap offset g' glyphs tokens hgap h ih =>
    cases before with
    | nil =>
      obtain ⟨rfl, -⟩ := List.cons.inj hglyphs
      exact .inl hgap
    | cons b before =>
      obtain ⟨rfl, hrest⟩ := List.cons.inj hglyphs
      rw [Glyph.widths, ← Nat.add_assoc]
      exact ih hrest
  | @token t glyphs tokens h ih =>
    rcases List.append_eq_append_iff.1 hglyphs with ⟨skipped, hbefore, hrest⟩ | ⟨mine, hmine, hrest⟩
    · rw [hbefore, Glyph.widths_append, ← Nat.add_assoc]
      refine (ih hrest).imp_right ?_
      rintro ⟨u, hu, hle⟩
      exact ⟨u, List.mem_cons_of_mem _ hu, hle⟩
    · cases mine with
      | nil =>
        rw [List.append_nil] at hmine
        have hnil := @ih [] hrest.symm
        rw [Glyph.widths, Nat.add_zero, Token.stop, hmine] at hnil
        refine hnil.imp_right ?_
        rintro ⟨u, hu, hle⟩
        exact ⟨u, List.mem_cons_of_mem _ hu, hle⟩
      | cons b mine =>
        obtain ⟨rfl, -⟩ := List.cons.inj hrest
        refine .inr ⟨t, List.mem_cons_self, Nat.le_add_right .., ?_⟩
        rw [Token.stop, hmine, Glyph.widths_append, Glyph.widths]
        omega

end Tiles

/-! ### Texts -/

namespace Glyph

theorem charsAfter_char (chars : List Char) : charsAfter 0 (chars.map .char) = chars := by
  induction chars with
  | nil => rfl
  | cons c rest ih => exact congrArg (c :: ·) ih

/-- The text of characters is made of them. -/
theorem ofText_text {glyphs : List Glyph} (h : ∀ g ∈ glyphs, ∃ c, g = .char c) :
    ofText (text glyphs) = glyphs := by
  obtain ⟨chars, rfl⟩ : ∃ chars : List Char, glyphs = chars.map .char := by
    induction glyphs with
    | nil => exact ⟨[], rfl⟩
    | cons g rest ih =>
      obtain ⟨c, rfl⟩ := h g List.mem_cons_self
      obtain ⟨chars, rfl⟩ := ih fun g hg => h g (List.mem_cons_of_mem _ hg)
      exact ⟨c :: chars, rfl⟩
  rw [ofText, text, charsAfter_char, String.toList_ofList]

end Glyph

/-- A token that is written out covers its text. -/
theorem Token.glyphs_of_literal {t : Token} (hwritten : t.isWritten = true)
    (hliteral : t.literal ≠ "") : t.glyphs = Glyph.ofText t.literal := by
  rw [glyphs, if_pos hwritten, text, if_neg hliteral]

theorem Token.glyphs_mk (kind : Kind) (pos : Pos) (flags : Flags) {text : String} (hne : text ≠ "")
    (hwritten : isWritten ⟨kind, text, pos, flags⟩ = true) :
    glyphs ⟨kind, text, pos, flags⟩ = Glyph.ofText text := glyphs_of_literal hwritten hne

namespace Cursor

/-- All that is left is made of characters. -/
def IsText (c : Cursor) : Prop := ∀ g ∈ c.rest, ∃ ch, g = .char ch

/-- The tokens tile what lies between two cursors. -/
def Cuts (o : ScanOptions) (c : Cursor) (tokens : List Token) (later : Cursor) : Prop :=
  ∃ glyphs, c.rest = glyphs ++ later.rest ∧ later.offset = c.offset + Glyph.widths glyphs ∧
    Tiles o c.offset glyphs tokens

variable {o : ScanOptions} {a b c later : Cursor} {tokens more : List Token}

theorem Cuts.trans (h : a.Cuts o tokens b) (k : b.Cuts o more c) : a.Cuts o (tokens ++ more) c := by
  obtain ⟨r, hrest, hoffset, htiles⟩ := h
  obtain ⟨s, hrest', hoffset', htiles'⟩ := k
  refine ⟨r ++ s, ?_, ?_, htiles.append (hoffset ▸ htiles')⟩
  · rw [hrest, hrest', List.append_assoc]
  · rw [hoffset', hoffset, Glyph.widths_append, Nat.add_assoc]

theorem Cuts.of_eq (hrest : later.rest = c.rest) (hoffset : later.offset = c.offset) :
    c.Cuts o [] later :=
  ⟨[], hrest.symm, by simp [hoffset, Glyph.widths], .nil _⟩

theorem cuts_withPool (c : Cursor) (pool : List Token) : c.Cuts o [] { c with pool } :=
  .of_eq rfl rfl

theorem Cuts.gap (h : ∀ g ∈ c.rest, o.LeavesOut g) (hreach : c.Reaches later) :
    c.Cuts o [] later := by
  obtain ⟨read, hread⟩ := hreach
  refine ⟨read, hread.rest_eq, hread.offset_eq, .gaps fun g hg => h g ?_⟩
  rw [hread.rest_eq]
  exact List.mem_append_left _ hg

theorem cuts_advanceBy {n : Nat} (h : ∀ g ∈ c.rest.take n, o.LeavesOut g) :
    c.Cuts o [] (c.advanceBy n) := by
  refine ⟨c.rest.take n, ?_, offset_advanceBy n c, .gaps h⟩
  rw [advanceBy_rest, List.take_append_drop]

/-- A token is cut from a run from whose ends something is left out. -/
theorem Cuts.within {t : Token} (skipped left : List Glyph) (hreach : c.Reaches later)
    (hrest : c.rest = skipped ++ (t.glyphs ++ left) ++ later.rest)
    (hskipped : ∀ g ∈ skipped, o.LeavesOut g) (hleft : ∀ g ∈ left, o.LeavesOut g)
    (hpos : t.pos = c.offset + Glyph.widths skipped) : c.Cuts o [t] later := by
  obtain ⟨read, hread⟩ := hreach
  obtain rfl : read = skipped ++ (t.glyphs ++ left) :=
    List.append_cancel_right (hread.rest_eq.symm.trans hrest)
  refine ⟨_, hrest, hread.offset_eq, ?_⟩
  have htoken : Tiles o t.pos (t.glyphs ++ left) [t] := .token (.gaps hleft)
  rw [hpos] at htoken
  exact (Tiles.gaps hskipped).append htoken

/-- A token is cut off where it stands. -/
theorem Cuts.token {t : Token} (hreach : c.Reaches later) (hpos : t.pos = c.offset)
    (hglyphs : t.glyphs ++ later.rest = c.rest) : c.Cuts o [t] later :=
  .within [] [] hreach (by simp [hglyphs]) (List.forall_mem_nil _) (List.forall_mem_nil _) hpos

theorem IsText.reaches (h : c.IsText) (hreach : c.Reaches later) : later.IsText := by
  obtain ⟨read, hread⟩ := hreach
  intro g hg
  exact h g (by rw [hread.rest_eq]; exact List.mem_append_right _ hg)

/-- The text up to a later cursor is what lies before it. -/
theorem IsText.textTo (h : c.IsText) (hreach : c.Reaches later) :
    Glyph.ofText (c.textTo later) ++ later.rest = c.rest := by
  obtain ⟨read, hread⟩ := hreach
  have htake : c.rest.take (c.rest.length - later.rest.length) = read := by
    rw [hread.rest_eq, List.length_append, Nat.add_sub_cancel, List.take_left]
  rw [Cursor.textTo, htake, Glyph.ofText_text, hread.rest_eq]
  intro g hg
  exact h g (by rw [hread.rest_eq]; exact List.mem_append_left _ hg)

/-! ### Lexemes -/

theorem lexeme_flags (c : Cursor) (g : Glyph) : (c.lexeme g).2.flags = {} := by
  unfold lexeme
  split
  · rfl
  · split
    · unfold closing
      rw [number_eq]
      dsimp only
      split <;> rfl
    · split
      · rfl
      · split
        · unfold closing char
          split <;> rfl
        · split
          · rfl
          · split <;> rfl

theorem lexeme_isWritten (c : Cursor) (g : Glyph) : (c.lexeme g).2.isWritten = true := by
  have hkind := lexeme_isOuter c g
  unfold Token.isWritten Token.isInsertedSemicolon
  rw [lexeme_flags]
  generalize (c.lexeme g).2.kind = kind at hkind ⊢
  cases kind <;> first | rfl | cases hkind

/-- A run that begins with a word is the word and what is behind it. -/
theorem ofText_append_drop {glyphs : List Glyph} {word : String}
    (h : Glyph.startsWith glyphs word = true) :
    Glyph.ofText word ++ glyphs.drop word.length = glyphs := by
  unfold Glyph.startsWith at h
  obtain ⟨rest, hrest⟩ := List.isPrefixOf_iff_prefix.1 (Bool.and_eq_true_iff.1 h).2
  have hlength : (Glyph.ofText word).length = word.length := by
    rw [Glyph.ofText, List.length_map, String.length_toList]
  rw [← hrest, ← hlength, List.drop_left]

/-- What a lexeme covers is what was read of it. -/
theorem lexeme_glyphs {g : Glyph} {rest : List Glyph} (htext : c.IsText)
    (hrest : c.rest = g :: rest) : (c.lexeme g).2.glyphs ++ (c.lexeme g).1.rest = c.rest := by
  have hlength := lexeme_length_lt hrest
  have hwritten := lexeme_isWritten c g
  have hreach := reaches_lexeme c g
  obtain ⟨read, hread, hliteral, -⟩ | ⟨kind, hmark, hread⟩ | hread := lexeme_cases c g
  · rw [hread] at hlength hwritten hreach ⊢
    have hne : c.textTo read.1 ≠ "" := textTo_ne hlength
    rw [Token.glyphs_of_literal hwritten (hliteral ▸ hne),
      show (c.closing read).2.literal = _ from hliteral]
    have hcut := htext.textTo hreach
    exact hcut
  · rw [hread] at hwritten ⊢
    have hstarts : Glyph.startsWith c.rest kind.spelling = true := by
      have hfound := List.find?_some hmark
      exact (Bool.and_eq_true_iff.1 hfound).1
    have hglyphs : (c.closing (c.mark kind)).2.glyphs = Glyph.ofText kind.spelling := by
      rw [Token.glyphs, if_pos hwritten]
      exact congrArg Glyph.ofText (mark_text c kind)
    have hlater : (c.closing (c.mark kind)).1.rest = c.rest.drop kind.spelling.length :=
      advanceBy_rest _ c
    rw [hglyphs, hlater, ofText_append_drop hstarts]
  · obtain ⟨ch, rfl⟩ := htext g (hrest ▸ List.mem_cons_self)
    rw [hread] at hwritten ⊢
    rw [Token.glyphs_of_literal hwritten (by simp [stray])]
    simp [stray, Glyph.shown, Glyph.ofText, hrest]

theorem cuts_lexeme {g : Glyph} {rest : List Glyph} (htext : c.IsText)
    (hrest : c.rest = g :: rest) :
    c.Cuts o [(c.lexeme g).2] (c.lexeme g).1 :=
  .token (reaches_lexeme c g) (lexeme_pos c g) (lexeme_glyphs htext hrest)

/-! ### Comments -/

theorem startsWith_head {glyphs : List Glyph} {word : String} {ch : Char} {chars : List Char}
    (hword : word.toList = ch :: chars) (h : Glyph.startsWith glyphs word = true) :
    ∃ rest, glyphs = .char ch :: rest := by
  have happend := ofText_append_drop h
  rw [Glyph.ofText, hword, List.map_cons, List.cons_append] at happend
  exact ⟨_, happend.symm⟩

/-- What is left of a comment without the carriage return of its break, and what is left out. -/
theorem withoutReturn_cases {text : String} (h : text.toList.head? ≠ some '\r') :
    withoutReturn text = text ∨
      text.toList = (withoutReturn text).toList ++ ['\r'] ∧ withoutReturn text ≠ "" := by
  unfold withoutReturn
  split
  · next hlast =>
    obtain ⟨before, hbefore⟩ := List.getLast?_eq_some_iff.1 hlast
    refine .inr ⟨by rw [hbefore]; simp, ?_⟩
    rintro hempty
    rw [hbefore, List.dropLast_concat] at hempty
    rw [String.ofList_eq_empty_iff.1 hempty, List.nil_append] at hbefore
    exact h (by rw [hbefore]; rfl)
  · exact .inl rfl

theorem cuts_lineComment (htext : c.IsText) (h : startsLineComment c.rest = true) :
    c.Cuts o [⟨.comment, withoutReturn (c.textTo c.lineComment), c.offset, {}⟩] c.lineComment := by
  have hreach : c.Reaches c.lineComment := reaches_advanceBy _ c
  have hcut := htext.textTo hreach
  obtain ⟨ch, hch, rest, hrest⟩ : ∃ ch, ch ≠ '\r' ∧ ∃ rest, c.rest = .char ch :: rest := by
    rcases Bool.or_eq_true_iff.1 h with h | h
    · exact ⟨'#', by decide, startsWith_head rfl h⟩
    · exact ⟨'/', by decide, startsWith_head rfl h⟩
  have hlength : c.lineComment.rest.length < c.rest.length := by
    rw [lineComment, advanceBy_rest, List.length_drop, hrest, List.length_cons]
    omega
  have hhead : (c.textTo c.lineComment).toList.head? ≠ some '\r' := by
    intro hreturn
    obtain ⟨chars, hchars⟩ := List.head?_eq_some_iff.1 hreturn
    rw [Glyph.ofText, hchars, hrest] at hcut
    exact hch (Glyph.char.inj (List.cons.inj hcut).1).symm
  rcases withoutReturn_cases hhead with heq | ⟨heq, hne⟩
  · refine .token hreach rfl ?_
    rw [heq, Token.glyphs_mk .comment c.offset {} (textTo_ne hlength) rfl]
    exact hcut
  · refine .within [] [.char '\r'] hreach ?_ (List.forall_mem_nil _) ?_ rfl
    · rw [Token.glyphs_mk .comment c.offset {} hne rfl, ← hcut]
      simp [Glyph.ofText, heq]
    · intro g hg
      rw [List.mem_singleton.1 hg]
      exact .inl rfl

theorem cuts_blockComment (htext : c.IsText) (hne : c.rest ≠ [])
    (h : ¬ startsLineComment c.rest = true) : c.Cuts o [c.comment.2] c.comment.1 := by
  have hlength := comment_length_lt c hne
  have hreach := reaches_comment c
  refine .token hreach (comment_pos c) ?_
  unfold comment at hlength hreach ⊢
  rw [if_neg h] at hlength hreach ⊢
  rw [Token.glyphs_mk .comment c.offset {} (textTo_ne hlength) rfl]
  exact htext.textTo hreach

theorem cuts_comment (htext : c.IsText) (hne : c.rest ≠ []) :
    c.Cuts o [c.comment.2] c.comment.1 := by
  by_cases hline : startsLineComment c.rest = true
  · have hcut := cuts_lineComment (o := o) htext hline
    unfold comment
    rw [if_pos hline]
    exact hcut
  · exact cuts_blockComment htext hne hline

theorem cuts_skipBlanks (c : Cursor) : c.Cuts o [] c.skipBlanks := by
  refine cuts_advanceBy fun g hg => .inl ?_
  rw [Glyph.countWhile, ← List.prefix_iff_eq_take.1 (List.takeWhile_prefix _)] at hg
  have hblank := List.mem_takeWhile_imp hg
  unfold Glyph.isSpace
  unfold Glyph.isInlineSpace at hblank
  grind

/-! ### Pragma lines -/

/-- A pragma's body is read to its end. -/
theorem bodyTokens_rest (c : Cursor) : c.bodyTokens.1.rest = [] := by
  fun_induction bodyTokens c with
  | case1 c hrest => exact hrest
  | case2 _ _ _ _ _ ih => exact ih
  | case3 _ _ _ _ _ _ ih => exact ih

theorem cuts_bodyTokens (hgap : ∀ g, o.LeavesOut g) (htext : c.IsText) :
    c.Cuts o c.bodyTokens.2 c.bodyTokens.1 := by
  fun_induction bodyTokens c with
  | case1 c => exact cuts_skipBlanks c
  | case2 c g rest hrest hcomment ih =>
    have hreach := (reaches_skipBlanks c).trans (reaches_comment _)
    exact (Cuts.gap (fun g _ => hgap g) hreach).trans (ih (htext.reaches hreach))
  | case3 c g rest hrest hcomment more ih =>
    have hblanks := htext.reaches (reaches_skipBlanks c)
    have hcut := ih (hblanks.reaches (reaches_lexeme _ g))
    exact (cuts_skipBlanks c).trans ((cuts_lexeme hblanks hrest).trans hcut)

theorem pragmaLine?_le {head : Nat} (h : c.pragmaLine? = some head) :
    c.options.noPragma = false ∧ 0 < head ∧ head ≤ c.rest.length := by
  unfold pragmaLine? at h
  split at h
  · cases h
  · next hcond => exact ⟨Bool.eq_false_of_not_eq_true (not_or.1 hcond).1, pragmaHead?_le h⟩

theorem IsText.bodyStart (h : c.IsText) (head size : Nat) : (c.bodyStart head size).IsText := by
  intro g hg
  rw [show (c.bodyStart head size).rest = (c.rest.drop head).take size from arrive_rest _] at hg
  exact h g (List.mem_of_mem_drop (List.mem_of_mem_take hg))

/-- What is seen in a pragma's body is what stands there. -/
theorem cuts_body (hgap : ∀ g, o.LeavesOut g) (htext : c.IsText) (head size : Nat) :
    (c.advanceBy head).Cuts o (c.bodyStart head size).bodyTokens.2 (c.advanceBy (head + size)) := by
  have hrest : (c.bodyStart head size).rest = (c.rest.drop head).take size := arrive_rest _
  have hoffset : (c.bodyStart head size).offset = (c.advanceBy head).offset := by
    rw [offset_advanceBy]
    exact arrive_offset _
  obtain ⟨glyphs, hglyphs, -, htiles⟩ := cuts_bodyTokens hgap (htext.bodyStart head size)
  rw [bodyTokens_rest, List.append_nil, hrest] at hglyphs
  rw [← hglyphs, hoffset] at htiles
  refine ⟨(c.rest.drop head).take size, ?_, ?_, htiles⟩
  · rw [advanceBy_rest, advanceBy_rest, ← List.drop_drop, List.take_append_drop]
  · rw [offset_advanceBy, offset_advanceBy, List.take_add, Glyph.widths_append, Nat.add_assoc]

theorem cuts_pragma {head : Nat} (hgap : ∀ g, o.LeavesOut g) (htext : c.IsText)
    (hhead : c.pragmaLine? = some head) :
    c.Cuts o ((c.pragma head).2.1 :: (c.pragma head).2.2) (c.pragma head).1 := by
  obtain ⟨-, hpos, hle⟩ := pragmaLine?_le hhead
  let size := Glyph.countUntil endsPragma (c.rest.drop head)
  let last := advanceBy (head + size)
    { c with errors := (c.bodyStart head size).bodyTokens.1.errors }
  let opening : Token := ⟨.pragmaStart, Glyph.text (c.rest.take head), c.offset, {}⟩
  let closing : Token := ⟨.pragmaEnd, "", last.offset, {}⟩
  have hread : c.pragma head = ({ last.advance with pending := false }, opening,
      (c.bodyStart head size).bodyTokens.2 ++ [closing]) := rfl
  have hopening : c.Cuts o [opening] (c.advanceBy head) := by
    refine .token (reaches_advanceBy head c) rfl ?_
    have htake : ∀ g ∈ c.rest.take head, ∃ ch, g = .char ch :=
      fun g hg => htext g (List.mem_of_mem_take hg)
    have hne : c.rest.take head ≠ [] := by
      refine List.ne_nil_of_length_pos ?_
      rw [List.length_take]
      omega
    rw [Token.glyphs_mk .pragmaStart c.offset {} (Glyph.text_ne hne) rfl, advanceBy_rest,
      Glyph.ofText_text htake, List.take_append_drop]
  have hlast : (c.advanceBy (head + size)).Cuts o [] last := by
    refine .of_eq ?_ ?_
    · rw [advanceBy_rest, advanceBy_rest]
    · rw [offset_advanceBy, offset_advanceBy]
  have hclosing : last.Cuts o [closing] last := .token (.refl _) rfl rfl
  have hafter : last.Cuts o [] { last.advance with pending := false } :=
    (Cuts.gap (fun g _ => hgap g) (reaches_advance last)).trans (.of_eq rfl rfl)
  rw [hread]
  exact hopening.trans ((cuts_body hgap htext head size).trans
    (hlast.trans (hclosing.trans hafter)))

/-! ### Templates -/

theorem cuts_codeEnd {token : Token} (htext : c.IsText) (h : c.codeEnd? = some (later, token)) :
    c.Cuts o [token] later := by
  have hlength := codeEnd?_length_lt h
  obtain ⟨hreach, hpos⟩ := reaches_codeEnd h
  refine .token hreach hpos ?_
  unfold codeEnd? at h
  dsimp only at h
  split at h
  · obtain ⟨rfl, rfl⟩ := Prod.mk.inj (Option.some.inj h)
    have hcut := htext.textTo hreach
    rw [Token.glyphs_of_literal]
    · exact hcut
    · unfold Token.isWritten Token.isInsertedSemicolon
      dsimp only
      split <;> rfl
    · exact textTo_ne hlength
  · cases h

theorem textBlanks_append_textKept (c : Cursor) :
    c.textBlanks ++ c.textKept = c.rest.take c.textRun.1 := by
  unfold textKept textBlanks
  split
  · exact List.prefix_iff_eq_append.1 (List.takeWhile_prefix _)
  · rfl

theorem textBlanks_isSpace {g : Glyph} (h : g ∈ c.textBlanks) : g.isSpace = true := by
  unfold textBlanks at h
  split at h
  · exact List.mem_takeWhile_imp h
  · cases h

/-- The text of a template is cut from what stands before its end. -/
theorem cuts_textToken {kept left : List Glyph} {escaped : Bool} (htext : c.IsText)
    (hsplit : c.textKept = kept ++ left) (hleft : ∀ g ∈ left, g.isSpace = true) :
    c.Cuts o (textToken? c.offset c.textBlanks kept escaped).toList c.textEnd := by
  have htake : c.rest.take c.textRun.1 = c.textBlanks ++ (kept ++ left) := by
    rw [← hsplit, textBlanks_append_textKept]
  have hrest : c.rest = c.textBlanks ++ (kept ++ left) ++ c.textEnd.rest := by
    rw [← htake, textEnd, advanceBy_rest, List.take_append_drop]
  unfold textToken?
  split
  · next hnone =>
    refine Cuts.trans (cuts_advanceBy fun g hg => .inl ?_) (.of_eq rfl rfl)
    rw [htake, hnone, List.nil_append] at hg
    exact (List.mem_append.1 hg).elim textBlanks_isSpace (hleft g)
  · next hsome =>
    refine .within c.textBlanks left (reaches_textEnd c) ?_
      (fun g hg => .inl (textBlanks_isSpace hg)) (fun g hg => .inl (hleft g hg)) rfl
    have hkept : ∀ g ∈ kept, ∃ ch, g = .char ch := by
      intro g hg
      refine htext g ?_
      rw [hrest]
      simp [hg]
    rw [Token.glyphs_mk .text _ _ (Glyph.text_ne hsome) rfl, Glyph.ofText_text hkept]
    exact hrest

theorem openingDelimiter_token (c : Cursor) (opening : String) :
    (c.openingDelimiter opening).2.pos = c.offset ∧
      (c.openingDelimiter opening).2.literal =
        Glyph.text (c.rest.take (c.openingDelimiter opening).1) ∧
      (c.openingDelimiter opening).2.isWritten = true := by
  refine ⟨rfl, rfl, ?_⟩
  unfold Token.isWritten Token.isInsertedSemicolon openingDelimiter
  dsimp only
  split <;> rfl

theorem cuts_textCode (htext : c.textEnd.IsText)
    (h : Glyph.startsWith c.textEnd.rest c.options.delimiters.opening = true) :
    c.textEnd.Cuts o [c.textDelimiter.2] c.textCode := by
  have hreach : c.textEnd.Reaches c.textCode := reaches_enterCode ..
  obtain ⟨hlength, hpos⟩ := Glyph.length_of_startsWith_pos h
  have hopening : c.options.delimiters.opening.length ≤ c.textDelimiter.1 :=
    openingDelimiter_length ..
  have htake : ∀ g ∈ c.textEnd.rest.take c.textDelimiter.1, ∃ ch, g = .char ch :=
    fun g hg => htext g (List.mem_of_mem_take hg)
  have hne : c.textEnd.rest.take c.textDelimiter.1 ≠ [] := by
    refine List.ne_nil_of_length_pos ?_
    rw [List.length_take]
    omega
  have hrest : c.textCode.rest = c.textEnd.rest.drop c.textDelimiter.1 := enterCode_rest ..
  obtain ⟨hpos, hliteral, hwritten⟩ := openingDelimiter_token c.textEnd c.options.delimiters.opening
  rw [← textDelimiter] at hpos hliteral hwritten
  refine .token hreach hpos ?_
  rw [Token.glyphs_of_literal hwritten (hliteral ▸ Glyph.text_ne hne), hliteral, hrest,
    Glyph.ofText_text htake, List.take_append_drop]

theorem dropTrailingSpace_append (glyphs : List Glyph) :
    ∃ left, glyphs = dropTrailingSpace glyphs ++ left ∧ ∀ g ∈ left, g.isSpace = true := by
  refine ⟨(glyphs.reverse.takeWhile Glyph.isSpace).reverse, ?_, fun g hg => ?_⟩
  · rw [dropTrailingSpace, ← List.reverse_append, List.takeWhile_append_dropWhile,
      List.reverse_reverse]
  · exact List.mem_takeWhile_imp (List.mem_reverse.1 hg)

theorem cuts_endOfFile (c : Cursor) : c.Cuts o [c.endOfFile] c := .token (.refl c) rfl rfl

theorem cuts_insertedSemicolon (c : Cursor) : c.Cuts o [c.insertedSemicolon] c :=
  .token (.refl c) rfl rfl

theorem cuts_templateText (hgap : c.options.noPragma = false → ∀ g, o.LeavesOut g)
    (htext : c.IsText) :
    c.Cuts o (c.templateText.2.1 :: c.templateText.2.2) c.templateText.1 := by
  have hend := htext.reaches (reaches_textEnd c)
  have hall : c.Cuts o (textToken? c.offset c.textBlanks c.textKept c.textRun.2).toList c.textEnd :=
    cuts_textToken htext (List.append_nil _).symm (List.forall_mem_nil _)
  rw [templateText_eq]
  dsimp only
  split
  · next hopening =>
    have hcode : c.textEnd.Cuts o [c.textDelimiter.2] c.textCode :=
      cuts_textCode hend (Bool.and_eq_true_iff.1 hopening).1
    have hkept : c.Cuts o (textToken? c.offset c.textBlanks
        (if c.textDelimiter.2.flags.trimRight then dropTrailingSpace c.textKept else c.textKept)
        c.textRun.2).toList c.textEnd := by
      split
      · obtain ⟨left, hsplit, hleft⟩ := dropTrailingSpace_append c.textKept
        exact cuts_textToken htext hsplit hleft
      · exact hall
    split
    · next htoken =>
      rw [htoken] at hkept
      exact hkept.trans hcode
    · next htoken =>
      rw [htoken] at hkept
      exact hkept.trans hcode
  · split
    · next htoken =>
      rw [htoken] at hall
      exact hall
    · next htoken =>
      rw [htoken] at hall
      split
      · next head hhead =>
        have hoptions : c.textEnd.options = c.options := advanceBy_options _ c
        have hpragma := (pragmaLine?_le hhead).1
        rw [hoptions] at hpragma
        exact hall.trans (cuts_pragma (hgap hpragma) hend hhead)
      · exact hall.trans (cuts_endOfFile _)

/-! ### Tokens -/

theorem cuts_code (hoptions : c.options = o) (htext : c.IsText) :
    c.Cuts o (c.code.2.1 :: c.code.2.2) c.code.1 := by
  fun_induction code c with
  | case1 c start last token h =>
    exact (cuts_skipBlanks c).trans (cuts_codeEnd (htext.reaches (reaches_skipBlanks c)) h)
  | case2 c start _ head hhead =>
    have hpragma := (pragmaLine?_le hhead).1
    have hstart : start.options = o := (skipBlanks_options c).trans hoptions
    rw [hstart] at hpragma
    exact (cuts_skipBlanks c).trans
      (cuts_pragma (fun g => .inr (.inr hpragma)) (htext.reaches (reaches_skipBlanks c)) hhead)
  | case3 c start =>
    exact (cuts_skipBlanks c).trans ((cuts_insertedSemicolon start).trans (.of_eq rfl rfl))
  | case4 c start => exact (cuts_skipBlanks c).trans (cuts_endOfFile start)
  | case5 c start =>
    exact (cuts_skipBlanks c).trans ((cuts_insertedSemicolon start).trans (.of_eq rfl rfl))
  | case6 c start _ _ g rest hrest =>
    have hne : start.rest ≠ [] := hrest ▸ List.cons_ne_nil g rest
    exact (cuts_skipBlanks c).trans (cuts_comment (htext.reaches (reaches_skipBlanks c)) hne)
  | case7 c start _ _ g rest hrest hcomment hpending hcomments ih =>
    have hreach := (reaches_skipBlanks c).trans (reaches_comment start)
    have hstart : start.options = o := (skipBlanks_options c).trans hoptions
    have hnone : o.comments = false := hstart ▸ Bool.eq_false_of_not_eq_true hcomments
    exact (Cuts.gap (fun g _ => .inr (.inl hnone)) hreach).trans
      (ih ((comment_options start).trans hstart) (htext.reaches hreach))
  | case8 c start _ _ rest hcomment hrest =>
    have hbreak : start.Cuts o [] (start.advanceBy 1) := by
      refine cuts_advanceBy fun g hg => .inl ?_
      rw [hrest, List.take_succ_cons, List.take_zero, List.mem_singleton] at hg
      rw [hg]
      rfl
    exact (cuts_skipBlanks c).trans
      ((cuts_insertedSemicolon start).trans (hbreak.trans (.of_eq rfl rfl)))
  | case9 c start _ _ g rest hrest =>
    exact (cuts_skipBlanks c).trans (cuts_lexeme (htext.reaches (reaches_skipBlanks c)) hrest)

/-- What is read beyond the tokens that wait. -/
def read (c : Cursor) : Cursor × Token × List Token := if c.inText then c.templateText else c.code

theorem scan_eq (h : c.pool = []) :
    c.scan = ({ c.read.1 with pool := c.read.2.2 }, c.read.2.1) := by
  rw [scan, h]
  rfl

theorem scan_pool {t : Token} {pool : List Token} (h : c.pool = t :: pool) :
    c.scan = ({ c with pool }, t) := by
  rw [scan, h]

theorem cuts_read (hoptions : c.options = o) (htext : c.IsText) :
    c.Cuts o (c.read.2.1 :: c.read.2.2) c.read.1 := by
  unfold read
  split
  · exact cuts_templateText (fun hpragma g => .inr (.inr (hoptions ▸ hpragma))) htext
  · exact cuts_code hoptions htext

/-- All tokens of a source: those that wait, those that tile what is left, and the end behind them.
-/
theorem cuts_scanToEnd {limit : Nat} (hoptions : c.options = o) (htext : c.IsText)
    (hpool : c.PoolInner) (hlimit : c.weight < limit) :
    ∃ tokens, (scanToEnd limit c).2 = c.pool ++ tokens ∧
      c.Cuts o tokens (scanToEnd limit c).1 ∧
      ∃ before e, tokens = before ++ [e] ∧ e.kind = .eof ∧ ∀ t ∈ before, t.kind ≠ .eof := by
  induction limit generalizing c with
  | zero => exact absurd hlimit (Nat.not_lt_zero _)
  | succ limit ih =>
    have hnext := ih (c := c.scan.1) ((reads_scan c).options_eq.trans hoptions)
      (htext.reaches (reaches_scan c)) hpool.scan
    have hlighter := scan_weight_lt c
    have hended := ended_of_eof hpool
    rw [scanToEnd]
    cases hwait : c.pool with
    | cons t pool =>
      have ht : t.kind ≠ .eof := (hpool t (hwait ▸ List.mem_cons_self)).2
      rw [scan_pool hwait] at hnext hlighter ⊢
      have hlt := hlighter ht
      obtain ⟨tokens, htokens, hcut, hlast⟩ := hnext (by omega)
      dsimp only at htokens hcut ⊢
      rw [if_neg ht]
      refine ⟨tokens, ?_, (cuts_withPool c pool).trans hcut, hlast⟩
      rw [htokens, List.cons_append]
    | nil =>
      have hcut := cuts_read hoptions htext
      rw [scan_eq hwait] at hnext hlighter hended ⊢
      dsimp only at hnext hlighter hended ⊢
      by_cases htoken : c.read.2.1.kind = .eof
      · have hmore := (hended htoken).pool_eq
        dsimp only at hmore
        rw [hmore] at hcut
        rw [if_pos htoken]
        exact ⟨[c.read.2.1], rfl, hcut.trans (cuts_withPool c.read.1 c.read.2.2), [], _, rfl,
          htoken, List.forall_mem_nil _⟩
      · have hlt := hlighter htoken
        have hmore : ∀ t ∈ c.read.2.2, t.kind ≠ .eof := by
          have hpool := hpool.scan
          rw [scan_eq hwait] at hpool
          exact fun t ht => (hpool t ht).2
        obtain ⟨tokens, htokens, hrun, before, e, hlast, hkind, hbefore⟩ := hnext (by omega)
        rw [if_neg htoken]
        refine ⟨c.read.2.1 :: (c.read.2.2 ++ tokens), ?_, ?_,
          c.read.2.1 :: (c.read.2.2 ++ before), e, ?_, hkind, ?_⟩
        · rw [htokens, List.nil_append]
        · exact hcut.trans ((cuts_withPool c.read.1 c.read.2.2).trans hrun)
        · rw [hlast]
          simp
        · intro t ht
          rcases List.mem_cons.1 ht with rfl | ht
          · exact htoken
          · exact (List.mem_append.1 ht).elim (hmore t) (hbefore t)

/-- Of what stands before the first token, only a byte order mark is no blank. -/
theorem start_rest (file : SourceFile) (options : ScanOptions) (glyphs : List Glyph) :
    ∃ mark, glyphs = mark ++ (start file options glyphs).rest ∧
      (start file options glyphs).offset = Glyph.widths mark ∧
      (mark = [] ∨ mark = [.char byteOrderMark]) := by
  unfold start
  dsimp only
  split
  · next hmark =>
    rw [arrive_rest] at hmark
    obtain ⟨rest, rfl⟩ := List.head?_eq_some_iff.1 hmark
    refine ⟨[.char byteOrderMark], by simp, ?_, .inr rfl⟩
    change (advanceBy 1 _).offset = _
    rw [offset_advanceBy, arrive_rest, arrive_offset]
    exact Nat.zero_add _
  · exact ⟨[], by simp, arrive_offset _, .inl rfl⟩

end Cursor

end TemplateScript
