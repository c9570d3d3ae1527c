import TemplateScript.Proofs.Cursor.Unbroken
import TemplateScript.Proofs.Layout.Lexical

/-!
# Tokens and layout

The tokens of code do not depend on how it is laid out. The texts of the tokens, written one behind
the other with one space between them and a line break where a semicolon was inserted, are read as
the same tokens. Each text is a word of its own, and a semicolon is inserted only where one is
pending, behind the same token.
-/

namespace TemplateScript

/-- The texts of the tokens of a source, but for its end. -/
def Token.texts (tokens : List Token) : List String :=
  (tokens.filter (·.kind ≠ .eof)).map text

/-- The tokens of a source written out, with one space between each two of them. -/
def Token.respaced (tokens : List Token) : String := " ".intercalate (texts tokens)

/-- What of a token does not depend on where it stands. -/
def Token.shape (t : Token) : Token.Kind × String × Token.Flags := (t.kind, t.literal, t.flags)

/-- Words with one space before each of them, but `n` before the first. -/
def Glyph.spaced (n : Nat) : List String → List Glyph
  | [] => []
  | word :: words => List.replicate n (.char ' ') ++ (ofText word ++ spaced 1 words)

theorem Glyph.ofText_intercalate (words : List String) :
    ofText (" ".intercalate words) = spaced 0 words := by
  match words with
  | [] => rfl
  | [word] => simp [spaced]
  | word :: next :: words =>
    have ih := ofText_intercalate (next :: words)
    rw [String.intercalate_cons_cons, ofText_append, ofText_append, ih]
    simp [spaced, ofText]

theorem Glyph.spaced_break (n : Nat) (words : List String) :
    spaced n ("\n" :: words) = List.replicate n (.char ' ') ++ .char '\n' :: spaced 1 words := by
  simp [spaced, ofText]

theorem Glyph.endsWord_spaced (words : List String) : Cursor.EndsWord (spaced 1 words) := by
  cases words with
  | nil => nofun
  | cons word words =>
    rintro g ⟨⟩
    exact .inl rfl

/-- Tokens of code that each are a word of their own, with semicolons inserted where one is pending.
-/
inductive Laid (o : ScanOptions) : Bool → List Token → Prop
  | last (pos : Pos) : Laid o false [⟨.eof, "", pos, {}⟩]
  | inserted (pos : Pos) {tokens : List Token} (h : Laid o false tokens) :
    Laid o true (⟨.semicolon, "\n", pos, { inserted := true }⟩ :: tokens)
  | lexeme {pending : Bool} {t : Token} {tokens : List Token}
    (hword : Cursor.Lexical o (Glyph.ofText t.text) t.face) (hface : t.face.flags = t.flags)
    (h : Laid o t.kind.endsStatement tokens) : Laid o pending (t :: tokens)

namespace Cursor

variable {c d later : Cursor} {o : ScanOptions} {pending : Bool} {tokens : List Token}
  {words : List String} {n : Nat}

theorem Lexical.ne_eof {word : List Glyph} {f : Token.Face} (h : Lexical o word f) :
    f.kind ≠ .eof := by
  intro hkind
  have houter := h.isOuter_eq
  rw [hkind] at houter
  cases houter

/-! ### What a source is laid out as -/

/-- What is read of code is laid out so far. -/
inductive LaidRead (c : Cursor) : Cursor × Token → Prop
  | last {later : Cursor} {pos : Pos} (hpending : c.pending = false) :
    LaidRead c (later, ⟨.eof, "", pos, {}⟩)
  | inserted {later : Cursor} {pos : Pos} (hpending : c.pending = true)
    (hlater : later.pending = false) :
    LaidRead c (later, ⟨.semicolon, "\n", pos, { inserted := true }⟩)
  | lexeme {later : Cursor} {t : Token} (hword : Lexical c.options (Glyph.ofText t.text) t.face)
    (hface : t.face.flags = t.flags) (hlater : later.pending = t.kind.endsStatement) :
    LaidRead c (later, t)

theorem LaidRead.congr {read : Cursor × Token} (h : c.LaidRead read)
    (hoptions : d.options = c.options) (hpending : d.pending = c.pending) : d.LaidRead read := by
  cases h with
  | last h => exact .last (hpending.trans h)
  | inserted h hlater => exact .inserted (hpending.trans h) hlater
  | lexeme hword hface hlater => exact .lexeme (hoptions ▸ hword) hface hlater

/-- What is no blank and begins no comment is no gap. -/
theorem isGap_eq {g : Glyph} {rest : List Glyph} (hrest : c.rest = g :: rest)
    (hblank : g.isInlineSpace = false) (hbreak : g ≠ .char '\n') (hcomment : ¬ c.atComment = true) :
    isGap g = false := by
  have hhash : g ≠ .char '#' := by
    rintro rfl
    refine hcomment ?_
    rw [atComment, hrest]
    rfl
  rw [isGap, hblank, decide_eq_false hbreak, decide_eq_false hhash]
  rfl

/-- What is fit to stand in a source is so further on. -/
theorem Reaches.fit (h : c.Reaches later) (hfit : ∀ g ∈ c.rest, g.IsFit) :
    ∀ g ∈ later.rest, g.IsFit := by
  intro g hg
  obtain ⟨read, hread⟩ := h
  exact hfit g (hread.rest_eq ▸ List.mem_append_right _ hg)

theorem code_laid (hoptions : c.options.InsertsSemicolons) (hfit : ∀ g ∈ c.rest, g.IsFit)
    (herrors : c.code.1.errors = []) : c.LaidRead (c.code.1, c.code.2.1) := by
  fun_induction code c with
  | case1 c start last token hend =>
    rw [codeEnd?_eq ((skipBlanks_options c).symm ▸ hoptions.toIsCode)] at hend
    cases hend
  | case2 c start _ head hhead =>
    rw [pragmaLine?_eq ((skipBlanks_options c).symm ▸ hoptions.toIsCode)] at hhead
    cases hhead
  | case3 c start _ _ hrest hpending =>
    exact .inserted ((advanceBy_pending _ c).symm.trans hpending) rfl
  | case4 c start _ _ hrest hpending =>
    exact .last ((advanceBy_pending _ c).symm.trans (Bool.eq_false_of_not_eq_true hpending))
  | case5 c start _ _ g rest hrest hcomment hends =>
    exact .inserted ((advanceBy_pending _ c).symm.trans (Bool.and_eq_true_iff.1 hends).1) rfl
  | case6 c start _ _ g rest hrest hcomment hends hcomments =>
    have hnone : start.options.comments = false := skipBlanks_options c ▸ hoptions.comments_eq
    rw [hnone] at hcomments
    cases hcomments
  | case7 c start _ _ g rest hrest hcomment hends hcomments ih =>
    have hpassed : start.comment.1.options = c.options :=
      (comment_options start).trans (skipBlanks_options c)
    have hreach := (reaches_skipBlanks c).trans (reaches_comment start)
    have hread := ih (hpassed ▸ hoptions) (hreach.fit hfit) herrors
    have hpending : start.comment.1.pending = c.pending :=
      (comment_pending start).trans (advanceBy_pending _ c)
    exact hread.congr hpassed.symm hpending.symm
  | case8 c start _ _ rest hcomment hrest =>
    have hstops := skipBlanks_stops hrest
    rw [Bool.or_eq_false_iff] at hstops
    exact .inserted (by simpa using hstops.2) rfl
  | case9 c start _ _ g rest hrest hcomment hbreak =>
    have hstart : start.options = c.options := skipBlanks_options c
    have hstops := skipBlanks_stops hrest
    rw [Bool.or_eq_false_iff] at hstops
    have hgap := isGap_eq hrest hstops.1 hbreak hcomment
    have hstartfit := (reaches_skipBlanks c).fit hfit
    have htext : start.IsText := fun g hg => (hstartfit g hg).imp fun _ h => h.1
    have hword := lexical_lexeme hrest hstartfit hgap herrors
    rw [Token.glyphs, if_pos (lexeme_isWritten start g), hstart] at hword
    exact .lexeme hword (lexeme_face hrest htext hbreak)
      (lexeme_pending (hstart ▸ hoptions.noAutoSemicolons_eq) herrors)

/-- The tokens of code in which nothing is wrong are laid out. -/
theorem laid_scanToEnd {limit : Nat} (hcode : c.IsCode) (hoptions : c.options.InsertsSemicolons)
    (hfit : ∀ g ∈ c.rest, g.IsFit) (hlimit : c.weight < limit)
    (herrors : (scanToEnd limit c).1.errors = []) :
    Laid c.options c.pending (scanToEnd limit c).2 := by
  induction limit generalizing c with
  | zero => exact absurd hlimit (Nat.not_lt_zero _)
  | succ limit ih =>
    have hlighter := scan_weight_lt c
    have hwalk := code_walks c hcode.toIsCode
    rw [hcode.scan_code] at hlighter
    rw [hcode.scanToEnd_succ] at herrors ⊢
    have hnow : c.code.1.errors = [] := by
      split at herrors
      · exact herrors
      · exact List.eq_nil_of_prefix_nil
          (herrors ▸ (walks_scanToEnd hcode.code limit).reaches.errors_grow)
    have hread := code_laid hoptions hfit hnow
    have hnext (hkind : c.code.2.1.kind ≠ .eof) :=
      ih hcode.code (hwalk.options_eq ▸ hoptions) (hwalk.reaches.fit hfit)
        (Nat.lt_of_lt_of_le (hlighter hkind) (Nat.le_of_lt_succ hlimit))
    rw [hwalk.options_eq] at hnext
    generalize c.code.1 = later at hread hnext herrors ⊢
    generalize c.code.2.1 = t at hread hnext herrors ⊢
    cases hread with
    | @last later pos hpending =>
      rw [if_pos rfl, hpending]
      exact .last pos
    | @inserted later pos hpending hlater =>
      rw [if_neg nofun] at herrors ⊢
      have hrest := hnext nofun herrors
      rw [hlater] at hrest
      rw [hpending]
      exact .inserted pos hrest
    | lexeme hword hface hlater =>
      have hkind : t.kind ≠ .eof := hword.ne_eof
      rw [if_neg hkind] at herrors ⊢
      have hrest := hnext hkind herrors
      rw [hlater] at hrest
      exact .lexeme hword hface hrest

/-! ### How what is laid out is read -/

/-- Spaces are passed over. -/
theorem InScript.scan_spaced {rest : List Glyph}
    (h : c.InScript o pending (List.replicate n (.char ' ') ++ rest)) :
    c.scan = (c.advanceBy n).scan := by
  have hahead := h.advanceBy n
  have hspaces : ∀ g ∈ List.replicate n (Glyph.char ' '),
      (g.isInlineSpace || (g = .char '\n' && !c.pending)) = true := by
    intro g hg
    rw [List.eq_of_mem_replicate hg]
    rfl
  have hskip : c.skipBlanks = (c.advanceBy n).skipBlanks := by
    rw [skipBlanks, skipBlanks, hahead.rest_eq, h.rest_eq, Glyph.countWhile, Glyph.countWhile,
      List.takeWhile_append_of_pos hspaces, List.length_append, List.length_replicate,
      List.drop_left' List.length_replicate, advanceBy_add, advanceBy_pending]
  rw [Cursor.scan_eq h.pool_eq, Cursor.scan_eq hahead.pool_eq, read, h.inText_eq, read,
    hahead.inText_eq, if_neg Bool.false_ne_true, if_neg Bool.false_ne_true, code_congr hskip]

/-- Behind spaces, a line break is handed out as a semicolon if one is pending. -/
theorem InScript.hands_spacedBreak {rest : List Glyph}
    (h : c.InScript o true (List.replicate n (.char ' ') ++ .char '\n' :: rest))
    (hmixed : o.mixed = false) :
    ∃ later pos, c.Hands ((⟨.semicolon, "\n"⟩ : Token.Face).placed pos) later ∧
      later.InScript o false rest := by
  have hahead := h.advanceBy n
  rw [List.drop_left' List.length_replicate] at hahead
  obtain ⟨later, pos, hhands, hlater⟩ := hahead.hands_break hmixed (by rintro g ⟨⟩; rfl)
  exact ⟨later, pos, { hhands with scan_eq := h.scan_spaced.trans hhands.scan_eq }, hlater⟩

/-- A word is handed out as its token. -/
theorem Lexical.hands {word rest : List Glyph} {f : Token.Face} (hword : Lexical o word f)
    (hmixed : o.mixed = false) (hrest : EndsWord rest)
    (h : c.InScript o pending (List.replicate n (.char ' ') ++ (word ++ rest))) :
    ∃ later pos, c.Hands (f.placed pos) later ∧
      later.InScript o (f.kind.endsStatement && !o.noAutoSemicolons) rest := by
  obtain ⟨g, more, rfl⟩ := List.exists_cons_of_ne_nil hword.ne_nil
  have hahead : (c.advanceBy n).rest = g :: more ++ rest := by
    rw [advanceBy_rest, h.rest_eq, List.drop_left' List.length_replicate]
  have hoptions : (c.advanceBy n).options = o := (advanceBy_options n c).trans h.options_eq
  obtain ⟨nesting, hread⟩ :=
    hword.reads (c.advanceBy n) g more rest hoptions rfl hrest hahead
  have hkind : f.kind ∉ [Token.Kind.comment, .illegal] := by
    have houter := hword.isOuter_eq
    simp only [List.mem_cons, List.not_mem_nil, or_false, not_or]
    refine ⟨fun hcomment => ?_, hword.legal⟩
    rw [hcomment] at houter
    cases houter
  obtain ⟨later, hhands, hlater⟩ :=
    InScript.hands_lexeme h hmixed (hword.begins rest hrest) hread hkind
  have hbehind : (g :: (more.append rest)).drop (g :: more).length = rest := List.drop_left' rfl
  rw [hbehind] at hlater
  exact ⟨later, _, hhands, hlater⟩

end Cursor

/-- A token that is handed out comes before those behind it. -/
theorem Cursor.Hands.scanToEnd {c later : Cursor} {t : Token} (h : c.Hands t later)
    (hkind : t.kind ≠ .eof) (limit : Nat) :
    Cursor.scanToEnd (limit + 1) c =
      ((Cursor.scanToEnd limit later).1, t :: (Cursor.scanToEnd limit later).2) := by
  rw [Cursor.scanToEnd, h.scan_eq]
  exact if_neg hkind

theorem Cursor.Hands.weight_lt {c later : Cursor} {t : Token} (h : c.Hands t later)
    (hkind : t.kind ≠ .eof) : later.weight < c.weight := by
  have hlighter := Cursor.scan_weight_lt c
  rw [h.scan_eq] at hlighter
  exact hlighter hkind

theorem Token.texts_cons {t : Token} (hkind : t.kind ≠ .eof) (tokens : List Token) :
    texts (t :: tokens) = t.text :: texts tokens := by
  rw [texts, List.filter_cons_of_pos (by simp [hkind])]
  rfl

theorem Token.text_inserted (pos : Pos) (flags : Flags) :
    text ⟨.semicolon, "\n", pos, flags⟩ = "\n" :=
  if_neg (show "\n" ≠ "" by decide)

/-- Tokens that are laid out are read from their texts with a space between each two. -/
theorem Laid.scanToEnd {o : ScanOptions} {pending : Bool} {tokens : List Token}
    (h : Laid o pending tokens) (hoptions : o.InsertsSemicolons) {d : Cursor} {n limit : Nat}
    (hd : d.InScript o pending (Glyph.spaced n (Token.texts tokens))) (hlimit : d.weight < limit) :
    (Cursor.scanToEnd limit d).1.errors = [] ∧
      (Cursor.scanToEnd limit d).2.map Token.shape = tokens.map Token.shape := by
  induction h generalizing d n limit with
  | last pos =>
    obtain ⟨limit, rfl⟩ := Nat.exists_eq_succ_of_ne_zero (Nat.ne_zero_of_lt hlimit)
    have hscan := Cursor.InScript.scan_end hd hoptions.mixed_eq
    rw [Cursor.scanToEnd, hscan]
    exact ⟨hd.errors_eq, rfl⟩
  | @inserted pos tokens h ih =>
    obtain ⟨limit, rfl⟩ := Nat.exists_eq_succ_of_ne_zero (Nat.ne_zero_of_lt hlimit)
    have hkind : Token.Kind.semicolon ≠ .eof := by decide
    rw [Token.texts_cons hkind, Token.text_inserted, Glyph.spaced_break] at hd
    obtain ⟨later, pos', hhands, hlater⟩ := hd.hands_spacedBreak hoptions.mixed_eq
    have hweight : later.weight < limit :=
      Nat.lt_of_lt_of_le (hhands.weight_lt hkind) (Nat.le_of_lt_succ hlimit)
    obtain ⟨herrors, hshapes⟩ := ih hlater hweight
    rw [hhands.scanToEnd hkind]
    refine ⟨herrors, ?_⟩
    rw [List.map_cons, List.map_cons, hshapes]
    rfl
  | @lexeme pending t tokens hword hface h ih =>
    obtain ⟨limit, rfl⟩ := Nat.exists_eq_succ_of_ne_zero (Nat.ne_zero_of_lt hlimit)
    have hkind : t.kind ≠ .eof := hword.ne_eof
    rw [Token.texts_cons hkind, Glyph.spaced] at hd
    obtain ⟨later, pos', hhands, hlater⟩ :=
      hword.hands hoptions.mixed_eq (Glyph.endsWord_spaced _) hd
    rw [hoptions.noAutoSemicolons_eq, Bool.not_false, Bool.and_true] at hlater
    have hweight : later.weight < limit :=
      Nat.lt_of_lt_of_le (hhands.weight_lt hkind) (Nat.le_of_lt_succ hlimit)
    obtain ⟨herrors, hshapes⟩ := ih hlater hweight
    rw [hhands.scanToEnd hkind]
    refine ⟨herrors, ?_⟩
    rw [List.map_cons, List.map_cons, hshapes, Token.shape, Token.shape, Token.Face.placed, hface]
    rfl

/-- All that is written of tokens that are laid out is fit to stand in a source. -/
theorem Laid.fit {o : ScanOptions} {pending : Bool} {tokens : List Token}
    (h : Laid o pending tokens) (n : Nat) :
    ∀ g ∈ Glyph.spaced n (Token.texts tokens), g.IsFit := by
  have hspaces (n : Nat) : ∀ g ∈ List.replicate n (Glyph.char ' '), g.IsFit := by
    intro g hg
    rw [List.eq_of_mem_replicate hg]
    exact ⟨' ', rfl, by decide⟩
  induction h generalizing n with
  | last pos => exact List.forall_mem_nil _
  | @inserted pos tokens h ih =>
    have hbreak : (Glyph.char '\n').IsFit := ⟨'\n', rfl, by decide⟩
    have hkind : Token.Kind.semicolon ≠ .eof := nofun
    rw [Token.texts_cons hkind, Token.text_inserted, Glyph.spaced_break]
    exact List.forall_mem_append.2 ⟨hspaces n, List.forall_mem_cons.2 ⟨hbreak, ih 1⟩⟩
  | lexeme hword hface h ih =>
    rw [Token.texts_cons hword.ne_eof]
    exact List.forall_mem_append.2 ⟨hspaces n, List.forall_mem_append.2 ⟨hword.fit, ih 1⟩⟩

namespace Cursor

/-- What is written of tokens that are laid out is a script. -/
theorem inScript_respaced {o : ScanOptions} {tokens : List Token} (h : Laid o false tokens)
    (hmixed : o.mixed = false) (file : SourceFile) :
    (start file o (Glyph.ofText (Token.respaced tokens))).InScript o false
      (Glyph.spaced 0 (Token.texts tokens)) := by
  have hfit := h.fit 0
  rw [Token.respaced, Glyph.ofText_intercalate,
    start_fit fun g hg => hfit g (List.mem_of_mem_head? hg)]
  exact ⟨rfl, hfit, rfl, rfl, hmixed, rfl, rfl, rfl⟩

/-- The tokens of code do not depend on its layout: the texts of the tokens of a source in which
nothing is wrong, with one space between each two and a line break for each semicolon that was
inserted, are a source in which nothing is wrong and which has the same tokens. -/
theorem scanAll_respaced (file : SourceFile) (options : ScanOptions) (text : String)
    (hsize : file.size = text.utf8ByteSize) (hoptions : options.InsertsSemicolons) :
    ∃ c, start? file options (Glyph.ofBytes (utf8 text)) = .ok c ∧
      (c.scanAll.1.errors = [] → ∀ file' : SourceFile,
        file'.size = (Token.respaced c.scanAll.2).utf8ByteSize →
          ∃ d, start? file' options (Glyph.ofBytes (utf8 (Token.respaced c.scanAll.2))) = .ok d ∧
            d.scanAll.1.errors = [] ∧
            d.scanAll.2.map Token.shape = c.scanAll.2.map Token.shape) := by
  let c := start file options (Glyph.ofBytes (utf8 text))
  have hcode : c.IsCode := {
    toIsCode := start_options file options _ ▸ hoptions.toIsCode
    inText_eq := (start_inText file options _).trans hoptions.mixed_eq
    pool_eq := start_pool file options _ }
  have hsame : c.options = options := start_options ..
  have hpending : c.pending = false := start_pending ..
  have hglyphs (text : String) : Glyph.ofBytes (utf8 text) = Glyph.ofText text :=
    Glyph.ofBytes_toUTF8 text
  have hwidths : file.size = Glyph.widths (Glyph.ofBytes (utf8 text)) := by
    rw [hsize, hglyphs, Glyph.widths_ofText]
  refine ⟨c, if_pos hwidths, fun herrors file' hfile' => ?_⟩
  have hnow : c.errors = [] := by
    have hgrow := (walks_scanToEnd hcode c.bound).reaches.errors_grow
    rw [show (scanToEnd c.bound c).1.errors = [] from herrors] at hgrow
    exact List.eq_nil_of_prefix_nil hgrow
  have hfit := fit_of_errors hcode (start_head hnow) herrors
  have hlaid : Laid options false c.scanAll.2 := by
    have hlaid := laid_scanToEnd hcode (hsame ▸ hoptions) hfit (weight_lt_bound c) herrors
    rwa [hsame, hpending] at hlaid
  generalize c.scanAll.2 = tokens at hlaid hfile' ⊢
  rw [hglyphs]
  have hscript := inScript_respaced hlaid hoptions.mixed_eq file'
  refine ⟨_, if_pos ?_, hlaid.scanToEnd hoptions hscript (weight_lt_bound _)⟩
  rw [hfile', Glyph.widths_ofText]

/-- A float that ends in its point before a comment, and a question before a number. -/
theorem scanAll_respaced_float : ∃ c d,
    start? ⟨"main", 1, 14, [0]⟩ { noPragma := true }
      (Glyph.ofBytes (utf8 "a=1.//b\nc?.5:d")) = .ok c ∧
    start? ⟨"main", 1, 21, [0]⟩ { noPragma := true }
      (Glyph.ofBytes (utf8 "a = 1. \n c ? .5 : d \n")) = .ok d ∧
    d.scanAll.1.errors = [] ∧ d.scanAll.2.map Token.shape = c.scanAll.2.map Token.shape := by
  obtain ⟨c, hstart, hc⟩ := scanAll_respaced ⟨"main", 1, 14, [0]⟩ { noPragma := true }
    "a=1.//b\nc?.5:d" (by decide +kernel) ⟨⟨rfl, rfl⟩, rfl, rfl⟩
  have hrun : c.scanAll.1.errors = [] ∧
      Token.respaced c.scanAll.2 = "a = 1. \n c ? .5 : d \n" := by
    have hfirst : (start ⟨"main", 1, 14, [0]⟩ { noPragma := true }
        (Glyph.ofBytes (utf8 "a=1.//b\nc?.5:d"))).scanAll.1.errors = [] ∧
          Token.respaced (start ⟨"main", 1, 14, [0]⟩ { noPragma := true }
            (Glyph.ofBytes (utf8 "a=1.//b\nc?.5:d"))).scanAll.2 =
              "a = 1. \n c ? .5 : d \n" := by
      decide +kernel
    unfold start? at hstart
    split at hstart
    · rwa [← Except.ok.inj hstart]
    · cases hstart
  have hagain := hc hrun.1 ⟨"main", 1, 21, [0]⟩ (by rw [hrun.2]; decide +kernel)
  rw [hrun.2] at hagain
  obtain ⟨d, hd, herrors, hshapes⟩ := hagain
  exact ⟨c, d, hstart, hd, herrors, hshapes⟩

end Cursor

end TemplateScript
