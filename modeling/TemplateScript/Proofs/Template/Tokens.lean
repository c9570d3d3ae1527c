import TemplateScript.Proofs.Cursor.PragmaLine
import TemplateScript.Proofs.Cursor.Tiling
import TemplateScript.Proofs.Cursor.Calls
import TemplateScript.Proofs.Template.Phrases

/-!
# Tokens of canonical templates

The source of a template is read as its tokens. All code of a template is words with one space
before each of them, so a cursor in code stands before a space, and a cursor in text stands before a
run of text, before a block of code or at the end.
-/

namespace TemplateScript

namespace Glyph

theorem ofText_append (a b : String) : ofText (a ++ b) = ofText a ++ ofText b := by
  rw [ofText, String.toList_append, List.map_append]
  rfl

theorem text_ofText (text : String) : Glyph.text (ofText text) = text := by
  rw [Glyph.text, ofText, charsAfter_char, String.ofList_toList]

/-- No run begins with a word whose first character is another one. -/
theorem startsWith_other {g : Glyph} {rest : List Glyph} {word : String} {ch : Char}
    {chars : List Char} (hword : word.toList = ch :: chars) (hne : g ≠ .char ch) :
    startsWith (g :: rest) word = false := by
  refine Bool.eq_false_iff.2 fun h => ?_
  obtain ⟨rest', hrest⟩ := Cursor.startsWith_head hword h
  exact hne (List.cons.inj hrest).1

end Glyph

namespace Cursor

variable {c : Cursor} {g : Glyph} {glyphs rest : List Glyph} {isValue : Bool}

/-- Moving through glyphs that are fit changes nothing but where the cursor stands. -/
theorem advanceBy_fit {n : Nat} (hfit : ∀ g ∈ c.rest, g.IsFit) :
    ∃ offset lineStart file,
      c.advanceBy n = { c with rest := c.rest.drop n, offset, lineStart, file } := by
  induction n generalizing c with
  | zero => exact ⟨c.offset, c.lineStart, c.file, rfl⟩
  | succ n ih =>
    cases hrest : c.rest with
    | nil =>
      have hstays : c.advance = c := by
        unfold advance
        rw [hrest]
      obtain ⟨offset, lineStart, file, heq⟩ := ih hfit
      refine ⟨offset, lineStart, file, ?_⟩
      rw [advanceBy, hstays, heq, hrest]
      simp
    | cons g rest =>
      rw [hrest] at hfit
      have hrestfit := (List.forall_mem_cons.1 hfit).2
      have hleave : ∃ lineStart file, c.leave g = { c with lineStart, file } := by
        unfold leave
        split
        · exact ⟨_, _, rfl⟩
        · exact ⟨c.lineStart, c.file, rfl⟩
      obtain ⟨lineStart, file, hleave⟩ := hleave
      have hadvance : c.advance =
          { c with rest, offset := c.offset + g.width, lineStart, file } := by
        rw [advance_cons hrest, hleave]
        exact arrive_fit fun g hg => hrestfit g (List.mem_of_mem_head? hg)
      rw [advanceBy, hadvance]
      obtain ⟨offset, lineStart, file, heq⟩ :=
        ih (c := { c with rest, offset := c.offset + g.width, lineStart, file }) hrestfit
      exact ⟨offset, lineStart, file, heq⟩

/-- A cursor in a template with the usual delimiters, before some glyphs, that has nothing to
complain of. -/
structure Clear (c : Cursor) (glyphs : List Glyph) : Prop where
  rest_eq : c.rest = glyphs
  fit : ∀ g ∈ glyphs, g.IsFit
  mixed_eq : c.options.mixed = true
  delimiters_eq : c.options.delimiters = {}
  errors_eq : c.errors = []
  taken_eq : c.taken = 0
  trimNext_eq : c.trimNext = false
  pool_eq : c.pool = []

/-- A clear cursor in the text of a template. -/
structure InText (c : Cursor) (glyphs : List Glyph) : Prop extends c.Clear glyphs where
  inText_eq : c.inText = true

/-- A clear cursor in the code of a template, outside brackets. -/
structure InCode (c : Cursor) (isValue : Bool) (glyphs : List Glyph) : Prop extends
    c.Clear glyphs where
  inText_eq : c.inText = false
  inValue_eq : c.inValue = isValue
  nesting_eq : c.nesting = {}

theorem Clear.advanceBy_eq (h : c.Clear glyphs) (n : Nat) :
    ∃ offset lineStart file,
      c.advanceBy n = { c with rest := glyphs.drop n, offset, lineStart, file } := by
  have hfit := h.fit
  rw [← h.rest_eq] at hfit ⊢
  exact advanceBy_fit hfit

theorem InText.advanceBy (h : c.InText glyphs) (n : Nat) :
    (c.advanceBy n).InText (glyphs.drop n) := by
  obtain ⟨offset, lineStart, file, heq⟩ := h.advanceBy_eq n
  rw [heq]
  exact { h with rest_eq := rfl, fit := fun g hg => h.fit g (List.mem_of_mem_drop hg) }

theorem InCode.advanceBy (h : c.InCode isValue glyphs) (n : Nat) :
    (c.advanceBy n).InCode isValue (glyphs.drop n) := by
  obtain ⟨offset, lineStart, file, heq⟩ := h.advanceBy_eq n
  rw [heq]
  exact { h with rest_eq := rfl, fit := fun g hg => h.fit g (List.mem_of_mem_drop hg) }

/-! ### Words -/

/-- The glyphs that code does not begin a token with, or that begin no token of a template. -/
def gaps : List Glyph := [' ', '\t', '\r', '\n', '#', '/', '-', '\x7d'].map .char

/-- The text up to a later cursor is what was read. -/
theorem textTo_eq {later : Cursor} {text : String}
    (h : c.rest = Glyph.ofText text ++ later.rest) : c.textTo later = text := by
  rw [textTo, h, List.length_append, Nat.add_sub_cancel, List.take_left, Glyph.text_ofText]

/-- Behind one space, the code of a template goes on with a lexeme. -/
theorem InCode.scan_eq (h : c.InCode isValue (.char ' ' :: g :: rest)) (hg : g ∉ gaps) :
    c.advance.InCode isValue (g :: rest) ∧
      c.scan = ({ (c.advance.lexeme g).1 with pool := [] }, (c.advance.lexeme g).2) := by
  have hahead : c.advance.InCode isValue (g :: rest) := h.advanceBy 1
  have hblank : (g.isInlineSpace || (g = .char '\n' && !c.pending)) = false := by
    simp only [gaps, List.map_cons, List.mem_cons, not_or] at hg
    simp [Glyph.isInlineSpace, hg]
  have hskip : c.skipBlanks = c.advance := by
    rw [skipBlanks, h.rest_eq, Glyph.countWhile, List.takeWhile_cons_of_pos (by rfl),
      List.takeWhile_cons_of_neg (by simp [hblank])]
    rfl
  have hother {word : String} {ch : Char} {chars : List Char} (hword : word.toList = ch :: chars)
      (hch : .char ch ∈ gaps) : Glyph.startsWith (g :: rest) word = false :=
    Glyph.startsWith_other hword fun heq => hg (heq ▸ hch)
  have hend : c.advance.codeEnd? = none := by
    have hclosing : Glyph.startsWith (g :: rest) "\x7d" = false := hother rfl (by decide)
    have htrim : Glyph.startsWith (g :: rest) "-" = false := hother rfl (by decide)
    unfold codeEnd?
    rw [hahead.rest_eq, hahead.delimiters_eq]
    simp [hclosing, htrim]
  have hpragma : c.advance.pragmaLine? = none := by
    unfold pragmaLine?
    rw [hahead.rest_eq, pragmaHead?]
    have hmark : g ≠ .char '#' := fun heq => hg (heq ▸ by decide)
    simp [hmark]
  have hcomment : c.advance.atComment = false := by
    unfold atComment startsLineComment
    rw [hahead.rest_eq, hother (show "#".toList = ['#'] from rfl) (by decide),
      hother (show "//".toList = ['/', '/'] from rfl) (by decide),
      hother (show "/*".toList = ['/', '*'] from rfl) (by decide)]
    rfl
  have hbreak : g ≠ .char '\n' := fun heq => hg (heq ▸ by decide)
  refine ⟨hahead, ?_⟩
  rw [Cursor.scan_eq h.pool_eq, read, h.inText_eq, if_neg Bool.false_ne_true, code_eq, hskip, hend,
    hpragma, hahead.rest_eq]
  dsimp only
  rw [hcomment, if_neg Bool.false_ne_true, if_neg hbreak]

variable {faces : List Token.Face}

/-- A lexeme of a template is handed out, and the cursor stands behind it. -/
theorem InCode.gives_lexeme (h : c.InCode isValue (.char ' ' :: g :: rest)) (hg : g ∉ gaps) {n : Nat}
    {f : Token.Face} (hread : c.advance.lexeme g =
      c.advance.closing (c.advance.advanceBy n, f.placed c.advance.offset))
    (hkind : f.kind ≠ .comment)
    (hnext : ∀ later : Cursor, later.InCode isValue ((g :: rest).drop n) → later.Gives faces) :
    c.Gives (f :: faces) := by
  obtain ⟨hahead, hscan⟩ := h.scan_eq hg
  have hlater := hahead.advanceBy n
  rw [hread] at hscan
  exact .cons ⟨hscan, hkind, hlater.errors_eq, hlater.taken_eq⟩
    (hnext _ { hlater with pool_eq := rfl })

/-- The text is a word. -/
def isWord (text : String) : Bool :=
  text.toList.head?.any (fun ch => (Glyph.char ch).isLetter) &&
    text.toList.all fun ch => (Glyph.char ch).isLetter || (Glyph.char ch).isDigit

theorem ofWord_ne_comment (text : String) : Token.Kind.ofWord text ≠ .comment := by
  intro hcomment
  have houter := ofWord_isOuter text
  rw [hcomment] at houter
  cases houter

/-- No word is a semicolon, so the token of a word has no flags. -/
theorem ofWord_flags (text : String) : (⟨.ofWord text, text⟩ : Token.Face).flags = {} := by
  have hnone : Token.Kind.semicolon ∉ .ident :: .lbrace :: .rbrace :: Token.Kind.keywords := by
    decide
  have hne : Token.Kind.ofWord text ≠ .semicolon := by
    intro hsemicolon
    have hmem := ofWord_mem text
    rw [hsemicolon] at hmem
    exact hnone hmem
  simp [Token.Face.flags, hne]

/-- A word that ends where the glyphs no longer go on with it is one lexeme. -/
theorem lexeme_word {text : String} (hword : isWord text = true)
    (hrest : c.rest = Glyph.ofText text ++ rest)
    (hend : ∀ g ∈ rest.head?, (g.isLetter || g.isDigit) = false) (g : Glyph) :
    c.lexeme g = c.closing (c.advanceBy (Glyph.ofText text).length,
      (⟨.ofWord text, text⟩ : Token.Face).placed c.offset) := by
  obtain ⟨hhead, hall⟩ := Bool.and_eq_true_iff.1 hword
  have hat : c.atWord = true := by
    rw [atWord, hrest, Glyph.ofText]
    cases hchars : text.toList with
    | nil => simp [hchars] at hhead
    | cons ch chars => simpa [hchars] using hhead
  have hletters : ∀ g ∈ Glyph.ofText text, (g.isLetter || g.isDigit) = true := by
    intro g hg
    obtain ⟨ch, hch, rfl⟩ := List.mem_map.1 hg
    exact List.all_eq_true.1 hall ch hch
  have hnone : rest.takeWhile (fun g => g.isLetter || g.isDigit) = [] := by
    cases rest with
    | nil => rfl
    | cons g more => exact List.takeWhile_cons_of_neg (by simp [hend g rfl])
  have hrun : wordRun c.rest = (Glyph.ofText text).length := by
    rw [hrest, wordRun, Glyph.countWhile, List.takeWhile_append_of_pos hletters, hnone,
      List.append_nil]
  have hto : c.textTo (c.advanceBy (Glyph.ofText text).length) = text :=
    textTo_eq (by rw [advanceBy_rest, hrest, List.drop_left])
  rw [lexeme, if_pos hat, word, hrun, hto, Token.Face.placed, ofWord_flags]

theorem InCode.gives_word (text : String) (hword : isWord text = true)
    (h : c.InCode isValue (.char ' ' :: (Glyph.ofText text ++ .char ' ' :: rest)))
    (hnext : ∀ later : Cursor, later.InCode isValue (.char ' ' :: rest) → later.Gives faces) :
    c.Gives (⟨.ofWord text, text⟩ :: faces) := by
  have hhead := (Bool.and_eq_true_iff.1 hword).1
  cases hchars : text.toList with
  | nil => simp [hchars] at hhead
  | cons ch chars =>
    rw [hchars] at hhead
    have htext : Glyph.ofText text = .char ch :: chars.map .char := by
      rw [Glyph.ofText, hchars, List.map_cons]
    rw [htext, List.cons_append] at h
    have hg : Glyph.char ch ∉ gaps := by
      intro hmem
      have hno : ∀ g ∈ gaps, g.isLetter = false := by decide
      simp [hno _ hmem] at hhead
    have hrest : c.advance.rest = Glyph.ofText text ++ .char ' ' :: rest := by
      rw [(h.scan_eq hg).1.rest_eq, htext, List.cons_append]
    have hend : ∀ g ∈ (Glyph.char ' ' :: rest).head?, (g.isLetter || g.isDigit) = false := by
      rintro g ⟨⟩
      decide
    have hread := lexeme_word hword hrest hend (.char ch)
    refine h.gives_lexeme hg hread (ofWord_ne_comment text) fun later hlater => hnext later ?_
    have hdrop : (.char ch :: (chars.map .char ++ .char ' ' :: rest)).drop
        (Glyph.ofText text).length = .char ' ' :: rest := by
      rw [← List.cons_append, ← htext, List.drop_left]
    rwa [hdrop] at hlater

theorem InCode.gives_define
    (h : c.InCode isValue (.char ' ' :: .char ':' :: .char '=' :: .char ' ' :: rest))
    (hnext : ∀ later : Cursor, later.InCode isValue (.char ' ' :: rest) → later.Gives faces) :
    c.Gives (⟨.define, ""⟩ :: faces) := by
  have hg : Glyph.char ':' ∉ gaps := by decide
  have hrest := (h.scan_eq hg).1.rest_eq
  have hmark : mark? c.advance.rest = some .define := by
    rw [hrest]
    rfl
  have hread : c.advance.lexeme (.char ':') =
      c.advance.closing (c.advance.advanceBy 2,
        (⟨.define, ""⟩ : Token.Face).placed c.advance.offset) := by
    have hword : c.advance.atWord = false := by
      rw [atWord, hrest]
      rfl
    have hnumber : c.advance.atNumber = false := by
      rw [atNumber, hrest]
      rfl
    rw [lexeme, hword, hnumber, hmark]
    rfl
  exact h.gives_lexeme hg hread (by decide) hnext

theorem InCode.gives_one (h : c.InCode isValue (.char ' ' :: .char '1' :: .char ' ' :: rest))
    (hnext : ∀ later : Cursor, later.InCode isValue (.char ' ' :: rest) → later.Gives faces) :
    c.Gives (⟨.int, "1"⟩ :: faces) := by
  have hg : Glyph.char '1' ∉ gaps := by decide
  have hrest := (h.scan_eq hg).1.rest_eq
  have hread : c.advance.lexeme (.char '1') =
      c.advance.closing (c.advance.advanceBy 1,
        (⟨.int, "1"⟩ : Token.Face).placed c.advance.offset) := by
    have hword : c.advance.atWord = false := by
      rw [atWord, hrest]
      rfl
    have hat : c.advance.atNumber = true := by
      rw [atNumber, hrest]
      rfl
    have hbody (kind : Token.Kind) :
        Number.body kind c.advance.rest = ⟨1, .int, false, true⟩ := by
      rw [hrest]
      rfl
    have hbehind : (c.advance.advanceBy 1).rest = .char ' ' :: rest := by
      rw [advanceBy_rest, hrest]
      rfl
    have hto : c.advance.textTo (c.advance.advanceBy 1) = "1" :=
      textTo_eq (by rw [hbehind, hrest]; rfl)
    have hsuffix : Number.suffixKind? ⟨1, .int, false, true⟩ (c.advance.advanceBy 1).rest = none := by
      rw [hbehind]
      rfl
    have hextra : wordRun (c.advance.advanceBy 1).rest = 0 := by
      rw [hbehind]
      rfl
    have hnumber : c.advance.number =
        (c.advance.advanceBy 1, (⟨.int, "1"⟩ : Token.Face).placed c.advance.offset) := by
      unfold number
      rw [hbody]
      dsimp only
      rw [if_pos rfl, hsuffix]
      dsimp only
      rw [if_pos hextra, hto]
      rfl
    rw [lexeme, hword, hat, hnumber]
    rfl
  exact h.gives_lexeme hg hread (by decide) hnext

/-! ### Delimiters and text -/

open Template

/-- The closing delimiter leads back to text. -/
theorem InCode.gives_closer (h : c.InCode isValue (.char ' ' :: .char '\x7d' :: rest))
    (hnext : ∀ later : Cursor, later.InText rest → later.Gives faces) :
    c.Gives (closer isValue :: faces) := by
  have hahead : c.advance.InCode isValue (.char '\x7d' :: rest) := h.advanceBy 1
  have hskip : c.skipBlanks = c.advance := by
    rw [skipBlanks, h.rest_eq, Glyph.countWhile, List.takeWhile_cons_of_pos (by rfl),
      List.takeWhile_cons_of_neg (by simp [Glyph.isInlineSpace])]
    rfl
  have hbehind := hahead.advanceBy 1
  have hto : c.advance.textTo (c.advance.advanceBy 1) = "\x7d" :=
    textTo_eq (by rw [hbehind.rest_eq, hahead.rest_eq]; rfl)
  have hend : c.advance.codeEnd? =
      some ({ c.advance.advanceBy 1 with
        inText := true, inValue := false, pending := false, trimNext := false },
        (closer isValue).placed c.advance.offset) := by
    have hdelimited : c.advance.isDelimited = true := by
      rw [isDelimited, hahead.mixed_eq, hahead.nesting_eq]
      rfl
    have hclosing : Glyph.startsWith (.char '\x7d' :: rest) "\x7d" = true := by
      simp [Glyph.startsWith, Glyph.ofText]
    have htrim : Glyph.startsWith (.char '\x7d' :: rest) "-" = false :=
      Glyph.startsWith_other rfl (by decide)
    unfold codeEnd?
    rw [hahead.rest_eq, hahead.delimiters_eq, hdelimited, hahead.inValue_eq]
    dsimp only
    rw [htrim, Bool.false_and, Bool.false_or, hclosing, Bool.and_self, if_pos rfl]
    have hlength : "\x7d".length + false.toNat = 1 := rfl
    rw [hlength, hto]
    cases isValue <;> rfl
  have hscan : c.scan =
      ({ c.advance.advanceBy 1 with
        inText := true, inValue := false, pending := false, trimNext := false, pool := [] },
        (closer isValue).placed c.advance.offset) := by
    rw [Cursor.scan_eq h.pool_eq, read, h.inText_eq, if_neg Bool.false_ne_true, code_eq, hskip, hend]
  refine .cons ⟨hscan, ?_, hbehind.errors_eq, hbehind.taken_eq⟩
    (hnext _ { hbehind with inText_eq := rfl, trimNext_eq := rfl, pool_eq := rfl })
  cases isValue <;> rintro ⟨⟩

/-- What may follow a run of text: a block of code, or nothing. -/
def IsBehindText (glyphs : List Glyph) : Prop :=
  glyphs = [] ∨ ∃ isValue rest, glyphs = Glyph.ofText (opening isValue) ++ .char ' ' :: rest

theorem startsWith_opening (isValue : Bool) (glyphs : List Glyph) :
    Glyph.startsWith (Glyph.ofText (opening isValue) ++ glyphs) "#\x7b" = true := by
  cases isValue <;> simp [Glyph.startsWith, Glyph.ofText, opening]

theorem pragmaHead?_opening (isValue : Bool) (glyphs : List Glyph) :
    pragmaHead? (Glyph.ofText (opening isValue) ++ glyphs) = none := by
  cases isValue <;> rfl

/-- Text reaches to the code behind it, or to the end. -/
theorem textExtent_plain {pragmas isLineStart : Bool} {run behind : List Glyph}
    (hrun : ∀ g ∈ run, g ≠ .char '#' ∧ g ≠ .char '\\') (hbehind : IsBehindText behind) :
    textExtent pragmas "#\x7b" isLineStart 0 (run ++ behind) = (run.length, false) := by
  induction run generalizing isLineStart with
  | nil =>
    rcases hbehind with rfl | ⟨isValue, rest, rfl⟩
    · exact textExtent_nil ..
    · have hopening := startsWith_opening isValue (.char ' ' :: rest)
      have hpragma := pragmaHead?_opening isValue (.char ' ' :: rest)
      obtain ⟨tail, htail⟩ := startsWith_head (show "#\x7b".toList = '#' :: ['\x7b'] from rfl) hopening
      rw [htail] at hopening hpragma
      rw [List.nil_append, htail, textExtent, hpragma, hopening]
      simp
  | cons g run ih =>
    obtain ⟨⟨hhash, hslash⟩, hrun⟩ := List.forall_mem_cons.1 hrun
    have hopening : Glyph.startsWith (g :: (run ++ behind)) "#\x7b" = false :=
      Glyph.startsWith_other rfl hhash
    have hpragma : pragmaHead? (g :: (run ++ behind)) = none := by simp [pragmaHead?, hhash]
    rw [List.cons_append, textExtent, hpragma, hopening, ih hrun]
    simp [hslash]

/-- The cursor stands in the text of a template, before some glyphs. The opening delimiter that they
begin with may have been read with the text before it. -/
def Meets (isAhead : Bool) (c : Cursor) (glyphs : List Glyph) : Prop :=
  c.InText glyphs ∨
    isAhead = true ∧ ∃ isValue rest pos,
      glyphs = Glyph.ofText (opening isValue) ++ .char ' ' :: rest ∧
        c.pool = [(opener isValue).placed pos] ∧
          { c with pool := [] }.InCode isValue (.char ' ' :: rest)

theorem Meets.ahead {isAhead : Bool} (h : c.Meets isAhead glyphs) : c.Meets true glyphs :=
  h.imp id fun ⟨_, hopener⟩ => ⟨rfl, hopener⟩

theorem InText.textBlanks_eq (h : c.InText glyphs) : c.textBlanks = [] := by
  rw [textBlanks, h.trimNext_eq, if_neg Bool.false_ne_true]

section

variable {run behind : List Glyph} (h : c.InText (run ++ behind))
  (hrun : ∀ g ∈ run, g ≠ .char '#' ∧ g ≠ .char '\\') (hbehind : IsBehindText behind)

include h hrun hbehind

theorem InText.textRun_eq : c.textRun = (run.length, false) := by
  rw [textRun, h.delimiters_eq, h.rest_eq]
  exact textExtent_plain hrun hbehind

theorem InText.textEnd : c.textEnd.InText behind := by
  have hend := h.advanceBy run.length
  rw [List.drop_left] at hend
  rw [Cursor.textEnd, h.textRun_eq hrun hbehind]
  exact { hend with trimNext_eq := rfl }

theorem InText.textKept_eq : c.textKept = run := by
  rw [textKept, h.textBlanks_eq, h.textRun_eq hrun hbehind, h.rest_eq, List.take_left]
  rfl

end

theorem length_opening (isValue : Bool) :
    (opening isValue).length = (Glyph.ofText (opening isValue)).length := by
  rw [Glyph.ofText, List.length_map, String.length_toList]

/-- The opening delimiter at the cursor, which has no marks but the one for a value. -/
theorem InText.openingDelimiter_eq
    (h : c.InText (Glyph.ofText (opening isValue) ++ .char ' ' :: rest)) :
    c.openingDelimiter "#\x7b" = ((opening isValue).length, (opener isValue).placed c.offset) := by
  have htake : Glyph.text (c.rest.take (opening isValue).length) = opening isValue := by
    rw [h.rest_eq, length_opening, List.take_left, Glyph.text_ofText]
  have htrims : Glyph.startsWith (c.rest.drop 2) "-" = false := by
    rw [h.rest_eq]
    cases isValue <;> exact Glyph.startsWith_other rfl (by decide)
  have hvalue : Glyph.startsWith (c.rest.drop 2) "=" = isValue := by
    rw [h.rest_eq]
    cases isValue
    · exact Glyph.startsWith_other rfl (by decide)
    · simp [Glyph.startsWith, Glyph.ofText, opening]
  have hlength : 2 + isValue.toNat = (opening isValue).length := by cases isValue <;> rfl
  unfold openingDelimiter
  rw [show "#\x7b".length = 2 from rfl, htrims]
  dsimp only [Bool.toNat_false, Nat.add_zero]
  simp only [hvalue, hlength, htake]
  cases isValue <;> rfl

/-- Behind the opening delimiter, the cursor is in code. -/
theorem InText.enterCode (h : c.InText (Glyph.ofText (opening isValue) ++ .char ' ' :: rest)) :
    (c.enterCode (opening isValue).length isValue).InCode isValue (.char ' ' :: rest) := by
  have hbehind := h.advanceBy (opening isValue).length
  rw [length_opening, List.drop_left] at hbehind
  rw [Cursor.enterCode, length_opening]
  exact { hbehind with inText_eq := rfl, inValue_eq := rfl, nesting_eq := rfl }

/-- Reading the text of a template before a block of code, and reading on into the code. -/
theorem InText.templateText_eq {run : List Glyph}
    (h : c.InText (run ++ (Glyph.ofText (opening isValue) ++ .char ' ' :: rest)))
    (hrun : ∀ g ∈ run, g ≠ .char '#' ∧ g ≠ .char '\\') :
    ∃ (pos : Pos) (entered : Cursor), entered.InCode isValue (.char ' ' :: rest) ∧
      c.templateText =
        match textToken? c.offset [] run false with
        | some token => (entered, token, [(opener isValue).placed pos])
        | none => (entered, (opener isValue).placed pos, []) := by
  have hbehind : IsBehindText (Glyph.ofText (opening isValue) ++ .char ' ' :: rest) :=
    .inr ⟨isValue, rest, rfl⟩
  have hend := h.textEnd hrun hbehind
  have hopening : Glyph.startsWith c.textEnd.rest "#\x7b" = true := by
    rw [hend.rest_eq]
    exact startsWith_opening ..
  have hpragma : c.textEnd.pragmaLine? = none := by
    rw [pragmaLine?, hend.rest_eq, pragmaHead?_opening, ite_self]
  have hdelimiter : c.textDelimiter =
      ((opening isValue).length, (opener isValue).placed c.textEnd.offset) := by
    rw [textDelimiter, h.delimiters_eq]
    exact hend.openingDelimiter_eq
  have hkind : decide (((opener isValue).placed c.textEnd.offset).kind = .valueBegin) = isValue := by
    cases isValue <;> rfl
  refine ⟨c.textEnd.offset, c.textCode, ?_, ?_⟩
  · rw [textCode, hdelimiter]
    dsimp only
    rw [hkind]
    exact hend.enterCode
  · rw [Cursor.templateText_eq, h.delimiters_eq, h.textBlanks_eq, h.textKept_eq hrun hbehind,
      h.textRun_eq hrun hbehind, hdelimiter]
    dsimp only
    rw [hopening, hpragma]
    rfl

theorem InText.scan_eq (h : c.InText glyphs) {read : Cursor × Token × List Token}
    (hread : c.templateText = read) :
    c.scan = ({ read.1 with pool := read.2.2 }, read.2.1) := by
  rw [Cursor.scan_eq h.pool_eq, Cursor.read, if_pos h.inText_eq, hread]

/-- A run of text is handed out, and the delimiter behind it may have been read. -/
theorem InText.gives_text {run : Run} {behind : List Glyph}
    (h : c.InText (Glyph.ofText run.text ++ behind)) (hbehind : IsBehindText behind)
    (hnext : ∀ later : Cursor, later.Meets true behind → later.Gives faces) :
    c.Gives (⟨.text, run.text⟩ :: faces) := by
  have hrun : ∀ g ∈ Glyph.ofText run.text, g ≠ .char '#' ∧ g ≠ .char '\\' := by
    intro g hg
    obtain ⟨ch, hch, rfl⟩ := List.mem_map.1 hg
    obtain ⟨hhash, hslash, -⟩ := run.plain ch hch
    simp [hhash, hslash]
  have htoken : textToken? c.offset [] (Glyph.ofText run.text) false =
      some ((⟨.text, run.text⟩ : Token.Face).placed c.offset) := by
    have hne : Glyph.ofText run.text ≠ [] := by
      simp [Glyph.ofText, run.ne]
    rw [textToken?, if_neg hne, Glyph.text_ofText]
    rfl
  have hkind : Token.Kind.text ≠ .comment := by decide
  rcases hbehind with rfl | ⟨isValue, rest, rfl⟩
  · have hend := h.textEnd hrun (.inl rfl)
    have hread : c.templateText =
        (c.textEnd, (⟨.text, run.text⟩ : Token.Face).placed c.offset, []) := by
      rw [Cursor.templateText_eq, h.delimiters_eq, h.textBlanks_eq, h.textKept_eq hrun (.inl rfl),
        h.textRun_eq hrun (.inl rfl), hend.rest_eq, startsWith_nil, htoken]
      rfl
    exact .cons ⟨h.scan_eq hread, hkind, hend.errors_eq, hend.taken_eq⟩
      (hnext _ (.inl { hend with pool_eq := rfl }))
  · obtain ⟨pos, entered, hentered, hread⟩ := h.templateText_eq hrun
    rw [htoken] at hread
    exact .cons ⟨h.scan_eq hread, hkind, hentered.errors_eq, hentered.taken_eq⟩
      (hnext _ (.inr ⟨rfl, isValue, rest, pos, rfl, rfl, { hentered with pool_eq := rfl }⟩))

/-- An opening delimiter is handed out, and the cursor is in code. -/
theorem Meets.gives_opener {isAhead : Bool}
    (h : c.Meets isAhead (Glyph.ofText (opening isValue) ++ .char ' ' :: rest))
    (hnext : ∀ later : Cursor, later.InCode isValue (.char ' ' :: rest) → later.Gives faces) :
    c.Gives (opener isValue :: faces) := by
  have hkind : (opener isValue).kind ≠ .comment := by cases isValue <;> rintro ⟨⟩
  rcases h with h | ⟨-, isValue', rest', pos, hglyphs, hpool, hcode⟩
  · have hnone : ∀ g ∈ ([] : List Glyph), g ≠ .char '#' ∧ g ≠ .char '\\' :=
      fun _ hg => absurd hg List.not_mem_nil
    obtain ⟨pos, entered, hentered, hread⟩ := InText.templateText_eq h hnone
    exact .cons ⟨h.scan_eq hread, hkind, hentered.errors_eq, hentered.taken_eq⟩
      (hnext _ { hentered with pool_eq := rfl })
  · obtain ⟨rfl, rfl⟩ : isValue' = isValue ∧ rest' = rest := by
      cases isValue <;> cases isValue' <;> simp [Glyph.ofText, opening] at hglyphs <;>
        simp [hglyphs]
    exact .cons ⟨scan_pool hpool, hkind, hcode.errors_eq, hcode.taken_eq⟩ (hnext _ hcode)

/-- Where nothing is left, the end of the file is handed out. -/
theorem Meets.gives_eof {isAhead : Bool} (h : c.Meets isAhead []) : c.Gives [⟨.eof, ""⟩] := by
  rcases h with h | ⟨-, isValue, rest, pos, hglyphs, -⟩
  · have hkind : Token.Kind.eof ≠ .comment := by decide
    exact .cons ⟨h.scan_eq (templateText_nil h.rest_eq), hkind, h.errors_eq, h.taken_eq⟩ (.nil _)
  · cases isValue <;> cases hglyphs

end Cursor

namespace Template

variable {mayBegin : Bool} {ts : List Template} {glyphs : List Glyph}

/-! ### Templates -/

/-- What can be written without quotes is a word, of a name or of a keyword. -/
theorem word_of_isBareName {text : String} (h : isBareName text = true) :
    Cursor.isWord text = true ∧ Token.Kind.ofWord text ∈ .ident :: Token.Kind.keywords := by
  unfold isBareName at h
  split at h
  · cases h
  · next ch rest hchars =>
    simp only [Bool.and_eq_true, List.all_eq_true, Bool.or_eq_true, decide_eq_true_eq,
      Token.Kind.isKeyword, List.contains_iff_mem] at h
    obtain ⟨⟨hfirst, hrest⟩, hkind⟩ := h
    refine ⟨?_, List.mem_cons.2 hkind⟩
    rw [Cursor.isWord, hchars]
    simp only [List.head?_cons, Option.any_some, List.all_cons, Bool.and_eq_true, List.all_eq_true]
    have hletter : (Glyph.char ch).isLetter = true := by simpa [Glyph.isLetter] using hfirst
    refine ⟨hletter, by rw [hletter, Bool.true_or], fun c hc => ?_⟩
    simpa [Glyph.isLetter, Glyph.isDigit] using hrest c hc

theorem Name.isWord (x : Name) : Cursor.isWord x.text = true := (word_of_isBareName x.isBare).1

theorem Name.gives (x : Name) {c : Cursor} {isValue : Bool} {faces : List Token.Face}
    (h : c.InCode isValue (.char ' ' :: (Glyph.ofText x.text ++ .char ' ' :: glyphs)))
    (hnext : ∀ later : Cursor, later.InCode isValue (.char ' ' :: glyphs) → later.Gives faces) :
    c.Gives (x.face :: faces) := by
  have hgives := Cursor.InCode.gives_word x.text x.isWord h hnext
  rwa [x.isIdent] at hgives

/-! The glyphs of templates, word by word. -/

theorem glyphs_value (x : Name) :
    Glyph.ofText (sources (.value x :: ts)) ++ glyphs =
      Glyph.ofText (opening true) ++ .char ' ' :: (Glyph.ofText x.text ++ .char ' ' ::
        .char '\x7d' :: (Glyph.ofText (sources ts) ++ glyphs)) := by
  simp [sources, source, Glyph.ofText]

theorem glyphs_define (x : Name) :
    Glyph.ofText (sources (.define x :: ts)) ++ glyphs =
      Glyph.ofText (opening false) ++ .char ' ' :: (Glyph.ofText x.text ++ .char ' ' ::
        .char ':' :: .char '=' :: .char ' ' :: .char '1' :: .char ' ' ::
          .char '\x7d' :: (Glyph.ofText (sources ts) ++ glyphs)) := by
  simp [sources, source, Glyph.ofText]

/-- The glyphs of the body of a branch or a loop, and of what closes it. -/
def bodyGlyphs (body : List Template) (behind : List Glyph) : List Glyph :=
  Glyph.ofText "do" ++ .char ' ' :: .char '\x7d' :: (Glyph.ofText (sources body) ++
    (Glyph.ofText (opening false) ++ .char ' ' :: (Glyph.ofText "end" ++ .char ' ' ::
      .char '\x7d' :: behind)))

theorem glyphs_branch (x : Name) (body : List Template) :
    Glyph.ofText (sources (.branch x body :: ts)) ++ glyphs =
      Glyph.ofText (opening false) ++ .char ' ' :: (Glyph.ofText "if" ++ .char ' ' ::
        (Glyph.ofText x.text ++ .char ' ' ::
          bodyGlyphs body (Glyph.ofText (sources ts) ++ glyphs))) := by
  simp [sources, source, Glyph.ofText, bodyGlyphs]

theorem glyphs_each (x y : Name) (body : List Template) :
    Glyph.ofText (sources (.each x y body :: ts)) ++ glyphs =
      Glyph.ofText (opening false) ++ .char ' ' :: (Glyph.ofText "for" ++ .char ' ' ::
        (Glyph.ofText x.text ++ .char ' ' :: (Glyph.ofText "in" ++ .char ' ' ::
          (Glyph.ofText y.text ++ .char ' ' ::
            bodyGlyphs body (Glyph.ofText (sources ts) ++ glyphs))))) := by
  simp [sources, source, Glyph.ofText, bodyGlyphs]

/-- Templates of which no text comes first may stand behind text. -/
theorem Apart.isBehindText (h : Apart false ts) (hglyphs : Cursor.IsBehindText glyphs) :
    Cursor.IsBehindText (Glyph.ofText (sources ts) ++ glyphs) := by
  cases h with
  | nil => exact hglyphs
  | value _ x h => exact .inr ⟨_, _, glyphs_value x⟩
  | define _ x h => exact .inr ⟨_, _, glyphs_define x⟩
  | branch _ x hbody h => exact .inr ⟨_, _, glyphs_branch x _⟩
  | each _ x y hbody h => exact .inr ⟨_, _, glyphs_each x y _⟩

/-- What a cursor gives that meets certain glyphs. -/
def Gives (isAhead : Bool) (glyphs : List Glyph) (faces : List Token.Face) : Prop :=
  ∀ c : Cursor, c.Meets isAhead glyphs → c.Gives faces

/-- The body of a branch or a loop, whose tokens are known, with what closes it. -/
theorem gives_body {c : Cursor} {body : List Template} {faces : List Token.Face}
    (hbody : ∀ {glyphs : List Glyph} {faces : List Token.Face}, Cursor.IsBehindText glyphs →
      Gives true glyphs faces →
        Gives false (Glyph.ofText (sources body) ++ glyphs) (allFaces body ++ faces))
    (h : c.InCode false (.char ' ' :: bodyGlyphs body glyphs)) (hnext : Gives false glyphs faces) :
    c.Gives (⟨.lbrace, "do"⟩ :: closer false ::
      (allFaces body ++ opener false :: ⟨.rbrace, "end"⟩ :: closer false :: faces)) := by
  refine h.gives_word "do" (by decide) fun c h => ?_
  refine h.gives_closer fun c h => ?_
  refine hbody (.inr ⟨_, _, rfl⟩) (fun c h => ?_) c (.inl h)
  refine h.gives_opener fun c h => ?_
  refine h.gives_word "end" (by decide) fun c h => ?_
  exact h.gives_closer fun c h => hnext c (.inl h)

/-- The source of templates is read as their tokens. -/
theorem Apart.gives (h : Apart mayBegin ts) {faces : List Token.Face}
    (hglyphs : Cursor.IsBehindText glyphs) (hnext : Gives true glyphs faces) :
    Gives (!mayBegin) (Glyph.ofText (sources ts) ++ glyphs) (allFaces ts ++ faces) := by
  have hmeets {glyphs : List Glyph} {faces : List Token.Face} (hgives : Gives true glyphs faces) :
      Gives false glyphs faces := fun c h => hgives c h.ahead
  induction h generalizing glyphs faces with
  | nil mayBegin => exact fun c h => hnext c h.ahead
  | text run hts ih =>
    intro c h
    rw [sources, source, Glyph.ofText_append, List.append_assoc] at h
    rcases h with h | ⟨hahead, -⟩
    · exact h.gives_text (hts.isBehindText hglyphs) (ih hglyphs hnext)
    · cases hahead
  | value mayBegin x hts ih =>
    intro c h
    rw [glyphs_value] at h
    refine h.gives_opener fun c h => x.gives h fun c h => ?_
    exact h.gives_closer fun c h => ih hglyphs hnext c (.inl h)
  | define mayBegin x hts ih =>
    intro c h
    rw [glyphs_define] at h
    refine h.gives_opener fun c h => x.gives h fun c h => ?_
    refine h.gives_define fun c h => h.gives_one fun c h => ?_
    exact h.gives_closer fun c h => ih hglyphs hnext c (.inl h)
  | branch mayBegin x hbody hts ihbody ih =>
    intro c h
    rw [glyphs_branch] at h
    simp only [allFaces, Template.faces, List.append_assoc, List.cons_append, List.nil_append]
    refine h.gives_opener fun c h => ?_
    refine h.gives_word "if" (by decide) fun c h => x.gives h fun c h => ?_
    exact gives_body ihbody h (ih hglyphs hnext)
  | each mayBegin x y hbody hts ihbody ih =>
    intro c h
    rw [glyphs_each] at h
    simp only [allFaces, Template.faces, List.append_assoc, List.cons_append, List.nil_append]
    refine h.gives_opener fun c h => ?_
    refine h.gives_word "for" (by decide) fun c h => x.gives h fun c h => ?_
    refine h.gives_word "in" (by decide) fun c h => y.gives h fun c h => ?_
    exact gives_body ihbody h (ih hglyphs hnext)

end Template

end TemplateScript
