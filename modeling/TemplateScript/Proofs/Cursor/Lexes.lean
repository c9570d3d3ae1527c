import TemplateScript.Proofs.Cursor.Marks
import TemplateScript.Proofs.Cursor.OnLine
import TemplateScript.Proofs.Layout.Respaced

/-!
# Texts and their tokens

A text is read as tokens wherever it stands before what ends its last one. Texts that follow each
other are read as the tokens of one and then of the other, so what a text is read as is put together
as the text is. Spaces are read as nothing, and a line break behind a token that may end a statement
is read as a semicolon. There is no other line break in such a text.
-/

namespace TemplateScript

/-- A line break counts behind the tokens. If there are none, it counts as it did before. -/
def pendingBehind (options : ScanOptions) (pending : Bool) (faces : List Token.Face) : Bool :=
  faces.foldl (fun _ f => f.kind.endsStatement && !options.noAutoSemicolons) pending

/-- The last of the tokens may end a statement. -/
def EndsStatement (faces : List Token.Face) : Prop :=
  ∃ f ∈ faces.getLast?, f.kind.endsStatement = true

/-- Rows of tokens, with a token between two of them. -/
def separated (f : Token.Face) : List (List Token.Face) → List Token.Face
  | [] => []
  | [faces] => faces
  | faces :: next :: more => faces ++ f :: separated f (next :: more)

section EndsStatement

variable {options : ScanOptions} {pending : Bool} {faces more : List Token.Face} {f : Token.Face}

theorem pendingBehind_append (faces more : List Token.Face) :
    pendingBehind options pending (faces ++ more) =
      pendingBehind options (pendingBehind options pending faces) more :=
  List.foldl_append

theorem EndsStatement.append (h : EndsStatement more) (faces : List Token.Face) :
    EndsStatement (faces ++ more) := by
  obtain ⟨f, hf, hends⟩ := h
  refine ⟨f, ?_, hends⟩
  rw [List.getLast?_append_of_ne_nil _ (List.ne_nil_of_mem (List.mem_of_getLast? hf))]
  exact hf

theorem EndsStatement.singleton (h : f.kind.endsStatement = true) : EndsStatement [f] := ⟨f, rfl, h⟩

/-- Behind what may end a statement a line break counts, unless none does. -/
theorem EndsStatement.pendingBehind_eq (h : EndsStatement faces) :
    pendingBehind options pending faces = !options.noAutoSemicolons := by
  obtain ⟨f, hf, hends⟩ := h
  obtain ⟨before, rfl⟩ := List.getLast?_eq_some_iff.1 hf
  rw [pendingBehind_append]
  change (f.kind.endsStatement && _) = _
  rw [hends, Bool.true_and]

end EndsStatement

namespace Cursor

/-- The cursor stands in a source that is a script, before spaces and some glyphs. -/
def Near (c : Cursor) (source : List Glyph) (options : ScanOptions) (pending : Bool)
    (glyphs : List Glyph) : Prop :=
  c.InSource source ∧ ∃ n, c.InScript options pending (List.replicate n (.char ' ') ++ glyphs)

variable {c : Cursor} {source : List Glyph} {options : ScanOptions} {pending : Bool}
  {glyphs : List Glyph}

/-- The end of a source is read where no semicolon is pending. -/
theorem Near.gives_end (h : c.Near source options false []) (hmixed : options.mixed = false) :
    c.GivesIn (.lines source) [⟨.eof, ""⟩] := by
  obtain ⟨hin, n, hscript⟩ := h
  have hscan := hscript.scan_spaced
  have hahead := hscript.advanceBy n
  rw [List.drop_left' List.length_replicate] at hahead
  have hhands : c.Hands ((⟨.eof, ""⟩ : Token.Face).placed (c.advanceBy n).offset)
      { c.advanceBy n with pool := [] } :=
    { hahead.hands_end hmixed with scan_eq := hscan.trans (hahead.hands_end hmixed).scan_eq }
  refine .cons hhands ⟨hin.reaches hhands.reaches, ?_⟩ (.nil _)
  rintro f ⟨⟩ hf
  exact absurd (by decide) hf

end Cursor

open Cursor

/-- Before the glyphs, the text is read as the tokens, whatever is read of the glyphs, if all line
breaks among them are tokens as well. -/
structure Lexes (options : ScanOptions) (pending : Bool) (text : String) (rest : List Glyph)
    (faces : List Token.Face) : Prop where
  count_eq : (Glyph.ofText text).count (.char '\n') = faces.count .lineBreak
  gives : ∀ {source : List Glyph} {c : Cursor} {more : List Token.Face},
    c.Near source options pending (Glyph.ofText text ++ rest) →
    rest.count (.char '\n') = more.count .lineBreak →
    (∀ later : Cursor, later.Near source options (pendingBehind options pending faces) rest →
      later.GivesIn (.lines source) more) →
    c.GivesIn (.lines source) (faces ++ more)

namespace Lexes

variable {options : ScanOptions} {pending : Bool} {a b text : String} {rest : List Glyph}
  {faces more : List Token.Face} {f : Token.Face} {kind : Token.Kind}

theorem nil : Lexes options pending "" rest [] := ⟨rfl, fun h _ hnext => hnext _ h⟩

/-- Texts that follow each other are read as the tokens of one and then of the other. -/
theorem append (ha : Lexes options pending a (Glyph.ofText b ++ rest) faces)
    (hb : Lexes options (pendingBehind options pending faces) b rest more) :
    Lexes options pending (a ++ b) rest (faces ++ more) := by
  refine ⟨?_, fun h hcount hnext => ?_⟩
  · rw [Glyph.ofText_append, List.count_append, List.count_append, ha.count_eq, hb.count_eq]
  rw [Glyph.ofText_append, List.append_assoc] at h
  rw [List.append_assoc]
  refine ha.gives h ?_ fun mid hmid => hb.gives hmid hcount fun later hlater => hnext later ?_
  · rw [List.count_append, List.count_append, hb.count_eq, hcount]
  · rw [pendingBehind_append]
    exact hlater

/-- A space is read as nothing. -/
theorem space : Lexes options pending " " rest [] := by
  refine ⟨by decide, fun ⟨hin, n, hscript⟩ _ hnext => hnext _ ⟨hin, n + 1, ?_⟩⟩
  rw [List.replicate_succ', List.append_assoc]
  exact hscript

theorem before_space (h : Lexes options pending text (.char ' ' :: rest) faces) :
    Lexes options pending (text ++ " ") rest faces := by
  have hboth := h.append space
  rwa [List.append_nil] at hboth

theorem behind_space (h : Lexes options pending text rest faces) :
    Lexes options pending (" " ++ text) rest faces := by
  have hspace : Lexes options pending " " (Glyph.ofText text ++ rest) [] := space
  exact hspace.append h

/-- What hands out one token where a text begins reads the text as it. -/
theorem of_hands (htext : text ≠ "")
    (hcount : (Glyph.ofText text).count (.char '\n') = [f].count .lineBreak)
    (h : ∀ (c : Cursor) (n : Nat),
      c.InScript options pending (List.replicate n (.char ' ') ++ (Glyph.ofText text ++ rest)) →
        ∃ later pos, c.Hands (f.placed pos) later ∧
          (f.kind ∉ Token.Kind.lineEnds → pos = (c.advanceBy n).offset) ∧
          later.InScript options (f.kind.endsStatement && !options.noAutoSemicolons) rest) :
    Lexes options pending text rest [f] := by
  refine ⟨hcount, @fun source c more ⟨hin, n, hscript⟩ hmore hnext => ?_⟩
  obtain ⟨later, pos, hhands, hpos, hlater⟩ := h c n hscript
  have hsound := hscript.sound hin
  have hreached : later.InSource source := hin.reaches hhands.reaches
  refine .cons hhands ⟨hreached, ?_⟩ (hnext later ⟨hreached, 0, hlater⟩)
  rintro f ⟨⟩ hf
  refine ⟨hhands.pos_le hsound, ?_⟩
  obtain ⟨read, hsource, hoffset, -⟩ := hin.reaches (c.reaches_advanceBy n)
  rw [advanceBy_rest, hscript.rest_eq, List.drop_left' List.length_replicate] at hsource
  have hne : Glyph.ofText text ++ rest ≠ [] := by
    intro hnil
    refine htext (String.toList_eq_nil_iff.1 ?_)
    exact List.map_eq_nil_iff.1 (List.append_eq_nil_iff.1 hnil).1
  unfold Glyph.OnLine
  have hfaces : (f :: ([].append more)).count .lineBreak =
      [f].count .lineBreak + more.count .lineBreak :=
    show ([f] ++ more).count .lineBreak = _ from List.count_append
  rw [hpos hf, hoffset, hsource, Glyph.lineOf_append hne, List.count_append, List.count_append,
    hcount, hmore, hfaces]
  omega

/-- What hands out one token where a text of one line begins reads the text as it. -/
theorem of_placed (hne : text ≠ "") (htext : OneLine text) (hf : f.kind ∉ Token.Kind.lineEnds)
    (h : ∀ (c : Cursor) (n : Nat),
      c.InScript options pending (List.replicate n (.char ' ') ++ (Glyph.ofText text ++ rest)) →
        ∃ later, c.Hands (f.placed (c.advanceBy n).offset) later ∧
          later.InScript options (f.kind.endsStatement && !options.noAutoSemicolons) rest) :
    Lexes options pending text rest [f] := by
  have hbreak : (Glyph.ofText text).count (.char '\n') = 0 := by
    refine List.count_eq_zero.2 fun hmem => ?_
    obtain ⟨ch, hch, heq⟩ := List.mem_map.1 hmem
    cases heq
    exact (htext _ hch).1 rfl
  have hnone : [f].count .lineBreak = 0 := by
    refine List.count_eq_zero.2 fun hmem => ?_
    obtain rfl := List.mem_singleton.1 hmem
    exact hf (by decide)
  refine of_hands hne (hbreak.trans hnone.symm) fun c n hscript => ?_
  obtain ⟨later, hhands, hlater⟩ := h c n hscript
  exact ⟨later, _, hhands, fun _ => rfl, hlater⟩

/-! ### Rows -/

/-- What may stand behind a number may stand behind what is read as the tokens. -/
def BeforeEnd (options : ScanOptions) (text : String) (faces : List Token.Face) : Prop :=
  ∀ (pending : Bool) (rest : List Glyph), EndsNumber rest → Lexes options pending text rest faces

/-- Texts with a separator between them are read as their tokens with its token between them. -/
theorem intercalate {separator : String}
    (hseparator : ∀ pending rest, Lexes options pending separator rest [f])
    (hends : ∀ rest, EndsNumber (Glyph.ofText separator ++ rest))
    {items : List (String × List Token.Face)}
    (hitems : ∀ item ∈ items, BeforeEnd options item.1 item.2) (hrest : EndsNumber rest) :
    Lexes options pending (separator.intercalate (items.map (·.1))) rest
      (separated f (items.map (·.2))) := by
  induction items generalizing pending with
  | nil => exact nil
  | cons first items ih =>
    obtain ⟨hfirst, hmore⟩ := List.forall_mem_cons.1 hitems
    cases items with
    | nil => exact hfirst pending rest hrest
    | cons second items =>
      rw [List.map_cons, List.map_cons, String.intercalate_cons_cons, ← List.map_cons]
      have hall := append (append (hfirst pending _ (hends _)) (hseparator _ _)) (ih hmore)
      rwa [List.append_assoc] at hall

/-! ### Words and numbers -/

section Tokens

variable (hmixed : options.mixed = false)

include hmixed

theorem word (hword : isWord text = true)
    (hend : ∀ g ∈ rest.head?, (g.isLetter || g.isDigit) = false)
    (hkind : Token.Kind.ofWord text ∉ [Token.Kind.comment, .illegal]) :
    Lexes options pending text rest [⟨.ofWord text, text⟩] := by
  have hne : text ≠ "" := by
    rintro rfl
    cases hword
  have hends : Token.Kind.ofWord text ∉ Token.Kind.lineEnds := by
    have hwords : ∀ kind ∈ Token.Kind.ident :: .lbrace :: .rbrace :: Token.Kind.keywords,
        kind ∉ Token.Kind.lineEnds := by
      decide
    exact hwords _ (ofWord_mem text)
  exact of_placed hne (.of_isWord hword) hends fun _ _ h => h.hands_word hword hmixed hend hkind

theorem name (x : Template.Name) (hend : ∀ g ∈ rest.head?, (g.isLetter || g.isDigit) = false) :
    Lexes options pending x.text rest [x.face] := by
  have hword : Lexes options pending x.text rest _ :=
    word hmixed x.isWord hend (by rw [x.isIdent]; decide)
  rw [x.isIdent] at hword
  exact hword

/-- An integer before what may stand behind one. -/
theorem integer (n : Numeral) (isUnsigned : Bool) (hend : EndsNumber rest) :
    Lexes options pending (n.literal isUnsigned) rest
      [⟨integerKind isUnsigned, n.literal isUnsigned⟩] := by
  have hkind : (integerKind isUnsigned).endsStatement = true := by cases isUnsigned <;> rfl
  have hends : integerKind isUnsigned ∉ Token.Kind.lineEnds := by cases isUnsigned <;> decide
  have hsuffix : OneLine (integerSuffix isUnsigned) := by cases isUnsigned <;> decide
  have hne : n.literal isUnsigned ≠ "" := by
    intro hnone
    have hwritten := n.isWritten
    rw [(String.append_eq_empty_iff.1 hnone).1] at hwritten
    cases hwritten
  refine of_placed hne (n.oneLine.append hsuffix) hends fun c size h => ?_
  rw [hkind, Bool.true_and]
  exact h.hands_integer n isUnsigned hmixed hend

/-- A text of one line that is one lexeme is read as its token. -/
theorem of_lexeme (hne : text ≠ "") (htext : OneLine text) (hf : f.kind ∉ Token.Kind.lineEnds)
    (hlegal : f.kind ∉ [Token.Kind.comment, .illegal])
    (h : ∀ c : Cursor, c.options = options → c.rest = Glyph.ofText text ++ rest →
      ∃ g more nesting, Glyph.ofText text ++ rest = g :: more ∧ beginsLexeme (g :: more) = true ∧
        c.lexeme g = c.closing ({ c.advanceBy text.length with nesting }, f.placed c.offset)) :
    Lexes options pending text rest [f] := by
  refine of_placed hne htext hf fun c n hscript => ?_
  have hahead := hscript.advanceBy n
  rw [List.drop_left' List.length_replicate] at hahead
  obtain ⟨g, glyphs, nesting, hglyphs, hlexeme, hread⟩ := h _ hahead.options_eq hahead.rest_eq
  have hlength : text.length = (Glyph.ofText text).length := by
    rw [Glyph.ofText, List.length_map, String.length_toList]
  rw [hglyphs] at hscript
  obtain ⟨later, hhands, hlater⟩ := hscript.hands_lexeme hmixed hlexeme hread hlegal
  rw [← hglyphs, hlength, List.drop_left] at hlater
  exact ⟨later, hhands, hlater⟩

/-! ### Marks -/

/-- A mark that is one lexeme. -/
theorem of_mark (hkind : kind ∈ Token.Kind.marks) (hsemicolon : kind ≠ .semicolon)
    (h : ∀ c : Cursor, c.rest = Glyph.ofText kind.spelling ++ rest →
      ∃ g more, Glyph.ofText kind.spelling ++ rest = g :: more ∧
        beginsLexeme (g :: more) = true ∧
        c.lexeme g = c.closing
          ({ c.advanceBy kind.spelling.length with
            nesting := (c.advanceBy kind.spelling.length).nesting.after kind },
            (Chain.opFace kind).placed c.offset)) :
    Lexes options pending kind.spelling rest [Chain.opFace kind] := by
  have hmarks : ∀ kind ∈ Token.Kind.marks, kind ≠ .semicolon → kind.spelling ≠ "" ∧
      OneLine kind.spelling ∧ kind ∉ Token.Kind.lineEnds ∧
      kind ∉ [Token.Kind.comment, .illegal] := by
    decide +kernel
  obtain ⟨hne, hline, hends, hlegal⟩ := hmarks kind hkind hsemicolon
  refine of_lexeme hmixed hne hline hends hlegal fun c _ hrest => ?_
  obtain ⟨g, more, hglyphs, hlexeme, hread⟩ := h c hrest
  exact ⟨g, more, _, hglyphs, hlexeme, hread⟩

/-- A mark where no other goes on with it. -/
theorem mark (hkind : kind ∈ plainMarks) (hend : EndsMark kind rest) :
    Lexes options pending kind.spelling rest [Chain.opFace kind] := by
  obtain ⟨hmem, hplain⟩ := List.mem_filter.1 hkind
  simp only [List.mem_cons, List.not_mem_nil, or_false, not_or, decide_eq_true_eq] at hplain
  exact of_mark hmixed hmem hplain.2.2.2 fun c hrest => lexeme_plainMark hkind hend hrest

/-- The operator of a chain before a space. -/
theorem spacedMark (hkind : kind ∈ spacedMarks) :
    Lexes options pending kind.spelling (.char ' ' :: rest) [Chain.opFace kind] := by
  have hmarks : ∀ kind ∈ spacedMarks, kind ∈ Token.Kind.marks ∧ kind ≠ .semicolon := by decide
  obtain ⟨hmem, hsemicolon⟩ := hmarks kind hkind
  exact of_mark hmixed hmem hsemicolon fun c hrest => lexeme_spacedMark hkind hrest

/-- The mark of a selection before what is no digit. -/
theorem selectorMark (hkind : kind ∈ selectorMarks) (hend : EndsMark kind rest)
    (hdigit : rest.head?.any Glyph.isDecimalDigit = false) :
    Lexes options pending kind.spelling rest [Chain.opFace kind] := by
  have hmarks : ∀ kind ∈ selectorMarks, kind ∈ Token.Kind.marks ∧ kind ≠ .semicolon := by decide
  obtain ⟨hmem, hsemicolon⟩ := hmarks kind hkind
  exact of_mark hmixed hmem hsemicolon fun c hrest => lexeme_selectorMark hkind hend hdigit hrest

/-- A bracket or a comma, whatever stands behind it. -/
theorem solid (hkind : kind ∈ solidMarks) :
    Lexes options pending kind.spelling rest [Chain.opFace kind] := by
  have hplain : ∀ kind ∈ solidMarks, kind ∈ plainMarks := by decide +kernel
  exact mark hmixed (hplain kind hkind) (.of_solid hkind)

/-- A semicolon that stands in the source keeps its text. -/
theorem semicolon : Lexes options pending ";" rest [⟨.semicolon, ";"⟩] := by
  refine of_hands nofun (by decide) fun c n h => ?_
  have hrest : (c.advanceBy n).rest = .char ';' :: rest := by
    rw [advanceBy_rest, h.rest_eq, List.drop_left' List.length_replicate]
    rfl
  have hread : (c.advanceBy n).lexeme (.char ';') = (c.advanceBy n).closing
      ({ (c.advanceBy n).advanceBy 1 with
        nesting := ((c.advanceBy n).advanceBy 1).nesting.after .semicolon },
        (⟨.semicolon, ";"⟩ : Token.Face).placed (c.advanceBy n).offset) := by
    unfold lexeme atWord atNumber
    rw [hrest]
    rfl
  obtain ⟨later, hhands, hlater⟩ :=
    InScript.hands_lexeme (f := ⟨.semicolon, ";"⟩) h hmixed rfl hread (by decide)
  exact ⟨later, _, hhands, fun _ => rfl, hlater⟩

/-! ### Literals -/

/-- What stands between two quotes of a sort, and is read as one token, is read as a literal. -/
theorem of_quotes {quote : Char} {inner : List Char}
    (hkind : kind ∉ Token.Kind.lineEnds ∧ kind ∉ [Token.Kind.comment, .illegal])
    (htext : text = String.ofList (quote :: (inner ++ [quote]))) (hline : OneLine text)
    (hbegins : ∀ rest, beginsLexeme (.char quote :: rest) = true)
    (h : ∀ c : Cursor, c.options = options →
      c.rest = .char quote :: (inner.map .char ++ .char quote :: rest) →
      c.lexeme (.char quote) =
        c.closing (c.advanceBy (inner.length + 2), ⟨kind, text, c.offset, {}⟩)) :
    Lexes options pending text rest [⟨kind, text⟩] := by
  have hglyphs : Glyph.ofText text ++ rest =
      .char quote :: (inner.map .char ++ .char quote :: rest) := by
    simp [htext, Glyph.ofText]
  have hlength : text.length = inner.length + 2 := by
    simp [htext]
    omega
  have hflags : (⟨kind, text⟩ : Token.Face).flags = {} := by
    have hsemicolon : kind ≠ .semicolon := fun heq => hkind.1 (heq ▸ by decide)
    simp [Token.Face.flags, hsemicolon]
  refine of_lexeme hmixed (by simp [htext]) hline hkind.1 hkind.2 fun c hoptions hrest => ?_
  refine ⟨_, _, (c.advanceBy (inner.length + 2)).nesting, hglyphs, hbegins _, ?_⟩
  rw [hglyphs] at hrest
  rw [h c hoptions hrest, hlength, Token.Face.placed, hflags]

/-- A string that is well formed. -/
theorem string {inner value : List Char} (h : Text.Spells '"' inner value)
    (htext : text = String.ofList ('"' :: (inner ++ ['"']))) (hline : OneLine text) :
    Lexes options pending text rest [⟨.string, text⟩] := by
  refine of_quotes hmixed (by decide) htext hline (fun _ => rfl) fun c _ hrest => ?_
  have hlexeme : c.lexeme (.char '"') = c.closing (c.quoted '"') := by
    rw [lexeme, atWord, atNumber, hrest]
    rfl
  rw [hlexeme, quoted_of_spells h (by decide) hrest, htext]

/-- A literal of one character. -/
theorem char {inner : List Char} {ch : Char} (hoff : options.charAsString = false)
    (h : Text.Spells '\'' inner [ch]) (htext : text = String.ofList ('\'' :: (inner ++ ['\''])))
    (hline : OneLine text) : Lexes options pending text rest [⟨.char, text⟩] := by
  refine of_quotes hmixed (by decide) htext hline (fun _ => rfl) fun c hoptions hrest => ?_
  have hlexeme : c.lexeme (.char '\'') = c.closing c.char := by
    rw [lexeme, atWord, atNumber, hrest]
    rfl
  rw [hlexeme, char_of_spells h (hoptions ▸ hoff) hrest, htext]

/-! ### Line breaks -/

/-- A line break is read as a semicolon where one counts. -/
theorem lineBreak : Lexes options true "\n" rest [.lineBreak] := by
  refine of_hands nofun (by decide) fun c n h => ?_
  obtain ⟨later, pos, hhands, hlater⟩ := InScript.hands_spacedBreak h hmixed
  exact ⟨later, pos, hhands, fun hends => absurd (by decide) hends, hlater⟩

end Tokens

end Lexes

end TemplateScript
