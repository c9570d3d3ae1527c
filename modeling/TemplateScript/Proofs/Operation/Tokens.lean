import TemplateScript.Proofs.Operation.Grouping
import TemplateScript.Proofs.Template.Tokens

/-!
# Tokens of chains

The definition of a name as what a chain computes is read as its tokens. A cursor in a source that is
no template stands before blanks and a lexeme, or at the end, where a semicolon may be inserted.
-/

namespace TemplateScript

namespace Chain

/-- The token of an operator. -/
def opFace (kind : Token.Kind) : Token.Face := ⟨kind, ""⟩

theorem opFace_flags (kind : Token.Kind) : (opFace kind).flags = {} := by
  simp [opFace, Token.Face.flags]

/-- The tokens of operators with names behind them. -/
def facesBehind (rest : List (Operator × Template.Name)) : List Token.Face :=
  rest.flatMap fun (op, x) => [opFace op.kind, x.face]

/-- The tokens of a chain. -/
def faces (chain : Chain) : List Token.Face := chain.first.face :: facesBehind chain.rest

/-- The tokens at the end of a source behind a name. -/
def ending (options : ScanOptions) : List Token.Face :=
  if options.noAutoSemicolons then [⟨.eof, ""⟩] else [⟨.semicolon, "\n"⟩, ⟨.eof, ""⟩]

end Chain

namespace Cursor

/-- A cursor in a source that is no template, before some glyphs, that has nothing to complain of. -/
structure InScript (c : Cursor) (options : ScanOptions) (pending : Bool) (glyphs : List Glyph) :
    Prop where
  rest_eq : c.rest = glyphs
  fit : ∀ g ∈ glyphs, g.IsFit
  options_eq : c.options = options
  pending_eq : c.pending = pending
  inText_eq : c.inText = false
  errors_eq : c.errors = []
  taken_eq : c.taken = 0
  pool_eq : c.pool = []

variable {c : Cursor} {options : ScanOptions} {pending : Bool} {glyphs rest : List Glyph} {g : Glyph}
  {n : Nat} {faces : List Token.Face}

theorem InScript.advanceBy (h : c.InScript options pending glyphs) (n : Nat) :
    (c.advanceBy n).InScript options pending (glyphs.drop n) := by
  have hfit := h.fit
  rw [← h.rest_eq] at hfit
  obtain ⟨offset, lineStart, file, heq⟩ := advanceBy_fit (n := n) hfit
  rw [heq]
  exact { h with
    rest_eq := by rw [h.rest_eq], fit := fun g hg => h.fit g (List.mem_of_mem_drop hg) }

/-- The glyph is a blank, or it begins a comment or a pragma line. -/
def isGap (g : Glyph) : Bool := g.isInlineSpace || g = .char '\n' || g = .char '#'

/-- The glyphs begin with a lexeme. -/
def beginsLexeme (glyphs : List Glyph) : Bool :=
  !(glyphs.head?.any isGap || startsLineComment glyphs || Glyph.startsWith glyphs "/*")

/-- Behind spaces, a source that is no template goes on with a lexeme. -/
theorem InScript.scan_eq (h : c.InScript options pending (List.replicate n (.char ' ') ++ g :: rest))
    (hmixed : options.mixed = false) (hlexeme : beginsLexeme (g :: rest) = true) :
    (c.advanceBy n).InScript options pending (g :: rest) ∧
      c.scan = ({ ((c.advanceBy n).lexeme g).1 with pool := [] }, ((c.advanceBy n).lexeme g).2) := by
  have hahead := h.advanceBy n
  rw [List.drop_left' List.length_replicate] at hahead
  simp only [beginsLexeme, isGap, List.head?_cons, Option.any_some, Bool.not_eq_true',
    Bool.or_eq_false_iff, decide_eq_false_iff_not] at hlexeme
  obtain ⟨⟨⟨⟨hspace, hbreak⟩, hmark⟩, hline⟩, hblock⟩ := hlexeme
  have hskip : c.skipBlanks = c.advanceBy n := by
    have hspaces : ∀ g ∈ List.replicate n (Glyph.char ' '),
        (g.isInlineSpace || (g = .char '\n' && !c.pending)) = true := by
      intro g hg
      rw [List.eq_of_mem_replicate hg]
      rfl
    rw [skipBlanks, h.rest_eq, Glyph.countWhile, List.takeWhile_append_of_pos hspaces,
      List.takeWhile_cons_of_neg (by simp [hspace, hbreak]), List.append_nil, List.length_replicate]
  have hend : (c.advanceBy n).codeEnd? = none := by
    rw [codeEnd?, isDelimited, hahead.options_eq, hmixed]
    rfl
  have hpragma : (c.advanceBy n).pragmaLine? = none := by
    rw [pragmaLine?, hahead.rest_eq, pragmaHead?]
    simp [hmark]
  have hcomment : (c.advanceBy n).atComment = false := by
    rw [atComment, hahead.rest_eq, hline, hblock]
    rfl
  refine ⟨hahead, ?_⟩
  rw [Cursor.scan_eq h.pool_eq, read, h.inText_eq, if_neg Bool.false_ne_true, code_eq, hskip, hend,
    hpragma, hahead.rest_eq]
  dsimp only
  rw [hcomment, if_neg Bool.false_ne_true, if_neg hbreak]

/-- A lexeme is handed out, and the cursor stands behind it. -/
theorem InScript.hands_lexeme
    (h : c.InScript options pending (List.replicate n (.char ' ') ++ g :: rest))
    (hmixed : options.mixed = false) (hlexeme : beginsLexeme (g :: rest) = true) {size : Nat}
    {nesting : Nesting} {f : Token.Face} (hread : (c.advanceBy n).lexeme g = (c.advanceBy n).closing
      ({ (c.advanceBy n).advanceBy size with nesting }, f.placed (c.advanceBy n).offset))
    (hkind : f.kind ∉ [Token.Kind.comment, .illegal]) :
    ∃ later, c.Hands (f.placed (c.advanceBy n).offset) later ∧
      later.InScript options (f.kind.endsStatement && !options.noAutoSemicolons)
        ((g :: rest).drop size) := by
  obtain ⟨hahead, hscan⟩ := h.scan_eq hmixed hlexeme
  have hlater := hahead.advanceBy size
  simp only [List.mem_cons, List.not_mem_nil, or_false, not_or] at hkind
  rw [hread] at hscan
  refine ⟨_, ⟨hscan, hkind.1, hlater.errors_eq, hlater.taken_eq⟩, ?_⟩
  exact { hlater with
    pending_eq := by simp [closing, hkind.2, hahead.options_eq], pool_eq := rfl }

/-! ### Names and operators -/

/-- The operators of chains and the one that defines a name. -/
def spacedMarks : List Token.Kind :=
  [.define, .logicOr, .nullish, .logicAnd, .equal, .notEqual, .less, .lessEq, .greater, .greaterEq,
    .or, .xor, .and, .andNot, .shl, .shr, .add, .sub, .mul, .quo, .rem, .pow]

theorem mem_spacedMarks (op : Operator) : op.kind ∈ spacedMarks := by
  obtain ⟨kind, hbinds⟩ := op
  revert hbinds
  cases kind <;> decide

/-- What begins no blank, no comment and no closing delimiter begins a lexeme. -/
theorem beginsLexeme_other (hg : g ∉ gaps) (rest : List Glyph) :
    beginsLexeme (g :: rest) = true := by
  have hother {ch : Char} (hch : .char ch ∈ gaps) : g ≠ .char ch := by
    rintro rfl
    exact hg hch
  have hslash : g ≠ .char '/' := hother (by decide)
  have hgap : isGap g = false := by
    simp [isGap, Glyph.isInlineSpace, hother (show .char ' ' ∈ gaps by decide),
      hother (show .char '\t' ∈ gaps by decide), hother (show .char '\r' ∈ gaps by decide),
      hother (show .char '\n' ∈ gaps by decide), hother (show .char '#' ∈ gaps by decide)]
  unfold beginsLexeme startsLineComment
  rw [Glyph.startsWith_other (show "#".toList = ['#'] from rfl) (hother (by decide)),
    Glyph.startsWith_other (show "//".toList = ['/', '/'] from rfl) hslash,
    Glyph.startsWith_other (show "/*".toList = ['/', '*'] from rfl) hslash, List.head?_cons,
    Option.any_some, hgap]
  rfl

theorem beginsLexeme_letter (hletter : g.isLetter = true) (rest : List Glyph) :
    beginsLexeme (g :: rest) = true := by
  have hno : ∀ g ∈ gaps, g.isLetter = false := by decide
  refine beginsLexeme_other (fun hg => ?_) rest
  rw [hno g hg] at hletter
  cases hletter

/-- A word is handed out, and the cursor stands where it ends. -/
theorem InScript.hands_word {text : String} (hword : isWord text = true)
    (h : c.InScript options pending
      (List.replicate n (.char ' ') ++ (Glyph.ofText text ++ rest)))
    (hmixed : options.mixed = false) (hend : ∀ g ∈ rest.head?, (g.isLetter || g.isDigit) = false)
    (hkind : Token.Kind.ofWord text ∉ [Token.Kind.comment, .illegal]) :
    ∃ later, c.Hands ((⟨.ofWord text, text⟩ : Token.Face).placed (c.advanceBy n).offset) later ∧
      later.InScript options ((Token.Kind.ofWord text).endsStatement && !options.noAutoSemicolons)
        rest := by
  have hhead := (Bool.and_eq_true_iff.1 hword).1
  cases hchars : text.toList with
  | nil => simp [hchars] at hhead
  | cons ch chars =>
    have hletter : (Glyph.char ch).isLetter = true := by simpa [hchars] using hhead
    have htext : Glyph.ofText text ++ rest = .char ch :: (chars.map .char ++ rest) := by
      rw [Glyph.ofText, hchars, List.map_cons, List.cons_append]
    have hlexeme := beginsLexeme_letter hletter (chars.map .char ++ rest)
    have hrest : (c.advanceBy n).rest = Glyph.ofText text ++ rest := by
      rw [advanceBy_rest, h.rest_eq, List.drop_left' List.length_replicate]
    have hread := lexeme_word hword hrest hend (.char ch)
    rw [htext] at h
    obtain ⟨later, hhands, hlater⟩ :=
      h.hands_lexeme (f := ⟨.ofWord text, text⟩) hmixed hlexeme hread hkind
    rw [← htext, List.drop_left] at hlater
    exact ⟨later, hhands, hlater⟩

/-- A name is handed out, and the cursor stands where it ends. -/
theorem InScript.hands_name (x : Template.Name)
    (h : c.InScript options pending
      (List.replicate n (.char ' ') ++ (Glyph.ofText x.text ++ rest)))
    (hmixed : options.mixed = false)
    (hend : ∀ g ∈ rest.head?, (g.isLetter || g.isDigit) = false) :
    ∃ later, c.Hands (x.face.placed (c.advanceBy n).offset) later ∧
      later.InScript options (!options.noAutoSemicolons) rest := by
  have hword := h.hands_word x.isWord hmixed hend (by rw [x.isIdent]; decide)
  rw [x.isIdent] at hword
  exact hword

theorem InScript.gives_name (x : Template.Name)
    (h : c.InScript options pending
      (List.replicate n (.char ' ') ++ (Glyph.ofText x.text ++ rest)))
    (hmixed : options.mixed = false)
    (hend : ∀ g ∈ rest.head?, (g.isLetter || g.isDigit) = false)
    (hnext : ∀ later : Cursor, later.InScript options (!options.noAutoSemicolons) rest →
      later.Gives faces) :
    c.Gives (x.face :: faces) :=
  have ⟨later, hhands, hlater⟩ := h.hands_name x hmixed hend
  .cons hhands (hnext later hlater)

/-- A mark is one lexeme, but what begins a literal is none. -/
theorem lexeme_mark {kind : Token.Kind} (hword : c.rest.head?.any Glyph.isLetter = false)
    (hnumber : c.atNumber = false) (hg : g ∉ [.char '"', .char '\'', fenceGlyph])
    (hmark : mark? c.rest = some kind) (hsemicolon : kind ≠ .semicolon) :
    c.lexeme g = c.closing
      ({ c.advanceBy kind.spelling.length with
        nesting := (c.advanceBy kind.spelling.length).nesting.after kind },
        (Chain.opFace kind).placed c.offset) := by
  simp only [List.mem_cons, List.not_mem_nil, or_false, not_or] at hg
  have hread : c.mark kind =
      ({ c.advanceBy kind.spelling.length with
        nesting := (c.advanceBy kind.spelling.length).nesting.after kind },
        (Chain.opFace kind).placed c.offset) := by
    rw [mark, if_neg hsemicolon, Token.Face.placed, Chain.opFace_flags]
    rfl
  rw [lexeme, atWord, hword, hnumber, if_neg Bool.false_ne_true, if_neg Bool.false_ne_true,
    if_neg hg.1, if_neg hg.2.1, if_neg hg.2.2, hmark]
  dsimp only
  rw [hread]

/-- A mark with a space behind it is one lexeme. -/
theorem lexeme_spacedMark {kind : Token.Kind} (hkind : kind ∈ spacedMarks)
    (hrest : c.rest = Glyph.ofText kind.spelling ++ .char ' ' :: rest) :
    ∃ g more, Glyph.ofText kind.spelling ++ .char ' ' :: rest = g :: more ∧
      beginsLexeme (g :: more) = true ∧
      c.lexeme g = c.closing
        ({ c.advanceBy kind.spelling.length with
          nesting := (c.advanceBy kind.spelling.length).nesting.after kind },
          (Chain.opFace kind).placed c.offset) := by
  have hmark := @lexeme_mark c
  rw [atNumber, hrest] at hmark
  simp only [spacedMarks, List.mem_cons, List.not_mem_nil, or_false] at hkind
  rcases hkind with rfl | rfl | rfl | rfl | rfl | rfl | rfl | rfl | rfl | rfl | rfl | rfl | rfl |
      rfl | rfl | rfl | rfl | rfl | rfl | rfl | rfl | rfl <;>
    exact ⟨_, _, rfl, rfl, hmark rfl rfl (by decide) rfl (by decide)⟩

/-- An operator is handed out, and the cursor stands before the space behind it. -/
theorem InScript.hands_mark {kind : Token.Kind} (hkind : kind ∈ spacedMarks)
    (h : c.InScript options pending
      (.char ' ' :: (Glyph.ofText kind.spelling ++ .char ' ' :: rest)))
    (hmixed : options.mixed = false) :
    ∃ later, c.Hands ((Chain.opFace kind).placed (c.advanceBy 1).offset) later ∧
      later.InScript options false (.char ' ' :: rest) := by
  have hrest : (c.advanceBy 1).rest = Glyph.ofText kind.spelling ++ .char ' ' :: rest := by
    rw [advanceBy_rest, h.rest_eq]
    rfl
  obtain ⟨g, more, hglyphs, hlexeme, hread⟩ := lexeme_spacedMark hkind hrest
  have hopen : kind ∉ [Token.Kind.comment, .illegal] ∧ kind.endsStatement = false := by
    revert hkind
    generalize kind = kind
    revert kind
    decide
  have hlength : kind.spelling.length = (Glyph.ofText kind.spelling).length := by
    rw [Glyph.ofText, List.length_map, String.length_toList]
  rw [hglyphs] at h
  obtain ⟨later, hhands, hlater⟩ :=
    InScript.hands_lexeme (n := 1) (f := Chain.opFace kind) h hmixed hlexeme hread hopen.1
  rw [Chain.opFace, hopen.2, Bool.false_and, ← hglyphs, hlength, List.drop_left] at hlater
  exact ⟨later, hhands, hlater⟩

theorem InScript.gives_mark {kind : Token.Kind} (hkind : kind ∈ spacedMarks)
    (h : c.InScript options pending
      (.char ' ' :: (Glyph.ofText kind.spelling ++ .char ' ' :: rest)))
    (hmixed : options.mixed = false)
    (hnext : ∀ later : Cursor, later.InScript options false (.char ' ' :: rest) →
      later.Gives faces) :
    c.Gives (Chain.opFace kind :: faces) :=
  have ⟨later, hhands, hlater⟩ := h.hands_mark hkind hmixed
  .cons hhands (hnext later hlater)

/-- At the end of the file, a semicolon is inserted if one is pending. -/
theorem InScript.scan_end (h : c.InScript options pending []) (hmixed : options.mixed = false) :
    c.scan = if pending then ({ c with pending := false, pool := [] }, c.insertedSemicolon)
      else ({ c with pool := [] }, c.endOfFile) := by
  have hskip : c.skipBlanks = c := by
    rw [skipBlanks, h.rest_eq]
    rfl
  have hend : c.codeEnd? = none := by
    rw [codeEnd?, isDelimited, h.options_eq, hmixed]
    rfl
  have hpragma : c.pragmaLine? = none := by
    rw [pragmaLine?, h.rest_eq, pragmaHead?, ite_self]
  have hread : c.read = c.code := by rw [read, h.inText_eq, if_neg Bool.false_ne_true]
  rw [Cursor.scan_eq h.pool_eq, hread, code_eq, hskip, hend, hpragma]
  obtain ⟨file, _, rest, offset, lineStart, waits⟩ := c
  obtain rfl : rest = [] := h.rest_eq
  obtain rfl : waits = pending := h.pending_eq
  cases waits <;> rfl

/-- The end of the file is handed out, if no semicolon is pending. -/
theorem InScript.hands_end (h : c.InScript options false []) (hmixed : options.mixed = false) :
    c.Hands c.endOfFile { c with pool := [] } :=
  ⟨h.scan_end hmixed, nofun, h.errors_eq, h.taken_eq⟩

/-- Before that, a semicolon that is pending is handed out. -/
theorem InScript.hands_semicolon (h : c.InScript options true []) (hmixed : options.mixed = false) :
    c.Hands ((⟨.semicolon, "\n"⟩ : Token.Face).placed c.offset)
      { c with pending := false, pool := [] } :=
  ⟨h.scan_end hmixed, nofun, h.errors_eq, h.taken_eq⟩

theorem InScript.gives_end (h : c.InScript options (!options.noAutoSemicolons) [])
    (hmixed : options.mixed = false) : c.Gives (Chain.ending options) := by
  have hfile {c : Cursor} (h : c.InScript options false []) : c.Gives [⟨.eof, ""⟩] :=
    have hhands : c.Hands ((⟨.eof, ""⟩ : Token.Face).placed c.offset) { c with pool := [] } :=
      h.hands_end hmixed
    .cons hhands (.nil _)
  unfold Chain.ending
  cases hauto : options.noAutoSemicolons with
  | true =>
    rw [hauto] at h
    exact hfile h
  | false =>
    rw [hauto] at h
    exact .cons (h.hands_semicolon hmixed) (hfile { h with pending_eq := rfl, pool_eq := rfl })

end Cursor

namespace Chain

variable {c : Cursor} {options : ScanOptions} {pending : Bool}

theorem glyphs_behind (op : Operator) (x : Template.Name) (rest : List (Operator × Template.Name)) :
    Glyph.ofText (sourceBehind ((op, x) :: rest)) =
      .char ' ' :: (Glyph.ofText op.kind.spelling ++ .char ' ' ::
        (Glyph.ofText x.text ++ Glyph.ofText (sourceBehind rest))) := by
  simp [sourceBehind, Glyph.ofText]

theorem glyphs_definition (v : Template.Name) (chain : Chain) :
    Glyph.ofText (chain.definition v) =
      Glyph.ofText v.text ++ .char ' ' :: (Glyph.ofText ":=" ++ .char ' ' ::
        (Glyph.ofText chain.first.text ++ Glyph.ofText (sourceBehind chain.rest))) := by
  simp [definition, Glyph.ofText]

/-- A name before operators ends where they begin. -/
theorem ends_behind (rest : List (Operator × Template.Name)) :
    ∀ g ∈ (Glyph.ofText (sourceBehind rest)).head?, (g.isLetter || g.isDigit) = false := by
  cases rest with
  | nil => nofun
  | cons step rest =>
    rw [glyphs_behind]
    rintro g ⟨⟩
    decide

/-- Operators with names behind them are read as their tokens. -/
theorem gives_behind (hmixed : options.mixed = false) (rest : List (Operator × Template.Name))
    (h : c.InScript options (!options.noAutoSemicolons) (Glyph.ofText (sourceBehind rest))) :
    c.Gives (facesBehind rest ++ ending options) := by
  induction rest generalizing c with
  | nil => exact h.gives_end hmixed
  | cons step rest ih =>
    obtain ⟨op, x⟩ := step
    rw [glyphs_behind] at h
    refine h.gives_mark (Cursor.mem_spacedMarks op) hmixed fun later hop => ?_
    exact Cursor.InScript.gives_name (n := 1) x hop hmixed (ends_behind rest) fun later hx => ih hx

/-- The definition of a name as what a chain computes is read as its tokens. -/
theorem gives_definition (hmixed : options.mixed = false) (v : Template.Name) (chain : Chain)
    (h : c.InScript options pending (Glyph.ofText (chain.definition v))) :
    c.Gives (v.face :: opFace .define :: (chain.faces ++ ending options)) := by
  have hspace : ∀ g ∈ [Glyph.char ' '].head?, (g.isLetter || g.isDigit) = false := by
    rintro g ⟨⟩
    decide
  rw [glyphs_definition] at h
  refine Cursor.InScript.gives_name (n := 0) v h hmixed hspace fun later hv => ?_
  have hdefine : Token.Kind.define ∈ Cursor.spacedMarks := by decide
  refine Cursor.InScript.gives_mark hdefine hv hmixed fun later hop => ?_
  exact Cursor.InScript.gives_name (n := 1) chain.first hop hmixed (ends_behind chain.rest)
    fun later hfirst => gives_behind hmixed chain.rest hfirst

end Chain

end TemplateScript
