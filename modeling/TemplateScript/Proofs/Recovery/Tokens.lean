import TemplateScript.Proofs.Cursor.Integer
import TemplateScript.Proofs.Cursor.Sound

/-!
# Lines without an operand

A definition has no value if a closing bracket stands where that should begin. Here are such lines,
with pieces behind the bracket that are no statements, and the tokens that they are read as. What
stands between braces on such a line counts as one piece.
-/

namespace TemplateScript

/-- A bracket with which no operand begins. -/
inductive Closer where
  | paren
  | brack
deriving DecidableEq, Repr

namespace Closer

def kind : Closer → Token.Kind
  | .paren => .rparen
  | .brack => .rbrack

def text (closer : Closer) : String := closer.kind.spelling

end Closer

/-- A piece of a line that cannot be read. -/
inductive Scrap where
  | closer (c : Closer)
  | name (x : Template.Name)
  | int (n : Numeral)
  /-- Pieces between braces. -/
  | braces (inner : List Scrap)

namespace Scrap

mutual

/-- The text of a piece. -/
def text : Scrap → String
  | .closer c => c.text
  | .name x => x.text
  | .int n => n.text
  | .braces inner => "\x7b" ++ texts inner ++ " \x7d"

/-- The text of pieces, with a space before each. -/
def texts : List Scrap → String
  | [] => ""
  | s :: rest => " " ++ s.text ++ texts rest

end

mutual

/-- The tokens of a piece. -/
def faces : Scrap → List Token.Face
  | .closer c => [Chain.opFace c.kind]
  | .name x => [x.face]
  | .int n => [⟨.int, n.text⟩]
  | .braces inner => Chain.opFace .lbrace :: (allFaces inner ++ [Chain.opFace .rbrace])

/-- The tokens of pieces, in order. -/
def allFaces : List Scrap → List Token.Face
  | [] => []
  | s :: rest => s.faces ++ allFaces rest

end

/-- The first token of a piece. -/
def head : Scrap → Token.Face
  | .closer c => Chain.opFace c.kind
  | .name x => x.face
  | .int n => ⟨.int, n.text⟩
  | .braces _ => Chain.opFace .lbrace

end Scrap

/-- The definition of a name, with a closing bracket where its value should begin, and with pieces
behind that. -/
structure BrokenLine where
  target : Template.Name
  first : Closer
  rest : List Scrap

/-- The text of the line. -/
def BrokenLine.text (line : BrokenLine) : String :=
  line.target.text ++ " := " ++ line.first.text ++ Scrap.texts line.rest

/-! ### One line -/

/-- The text has no line breaks, and no byte order mark. -/
def OneLine (text : String) : Prop := ∀ ch ∈ text.toList, ch ≠ '\n' ∧ ch ≠ Cursor.byteOrderMark

instance (text : String) : Decidable (OneLine text) :=
  List.decidableBAll (fun ch => ch ≠ '\n' ∧ ch ≠ Cursor.byteOrderMark) text.toList

theorem OneLine.append {a b : String} (ha : OneLine a) (hb : OneLine b) : OneLine (a ++ b) := by
  unfold OneLine
  rw [String.toList_append]
  exact List.forall_mem_append.2 ⟨ha, hb⟩

theorem OneLine.isFit {text : String} (h : OneLine text) : ∀ g ∈ Glyph.ofText text, g.IsFit := by
  intro g hg
  obtain ⟨ch, hch, rfl⟩ := List.mem_map.1 hg
  exact ⟨ch, rfl, (h ch hch).2⟩

theorem Closer.oneLine : ∀ closer : Closer, OneLine closer.text
  | .paren => show OneLine ")" by decide
  | .brack => show OneLine "]" by decide

theorem OneLine.of_isWord {text : String} (h : Cursor.isWord text = true) : OneLine text := by
  have hletters := List.all_eq_true.1 (Bool.and_eq_true_iff.1 h).2
  refine fun ch hch => ⟨?_, ?_⟩
  · rintro rfl
    exact absurd (hletters _ hch) (by decide)
  · rintro rfl
    exact absurd (hletters _ hch) (by decide +kernel)

theorem Template.Name.oneLine (x : Template.Name) : OneLine x.text := .of_isWord x.isWord

/-- What is neither a digit nor the mark of a radix is not in an integer. -/
theorem Numeral.not_mem (n : Numeral) {ch : Char} (hmarks : ch ≠ '0' ∧ ch ≠ '_')
    (hradix : Number.radix? ch = none) (hdigit : ∀ radix, Text.isDigit radix ch = false) :
    ch ∉ n.text.toList := by
  intro hch
  have hwritten := (Bool.and_eq_true_iff.1 n.isWritten).2
  have hno (radix : Nat) : (ch = '_' || Text.isDigit radix ch) = false := by
    rw [decide_eq_false hmarks.2, hdigit radix, Bool.or_self]
  split at hwritten
  · next radix hmark =>
    have hall := List.all_eq_true.1 (Bool.and_eq_true_iff.1 hwritten).1
    unfold Number.radixMark? at hmark
    split at hmark
    · next mark digits heq =>
      unfold Glyph.ofText at heq
      obtain ⟨_, more, hchars, hzero, heq⟩ := List.map_eq_cons_iff.1 heq
      obtain ⟨_, digits, hmore, hsecond, -⟩ := List.map_eq_cons_iff.1 heq
      cases hzero
      cases hsecond
      rw [hchars, hmore] at hch hall
      rcases List.mem_cons.1 hch with rfl | hch
      · exact hmarks.1 rfl
      rcases List.mem_cons.1 hch with rfl | hch
      · cases hradix.symm.trans hmark
      · exact absurd (hall ch hch) (Bool.eq_false_iff.1 (hno radix))
    · cases hmark
  · exact absurd (List.all_eq_true.1 hwritten ch hch) (Bool.eq_false_iff.1 (hno 10))

theorem Numeral.oneLine (n : Numeral) : OneLine n.text := by
  refine fun ch hch => ⟨?_, ?_⟩
  · rintro rfl
    exact n.not_mem (by decide) rfl (fun _ => rfl) hch
  · rintro rfl
    exact n.not_mem (by decide) rfl (fun _ => rfl) hch

namespace Scrap

mutual

theorem oneLine : ∀ s : Scrap, OneLine s.text
  | .closer bracket => bracket.oneLine
  | .name x => x.oneLine
  | .int m => m.oneLine
  | .braces inner =>
    ((show OneLine "\x7b" by decide).append (oneLine_texts inner)).append (by decide)

theorem oneLine_texts : ∀ scraps : List Scrap, OneLine (texts scraps)
  | [] => nofun
  | s :: rest => ((show OneLine " " by decide).append (oneLine s)).append (oneLine_texts rest)

end

end Scrap

theorem BrokenLine.oneLine (line : BrokenLine) : OneLine line.text :=
  ((line.target.oneLine.append (by decide)).append line.first.oneLine).append
    (Scrap.oneLine_texts line.rest)

namespace Cursor

/-- The cursor hands out some tokens on the way to a later one. -/
inductive Leads : Cursor → List Token.Face → Cursor → Prop
  | nil (c : Cursor) : Leads c [] c
  | cons {c mid later : Cursor} {f : Token.Face} {pos : Pos} {faces : List Token.Face}
    (h : c.Hands (f.placed pos) mid) (hrest : mid.Leads faces later) : Leads c (f :: faces) later

variable {c mid later : Cursor} {options : ScanOptions} {pending : Bool} {rest : List Glyph}
  {n : Nat}

theorem Hands.leads {f : Token.Face} {pos : Pos} (h : c.Hands (f.placed pos) later) :
    c.Leads [f] later :=
  .cons h (.nil later)

theorem Leads.trans {faces more : List Token.Face} (h : c.Leads faces mid)
    (hmore : mid.Leads more later) : c.Leads (faces ++ more) later := by
  induction h with
  | nil => exact hmore
  | cons hhands _ ih => exact .cons hhands (ih hmore)

/-! ### Brackets -/

/-- The marks that are brackets, and close one or stand before an operand. -/
def brackets : List Token.Kind := [.rparen, .rbrack, .lbrace, .rbrace]

/-- A bracket is handed out, whatever stands behind it. -/
theorem InScript.hands_bracket {kind : Token.Kind} (hkind : kind ∈ brackets)
    (h : c.InScript options pending
      (List.replicate n (.char ' ') ++ (Glyph.ofText kind.spelling ++ rest)))
    (hmixed : options.mixed = false) :
    ∃ later, c.Hands ((Chain.opFace kind).placed (c.advanceBy n).offset) later ∧
      later.InScript options (kind.endsStatement && !options.noAutoSemicolons) rest := by
  have hrest : (c.advanceBy n).rest = Glyph.ofText kind.spelling ++ rest := by
    rw [advanceBy_rest, h.rest_eq, List.drop_left' List.length_replicate]
  have hmark := @lexeme_mark (c.advanceBy n)
  rw [atNumber, hrest] at hmark
  simp only [brackets, List.mem_cons, List.not_mem_nil, or_false] at hkind
  rcases hkind with rfl | rfl | rfl | rfl
  · exact h.hands_lexeme (f := Chain.opFace .rparen) hmixed rfl
      (hmark rfl rfl (by decide) rfl (by decide)) (by decide)
  · exact h.hands_lexeme (f := Chain.opFace .rbrack) hmixed rfl
      (hmark rfl rfl (by decide) rfl (by decide)) (by decide)
  · exact h.hands_lexeme (f := Chain.opFace .lbrace) hmixed rfl
      (hmark rfl rfl (by decide) rfl (by decide)) (by decide)
  · exact h.hands_lexeme (f := Chain.opFace .rbrace) hmixed rfl
      (hmark rfl rfl (by decide) rfl (by decide)) (by decide)

/-- The name that a line defines is handed out, and then the operator. -/
theorem InScript.hands_target (x : Template.Name)
    (h : c.InScript options pending (Glyph.ofText x.text ++ .char ' ' ::
      (Glyph.ofText Token.Kind.define.spelling ++ .char ' ' :: rest)))
    (hmixed : options.mixed = false) :
    ∃ named defined opPos, c.Hands (x.face.placed c.offset) named ∧
      named.Hands ((Chain.opFace .define).placed opPos) defined ∧
      defined.InScript options false (.char ' ' :: rest) := by
  have hspace : EndsWord (.char ' ' :: (Glyph.ofText Token.Kind.define.spelling ++
      .char ' ' :: rest)) := by
    rintro g ⟨⟩
    exact .inl rfl
  obtain ⟨named, htarget, hnamed⟩ := InScript.hands_name (n := 0) x h hmixed hspace.isLetter_eq
  obtain ⟨defined, hdefine, hdefined⟩ := hnamed.hands_mark (by decide) hmixed
  exact ⟨named, defined, _, htarget, hdefine, hdefined⟩

/-- Before a line break or at the end of the file, a semicolon is inserted if one is pending. -/
theorem InScript.hands_break (h : c.InScript options true rest) (hmixed : options.mixed = false)
    (hrest : ∀ g ∈ rest.head?, g = .char '\n') :
    ∃ later pos, c.Hands ((⟨.semicolon, "\n"⟩ : Token.Face).placed pos) later ∧
      later.InScript options false rest.tail := by
  cases rest with
  | nil =>
    exact ⟨_, _, h.hands_semicolon hmixed, { h with pending_eq := rfl, pool_eq := rfl }⟩
  | cons g more =>
    obtain rfl := hrest g rfl
    have hskip : c.skipBlanks = c := by
      rw [skipBlanks, h.rest_eq, h.pending_eq]
      rfl
    have hend : c.codeEnd? = none := by
      rw [codeEnd?, isDelimited, h.options_eq, hmixed]
      rfl
    have hpragma : c.pragmaLine? = none := by
      rw [pragmaLine?, h.rest_eq, pragmaHead?]
      simp
    have hcomment : c.atComment = false := by
      rw [atComment, h.rest_eq]
      rfl
    have hscan : c.scan =
        ({ c.advance with pending := false, pool := [] }, c.insertedSemicolon) := by
      rw [Cursor.scan_eq h.pool_eq, read, h.inText_eq, if_neg Bool.false_ne_true, code_eq, hskip,
        hend, hpragma, h.rest_eq]
      dsimp only
      rw [hcomment, if_neg Bool.false_ne_true, if_pos rfl]
    have hlater := h.advanceBy 1
    exact ⟨_, c.offset, ⟨hscan, by rintro ⟨⟩, hlater.errors_eq, hlater.taken_eq⟩,
      { hlater with pending_eq := rfl, pool_eq := rfl }⟩

end Cursor

namespace Scrap

open Cursor

variable {options : ScanOptions} {rest : List Glyph}

theorem endsWord_texts (hrest : EndsWord rest) :
    ∀ scraps : List Scrap, EndsWord (Glyph.ofText (texts scraps) ++ rest)
  | [] => hrest
  | s :: more => by
    rw [texts, Glyph.ofText_append, Glyph.ofText_append]
    rintro g ⟨⟩
    exact .inl rfl

mutual

/-- A piece is read as its tokens. -/
theorem leads (hmixed : options.mixed = false) :
    ∀ {c : Cursor} {pending : Bool} {rest : List Glyph} (s : Scrap), EndsWord rest →
      c.InScript options pending (.char ' ' :: (Glyph.ofText s.text ++ rest)) →
      ∃ later, c.Leads s.faces later ∧ later.InScript options (!options.noAutoSemicolons) rest
  | _, _, _, .closer bracket, _, h => by
    have hkind : bracket.kind ∈ brackets ∧ bracket.kind.endsStatement = true := by
      cases bracket <;> decide
    obtain ⟨later, hhands, hlater⟩ := InScript.hands_bracket (n := 1) hkind.1 h hmixed
    rw [hkind.2, Bool.true_and] at hlater
    exact ⟨later, hhands.leads, hlater⟩
  | _, _, _, .name x, hrest, h =>
    have ⟨later, hhands, hlater⟩ := InScript.hands_name (n := 1) x h hmixed hrest.isLetter_eq
    ⟨later, hhands.leads, hlater⟩
  | _, _, _, .int m, hrest, h =>
    have ⟨later, hhands, hlater⟩ := InScript.hands_numeral (n := 1) m h hmixed hrest.endsNumber
    ⟨later, hhands.leads, hlater⟩
  | _, _, rest, .braces inner, hrest, h => by
    have htext : Glyph.ofText (Scrap.braces inner).text ++ rest =
        Glyph.ofText Token.Kind.lbrace.spelling ++ (Glyph.ofText (texts inner) ++
          .char ' ' :: (Glyph.ofText Token.Kind.rbrace.spelling ++ rest)) := by
      simp [text, Glyph.ofText]
      rfl
    rw [htext] at h
    have hlbrace : Token.Kind.lbrace ∈ brackets := by decide
    have hrbrace : Token.Kind.rbrace ∈ brackets := by decide
    obtain ⟨opened, hopens, hopened⟩ := InScript.hands_bracket (n := 1) hlbrace h hmixed
    have hspace : EndsWord (.char ' ' :: (Glyph.ofText Token.Kind.rbrace.spelling ++ rest)) := by
      rintro g ⟨⟩
      exact .inl rfl
    obtain ⟨within, _, hinner, hwithin, -⟩ := leadsAll hmixed inner hspace hopened
    obtain ⟨closed, hcloses, hclosed⟩ := InScript.hands_bracket (n := 1) hrbrace hwithin hmixed
    exact ⟨closed, .cons hopens (hinner.trans hcloses.leads), hclosed⟩

/-- Pieces are read as their tokens. A semicolon may be inserted behind them, if one might before. -/
theorem leadsAll (hmixed : options.mixed = false) :
    ∀ {c : Cursor} {pending : Bool} {rest : List Glyph} (scraps : List Scrap), EndsWord rest →
      c.InScript options pending (Glyph.ofText (texts scraps) ++ rest) →
      ∃ later waits, c.Leads (allFaces scraps) later ∧ later.InScript options waits rest ∧
        (pending = !options.noAutoSemicolons → waits = !options.noAutoSemicolons)
  | c, pending, _, [], _, h => ⟨c, pending, .nil c, h, id⟩
  | _, _, rest, s :: more, hrest, h => by
    have htext : Glyph.ofText (texts (s :: more)) ++ rest =
        .char ' ' :: (Glyph.ofText s.text ++ (Glyph.ofText (texts more) ++ rest)) := by
      simp [texts, Glyph.ofText]
    rw [htext] at h
    obtain ⟨mid, hfirst, hmid⟩ := leads hmixed s (endsWord_texts hrest more) h
    obtain ⟨later, waits, hmore, hlater, hwaits⟩ := leadsAll hmixed more hrest hmid
    exact ⟨later, waits, hfirst.trans hmore, hlater, fun _ => hwaits rfl⟩

end

end Scrap

namespace Cursor

variable {source rest : List Glyph} {c later : Cursor}

/-- A cursor in a script that stands in its source has nothing else to hand out. -/
theorem InScript.sound {options : ScanOptions} {pending : Bool} {glyphs : List Glyph}
    (h : c.InScript options pending glyphs) (hin : c.InSource source) : c.Sound source := by
  have hpool {P : Token → Prop} : ∀ t ∈ c.pool, P t := by
    rw [h.pool_eq]
    exact List.forall_mem_nil _
  refine ⟨hin, hpool, hpool, ?_, fun _ g hg => ?_⟩
  · rw [h.errors_eq]
    exact List.forall_mem_nil _
  · rw [h.rest_eq] at hg
    exact (h.fit g hg).imp fun _ hch => hch.1

theorem Hands.unique {later' : Cursor} {t t' : Token} (h : c.Hands t later)
    (h' : c.Hands t' later') : t = t' ∧ later = later' :=
  (Prod.mk.inj (h.scan_eq.symm.trans h'.scan_eq)).symm

theorem Hands.sound {t : Token} (h : c.Hands t later) (hc : c.Sound source) :
    later.Sound source :=
  have hlater : c.scan.1 = later := congrArg Prod.fst h.scan_eq
  hlater ▸ hc.scan

theorem Hands.pos_le {t : Token} (h : c.Hands t later) (hc : c.Sound source) :
    t.pos ≤ later.offset := by
  have hplaced := (scan_placed hc.placed).1
  rw [h.scan_eq] at hplaced
  exact hplaced

theorem Hands.reaches {t : Token} (h : c.Hands t later) : c.Reaches later :=
  have hlater : c.scan.1 = later := congrArg Prod.fst h.scan_eq
  hlater ▸ c.reaches_scan

theorem Leads.reaches {faces : List Token.Face} (h : c.Leads faces later) : c.Reaches later := by
  induction h with
  | nil c => exact .refl c
  | cons hhands _ ih => exact hhands.reaches.trans ih

theorem Leads.sound {faces : List Token.Face} (h : c.Leads faces later) (hc : c.Sound source) :
    later.Sound source := by
  induction h with
  | nil => exact hc
  | cons hhands _ ih => exact ih (hhands.sound hc)

/-- What is left begins where the cursor stands. -/
theorem InSource.offset_add (h : c.InSource source) :
    c.offset + Glyph.widths c.rest = Glyph.widths source := by
  obtain ⟨read, hsource, hoffset, -⟩ := h
  rw [hoffset, hsource, Glyph.widths_append]

end Cursor

namespace BrokenLine

open Cursor

variable {line : BrokenLine} {c : Cursor} {options : ScanOptions} {pending : Bool}
  {rest source : List Glyph}

/-- The tokens behind the bracket where the value should begin, up to the semicolon that the end of
the line stands for. -/
def skipped (line : BrokenLine) : List Token.Face := Scrap.allFaces line.rest

/-- What is left of the source where the value should begin. -/
def remains (line : BrokenLine) (rest : List Glyph) : List Glyph :=
  Glyph.ofText (line.first.text ++ Scrap.texts line.rest) ++ rest

/-- The way of a cursor over a line that cannot be read, from token to token. -/
structure Walk (line : BrokenLine) (c : Cursor) where
  named : Cursor
  namePos : Pos
  target : c.Hands (line.target.face.placed namePos) named
  defined : Cursor
  opPos : Pos
  define : named.Hands ((Chain.opFace .define).placed opPos) defined
  missed : Cursor
  pos : Pos
  missing : defined.Hands ((Chain.opFace line.first.kind).placed pos) missed
  ended : Cursor
  skips : missed.Leads line.skipped ended
  endPos : Pos
  behind : Cursor
  semicolon : ended.Hands ((⟨.semicolon, "\n"⟩ : Token.Face).placed endPos) behind

theorem glyphs_text (line : BrokenLine) (rest : List Glyph) :
    Glyph.ofText line.text ++ rest =
      Glyph.ofText line.target.text ++ .char ' ' :: (Glyph.ofText Token.Kind.define.spelling ++
        .char ' ' :: line.remains rest) := by
  simp [text, remains, Glyph.ofText]
  rfl

/-- Over a line that cannot be read, the cursor comes to where the next line begins. -/
theorem exists_walk (hmixed : options.mixed = false) (hauto : options.noAutoSemicolons = false)
    (h : c.InScript options pending (Glyph.ofText line.text ++ rest)) (hc : c.Sound source)
    (hrest : ∀ g ∈ rest.head?, g = .char '\n') :
    ∃ walk : line.Walk c, walk.namePos = c.offset ∧
      walk.pos + Glyph.widths (line.remains rest) = Glyph.widths source ∧
      walk.behind.InScript options false rest.tail := by
  have hkind : line.first.kind ∈ brackets ∧ line.first.kind.endsStatement = true := by
    cases line.first <;> decide
  rw [glyphs_text] at h
  obtain ⟨named, defined, opPos, htarget, hdefine, hdefined⟩ := h.hands_target line.target hmixed
  have hahead := hdefined.advanceBy 1
  rw [remains, Glyph.ofText_append, List.append_assoc] at hdefined
  obtain ⟨missed, hmissing, hmissed⟩ :=
    InScript.hands_bracket (n := 1) hkind.1 hdefined hmixed
  have hends : EndsWord rest := fun g hg => .inr (hrest g hg)
  obtain ⟨ended, waits, hskips, hended, hwaits⟩ := Scrap.leadsAll hmixed line.rest hends hmissed
  obtain rfl : waits = true := by simpa [hkind.2, hauto] using hwaits
  obtain ⟨behind, endPos, hsemicolon, hbehind⟩ := hended.hands_break hmixed hrest
  have hplace := ((hdefine.sound (htarget.sound hc)).inSource.reaches
    (defined.reaches_advanceBy 1)).offset_add
  rw [hahead.rest_eq] at hplace
  exact ⟨⟨named, _, htarget, defined, _, hdefine, missed, _, hmissing, ended, hskips, endPos, behind,
    hsemicolon⟩, rfl, hplace, hbehind⟩

theorem Walk.sound_missed (walk : line.Walk c) (hc : c.Sound source) :
    walk.pos ≤ walk.missed.offset ∧ walk.missed.Sound source :=
  have hdefined := walk.define.sound (walk.target.sound hc)
  ⟨walk.missing.pos_le hdefined, walk.missing.sound hdefined⟩

theorem Walk.sound_behind (walk : line.Walk c) (hc : c.Sound source) :
    walk.endPos ≤ walk.behind.offset ∧ walk.behind.Sound source :=
  have hended := walk.skips.sound (walk.sound_missed hc).2
  ⟨walk.semicolon.pos_le hended, walk.semicolon.sound hended⟩

theorem Walk.reaches_missed (walk : line.Walk c) : c.Reaches walk.missed :=
  walk.target.reaches.trans (walk.define.reaches.trans walk.missing.reaches)

theorem Walk.reaches_behind (walk : line.Walk c) : walk.missed.Reaches walk.behind :=
  walk.skips.reaches.trans walk.semicolon.reaches

/-- All that is behind the line is behind its first token. -/
theorem Walk.length_le (walk : line.Walk c) :
    walk.behind.rest.length ≤ walk.named.rest.length := by
  obtain ⟨read, hread⟩ :=
    walk.define.reaches.trans (walk.missing.reaches.trans walk.reaches_behind)
  rw [hread.rest_eq, List.length_append]
  exact Nat.le_add_left ..

end BrokenLine

end TemplateScript
