import TemplateScript.Proofs.Recovery.FirstLine

/-!
# Lines with stray pieces

The definition of a name as another is at its end where a piece stands behind it that no expression
goes on with, and a semicolon is missing there. Here is how such lines are skipped, and how
definitions behind them are read.
-/

namespace TemplateScript

open Parse

/-- The definition of a name as another, with pieces behind it. No statement ends at the first of
them. -/
structure StrayLine where
  target : Template.Name
  value : Template.Name
  first : Scrap
  rest : List Scrap
  isStray : stmtFollowers.contains first.head.kind = false

/-- The text of the line. -/
def StrayLine.text (line : StrayLine) : String :=
  line.target.text ++ " := " ++ line.value.text ++ Scrap.texts (line.first :: line.rest)

/-- The definition of a name as an integer. -/
structure Definition where
  target : Template.Name
  value : Numeral
  number : Value
  ofToken?_eq : Value.ofToken? .int value.text = some number

namespace Definition

/-- The line of a definition. -/
def text (d : Definition) : String := d.target.text ++ " := " ++ d.value.text ++ "\n"

/-- The lines of definitions. -/
def texts : List Definition → String
  | [] => ""
  | d :: rest => d.text ++ texts rest

/-- The statement is the definition, wherever its parts stand. -/
def IsReadAs (d : Definition) (s : Stmt) : Prop :=
  ∃ pos opPos valuePos, s = .assign [.ident ⟨d.target.text, pos⟩] .define opPos
    [.literal ⟨d.number, d.value.text, valuePos⟩]

theorem IsReadAs.shift {d : Definition} {s : Stmt} (h : d.IsReadAs s) (n : Nat) :
    d.IsReadAs (s.shift n) := by
  obtain ⟨pos, opPos, valuePos, rfl⟩ := h
  exact ⟨pos + n, opPos + n, valuePos + n, rfl⟩

end Definition

/-! ### Tokens -/

namespace Scrap

open Cursor

variable {c : Cursor} {options : ScanOptions} {pending : Bool} {rest : List Glyph}

theorem exists_faces (s : Scrap) : ∃ more, s.faces = s.head :: more := by
  cases s <;> exact ⟨_, rfl⟩

/-- The kinds of first tokens of pieces. -/
def heads : List Token.Kind := [.rparen, .rbrack, .ident, .int, .lbrace]

theorem head_mem : ∀ s : Scrap, s.head.kind ∈ heads
  | .closer .paren | .closer .brack | .name _ | .int _ | .braces _ => by
    simp [head, heads, Closer.kind, Chain.opFace, Template.Name.face]

/-- Where the first token of a piece stands. -/
theorem hands_head (hmixed : options.mixed = false) (s : Scrap) (hrest : EndsWord rest)
    (h : c.InScript options pending (.char ' ' :: (Glyph.ofText s.text ++ rest))) :
    ∃ later, c.Hands (s.head.placed (c.advanceBy 1).offset) later := by
  cases s with
  | closer bracket =>
    have hkind : bracket.kind ∈ brackets := by cases bracket <;> decide
    exact (InScript.hands_bracket (n := 1) hkind h hmixed).imp fun _ => And.left
  | name x => exact (InScript.hands_name (n := 1) x h hmixed hrest.isLetter_eq).imp fun _ => And.left
  | int m => exact (InScript.hands_numeral (n := 1) m h hmixed hrest.endsNumber).imp fun _ => And.left
  | braces inner =>
    have hkind : Token.Kind.lbrace ∈ brackets := by decide
    rw [text, String.append_assoc, Glyph.ofText_append, List.append_assoc] at h
    exact (InScript.hands_bracket (n := 1) hkind h hmixed).imp fun _ => And.left

end Scrap

namespace StrayLine

open Cursor

variable {line : StrayLine} {c : Cursor} {options : ScanOptions} {rest source : List Glyph}

/-- The tokens behind the one that the semicolon is missing before. -/
def skipped (line : StrayLine) : List Token.Face := (Scrap.allFaces (line.first :: line.rest)).tail

theorem allFaces_eq (line : StrayLine) :
    Scrap.allFaces (line.first :: line.rest) = line.first.head :: line.skipped := by
  obtain ⟨more, hfaces⟩ := line.first.exists_faces
  rw [skipped, Scrap.allFaces, hfaces]
  rfl

/-- The way of a cursor over a line with stray pieces, from token to token. -/
structure Walk (line : StrayLine) (c : Cursor) where
  named : Cursor
  namePos : Pos
  target : c.Hands (line.target.face.placed namePos) named
  defined : Cursor
  opPos : Pos
  define : named.Hands ((Chain.opFace .define).placed opPos) defined
  valued : Cursor
  valuePos : Pos
  value : defined.Hands (line.value.face.placed valuePos) valued
  missed : Cursor
  pos : Pos
  stray : valued.Hands (line.first.head.placed pos) missed
  ended : Cursor
  skips : missed.Leads line.skipped ended
  endPos : Pos
  behind : Cursor
  semicolon : ended.Hands ((⟨.semicolon, "\n"⟩ : Token.Face).placed endPos) behind

/-- What is left of the source where the semicolon is missing. -/
def remains (line : StrayLine) (rest : List Glyph) : List Glyph :=
  Glyph.ofText line.first.text ++ (Glyph.ofText (Scrap.texts line.rest) ++ rest)

/-- Where the semicolon is missing. -/
def gap (line : StrayLine) : Nat := line.target.text.utf8ByteSize + line.value.text.utf8ByteSize + 5

theorem glyphs_text (line : StrayLine) (rest : List Glyph) :
    Glyph.ofText line.text ++ rest =
      Glyph.ofText line.target.text ++ .char ' ' :: (Glyph.ofText Token.Kind.define.spelling ++
        .char ' ' :: (Glyph.ofText line.value.text ++ .char ' ' :: line.remains rest)) := by
  simp [text, remains, Scrap.texts, Glyph.ofText]
  rfl

theorem widths_text (line : StrayLine) (rest : List Glyph) :
    Glyph.widths (Glyph.ofText line.text ++ rest) = line.gap + Glyph.widths (line.remains rest) := by
  have hdefine (more : List Glyph) : Glyph.widths (.char ' ' ::
      (Glyph.ofText Token.Kind.define.spelling ++ .char ' ' :: more)) = 4 + Glyph.widths more :=
    Glyph.widths_append [.char ' ', .char ':', .char '=', .char ' '] _
  have hspace (more : List Glyph) : Glyph.widths (.char ' ' :: more) = 1 + Glyph.widths more :=
    Glyph.widths_append [.char ' '] _
  rw [glyphs_text, Glyph.widths_append, hdefine, Glyph.widths_append, hspace, Glyph.widths_ofText,
    Glyph.widths_ofText, gap]
  omega

/-- Over a line with stray pieces, the cursor comes to where the next line begins. -/
theorem exists_walk (hmixed : options.mixed = false) (hauto : options.noAutoSemicolons = false)
    (h : c.InScript options false (Glyph.ofText line.text ++ .char '\n' :: rest))
    (hc : c.Sound source) :
    ∃ walk : line.Walk c, walk.namePos = c.offset ∧
      walk.pos + Glyph.widths (line.remains (.char '\n' :: rest)) = Glyph.widths source ∧
      walk.behind.InScript options false rest := by
  have hspace (more : List Glyph) : EndsWord (.char ' ' :: more) := by
    rintro g ⟨⟩
    exact .inl rfl
  have hbreak : EndsWord (.char '\n' :: rest) := by
    rintro g ⟨⟩
    exact .inr rfl
  rw [glyphs_text] at h
  obtain ⟨named, defined, opPos, htarget, hdefine, hdefined⟩ := h.hands_target line.target hmixed
  obtain ⟨valued, hvalue, hvalued⟩ :=
    InScript.hands_name (n := 1) line.value hdefined hmixed (hspace _).isLetter_eq
  have hahead := hvalued.advanceBy 1
  obtain ⟨_, hhead⟩ :=
    line.first.hands_head hmixed (Scrap.endsWord_texts hbreak line.rest) hvalued
  have hpieces : .char ' ' :: line.remains (.char '\n' :: rest) =
      Glyph.ofText (Scrap.texts (line.first :: line.rest)) ++ .char '\n' :: rest := by
    simp [remains, Scrap.texts, Glyph.ofText]
  rw [hpieces] at hvalued
  obtain ⟨ended, waits, hleads, hended, hwaits⟩ :=
    Scrap.leadsAll hmixed (line.first :: line.rest) hbreak hvalued
  obtain rfl : waits = true := by simpa [hauto] using hwaits
  obtain ⟨behind, endPos, hsemicolon, hbehind⟩ :=
    hended.hands_break hmixed (by rintro g ⟨⟩; rfl)
  rw [allFaces_eq] at hleads
  obtain _ | ⟨hstray, hskips⟩ := hleads
  obtain rfl := congrArg Token.pos (hstray.unique hhead).1
  have hplace := ((hvalue.sound (hdefine.sound (htarget.sound hc))).inSource.reaches
    (valued.reaches_advanceBy 1)).offset_add
  rw [hahead.rest_eq, List.drop_one, List.tail_cons] at hplace
  exact ⟨⟨named, _, htarget, defined, _, hdefine, valued, _, hvalue, _, _, hstray, ended, hskips,
    endPos, behind, hsemicolon⟩, rfl, hplace, hbehind⟩

theorem Walk.sound_missed (walk : line.Walk c) (hc : c.Sound source) :
    walk.pos ≤ walk.missed.offset ∧ walk.missed.Sound source :=
  have hvalued := walk.value.sound (walk.define.sound (walk.target.sound hc))
  ⟨walk.stray.pos_le hvalued, walk.stray.sound hvalued⟩

theorem Walk.reaches_missed (walk : line.Walk c) : c.Reaches walk.missed :=
  walk.target.reaches.trans (walk.define.reaches.trans
    (walk.value.reaches.trans walk.stray.reaches))

theorem Walk.reaches_behind (walk : line.Walk c) : walk.missed.Reaches walk.behind :=
  walk.skips.reaches.trans walk.semicolon.reaches

end StrayLine

namespace Definition

open Cursor

variable {d : Definition} {c : Cursor} {options : ScanOptions} {rest : List Glyph}

theorem glyphs_text (d : Definition) (rest : List Glyph) :
    Glyph.ofText d.text ++ rest =
      Glyph.ofText d.target.text ++ .char ' ' :: (Glyph.ofText Token.Kind.define.spelling ++
        .char ' ' :: (Glyph.ofText d.value.text ++ .char '\n' :: rest)) := by
  simp [text, Glyph.ofText]
  rfl

/-- The way of a cursor over a definition, from token to token. -/
structure Walk (d : Definition) (c : Cursor) where
  named : Cursor
  pos : Pos
  target : c.Hands (d.target.face.placed pos) named
  defined : Cursor
  opPos : Pos
  define : named.Hands ((Chain.opFace .define).placed opPos) defined
  valued : Cursor
  valuePos : Pos
  value : defined.Hands ((⟨.int, d.value.text⟩ : Token.Face).placed valuePos) valued
  behind : Cursor
  endPos : Pos
  semicolon : valued.Hands ((⟨.semicolon, "\n"⟩ : Token.Face).placed endPos) behind

theorem exists_walk (hmixed : options.mixed = false) (hauto : options.noAutoSemicolons = false)
    (h : c.InScript options false (Glyph.ofText d.text ++ rest)) :
    ∃ walk : d.Walk c, walk.behind.InScript options false rest := by
  rw [glyphs_text] at h
  have hbreak : EndsWord (.char '\n' :: rest) := by
    rintro g ⟨⟩
    exact .inr rfl
  obtain ⟨named, defined, opPos, htarget, hdefine, hdefined⟩ := h.hands_target d.target hmixed
  obtain ⟨valued, hvalue, hvalued⟩ :=
    InScript.hands_numeral (n := 1) d.value hdefined hmixed hbreak.endsNumber
  rw [hauto] at hvalued
  obtain ⟨behind, endPos, hsemicolon, hbehind⟩ :=
    hvalued.hands_break hmixed (by rintro g ⟨⟩; rfl)
  exact ⟨⟨named, _, htarget, defined, _, hdefine, valued, _, hvalue, behind, endPos, hsemicolon⟩,
    hbehind⟩

end Definition

/-! ### Statements -/

namespace Grammar

variable {deep : Nested} {r later : Reader} {list : List Stmt}

/-- An integer is an operand. -/
theorem operand_int {number : Value} (hkind : r.token.kind = .int) (hnext : next r = .ok () later)
    (hnumber : Value.ofToken? .int r.token.literal = some number) :
    operand deep r = .ok (.literal ⟨number, r.token.literal, r.token.pos⟩) later := by
  have hliteral : literal r = .ok (.literal ⟨number, r.token.literal, r.token.pos⟩) later := by
    unfold literal
    rw [token_bind, bind_run_ok hnext, hkind, hnumber]
    rfl
  unfold operand
  rw [token_bind]
  simp only [hkind]
  exact hliteral

/-- The definition of a name as the value of an expression list. -/
theorem simpleStmt_define {named valuing : Reader} {e : Expr} (hkind : r.token.kind = .ident)
    (hnamed : next r = .ok () named) (hdefine : named.token.kind = .define)
    (hvaluing : next named = .ok () valuing) (hvalue : exprs deep valuing = .ok [e] later) :
    simpleStmt deep r =
      .ok (.assign [.ident ⟨r.token.literal, r.token.pos⟩] .define named.token.pos [e]) later := by
  have hexprs : exprs deep r = .ok [.ident ⟨r.token.literal, r.token.pos⟩] named :=
    exprs_run (operand_run hkind hnamed (by rw [hdefine]; decide)) (by rw [hkind]; rfl)
      (by rw [hdefine]; decide)
  unfold simpleStmt simpleStmtFrom
  rw [bind_run_ok hexprs, kind_bind, hdefine, if_pos (by rfl), assignment, token_bind,
    bind_run_ok hvaluing, hdefine]
  exact bind_run_ok hvalue _

/-- A statement that begins with a name is a simple one. -/
theorem stmt_of_ident (hkind : r.token.kind = .ident) :
    stmt deep r = (simpleStmt deep >>= fun s => expectSemicolon >>= fun _ => pure s) r := by
  unfold stmt
  rw [token_bind]
  simp only [hkind]

/-- The definition of a name is read up to behind its semicolon. -/
theorem stmt_definition {d : Definition} {named valuing ending : Reader}
    (hkind : r.token.kind = .ident) (htarget : r.token.literal = d.target.text)
    (hnamed : next r = .ok () named) (hdefine : named.token.kind = .define)
    (hvaluing : next named = .ok () valuing) (hint : valuing.token.kind = .int)
    (hvalue : valuing.token.literal = d.value.text) (hending : next valuing = .ok () ending)
    (hsemicolon : ending.token.kind = .semicolon) (hlater : next ending = .ok () later) :
    ∃ s, d.IsReadAs s ∧ stmt deep r = .ok s later := by
  have hnumber : Value.ofToken? .int valuing.token.literal = some d.number := hvalue ▸ d.ofToken?_eq
  have hexprs : exprs deep valuing =
      .ok [.literal ⟨d.number, valuing.token.literal, valuing.token.pos⟩] ending :=
    exprs_run (operand_int hint hending hnumber) (by rw [hint]; rfl) (by rw [hsemicolon]; decide)
  have hsimple := simpleStmt_define hkind hnamed hdefine hvaluing hexprs
  have hend : expectSemicolon ending = .ok () later := by
    unfold expectSemicolon
    rw [kind_bind, if_pos hsemicolon]
    exact hlater
  refine ⟨_, ⟨r.token.pos, named.token.pos, valuing.token.pos, ?_⟩,
    (stmt_of_ident hkind).trans ((bind_run_ok hsimple _).trans (bind_run_ok hend _))⟩
  rw [htarget, hvalue]

end Grammar

namespace StrayLine

open Grammar

variable {line : StrayLine} {c : Cursor} {source : List Glyph} {r later : Reader} {deep : Nested}
  {inBlock : Bool} {list : List Stmt} {result : Round (List Stmt) (List Stmt)}

/-- What is found wrong with the line. -/
def cause (line : StrayLine) : Cause := .expected ";" (line.first.head.placed 0).describe

/-- What is found wrong with the line, where the cursor finds it. -/
def Walk.error (walk : line.Walk c) : Diagnostic := ⟨walk.missed.file.place walk.pos, line.cause⟩

theorem head_mem_exprEnds (line : StrayLine) : line.first.head.kind ∈ exprEnds := by
  have hhead := line.first.head_mem
  have hstray := line.isStray
  revert hhead hstray
  generalize line.first.head.kind = kind
  revert kind
  decide

/-- Before a stray piece, a semicolon is missing. -/
theorem Walk.stmt_run (walk : line.Walk c) (hc : c.Sound source) (hr : c.Hands r.token r.cursor) :
    stmt deep r = .error .bail
      ((r.turn walk.missed (line.first.head.placed walk.pos)).record walk.error) := by
  obtain ⟨htoken, hcursor⟩ := hr.unique walk.target
  let defining := r.turn walk.defined ((Chain.opFace .define).placed walk.opPos)
  let valuing := r.turn walk.valued (line.value.face.placed walk.valuePos)
  let strayed := r.turn walk.missed (line.first.head.placed walk.pos)
  have hstrayed : next valuing = .ok () strayed := next_hands walk.stray
  have hends : strayed.token.kind ∈ exprEnds := line.head_mem_exprEnds
  have hvalue : exprs deep valuing = .ok [.ident ⟨line.value.text, walk.valuePos⟩] strayed := by
    refine exprs_run (operand_run rfl hstrayed fun hlambda => ?_) rfl hends
    rw [hlambda] at hends
    exact absurd hends (by decide)
  have hkind : r.token.kind = .ident := congrArg Token.kind htoken
  have hdefining : next r = .ok () defining := next_hands (hcursor ▸ walk.define)
  have hsimple := simpleStmt_define hkind hdefining rfl (next_hands walk.value) hvalue
  obtain ⟨hpos, hmissed⟩ := walk.sound_missed hc
  have hinside : walk.pos ≤ walk.missed.file.size :=
    hmissed.inSource.size_eq ▸ Nat.le_trans hpos hmissed.inSource.offset_le
  have herror : errorAt walk.pos line.cause strayed = .ok () (strayed.record walk.error) :=
    bind_run_ok (place_run hinside) _
  have hfails : expectSemicolon strayed = .error .bail (strayed.record walk.error) := by
    have hstray : stmtFollowers.contains strayed.token.kind = false := line.isStray
    have hsemicolon : strayed.token.kind ≠ .semicolon := fun hkind =>
      absurd (hkind ▸ line.first.head_mem : Token.Kind.semicolon ∈ Scrap.heads) (by decide)
    unfold expectSemicolon
    rw [kind_bind, if_neg hsemicolon, hstray, if_neg Bool.false_ne_true, failExpected, token_bind,
      failAt]
    exact bind_run_ok herror _
  rw [stmt_of_ident hkind, bind_run_ok hsimple]
  exact bind_run_error hfails _

/-- A line with stray pieces is skipped as one statement, for which one diagnostic is recorded. The
token behind the line is in hand then. -/
theorem Walk.stmtsRound_run (walk : line.Walk c) (hc : c.Sound source)
    (hr : c.Hands r.token r.cursor) (hmax : r.maxErrors = 0)
    (hlast : ∀ d ∈ r.errors.getLast?, d.place.line ≠ walk.error.place.line)
    (hrun : stmtsRound deep inBlock list r = .ok result later) :
    ∃ end_, next ({ r with errors := r.errors ++ [walk.error] }.turn walk.behind
          ((⟨.semicolon, "\n"⟩ : Token.Face).placed walk.endPos)) = .ok () end_ ∧
      (walk.namePos < end_.token.pos →
        result = .again (.bad walk.namePos end_.token.pos :: list) ∧ later = end_) := by
  have htoken : r.token = line.target.face.placed walk.namePos := (hr.unique walk.target).1
  have hend : atStmtsEnd inBlock r = .ok false r :=
    atStmtsEnd_of_ident hmax (congrArg Token.kind htoken) inBlock
  have hstmt : stmt deep r = _ := walk.stmt_run hc hr
  rw [Reader.record_add (r := r.turn walk.missed _) hmax hlast] at hstmt
  have hopen : openBraces 0 (line.first.head :: line.skipped) = some 0 :=
    line.allFaces_eq ▸ Scrap.openBraces_allFaces 0 (line.first :: line.rest)
  have hresumes := stmtsRound_resumes hend hstmt walk.skips walk.semicolon rfl rfl
    (isFull_eq_of_unlimited hmax) hopen hrun
  rwa [htoken] at hresumes

end StrayLine

end TemplateScript
