import TemplateScript.Proofs.Recovery.Stray

/-!
# A line that cannot be read, in a block

Where reading resumes depends on the braces from the token at fault on, not on those before it. So a
block stays open around a line whose braces are all behind the fault, and what follows the line is
still read as statements of the block. If a brace had been read before the fault, the one that
closes it is taken for the one that closes the block.
-/

namespace TemplateScript

open Parse

/-- A branch. Its block begins with a line with stray pieces, and goes on with definitions. -/
structure BrokenBlock where
  test : Template.Name
  line : StrayLine
  rest : List Definition

namespace BrokenBlock

/-- The first line of the branch. -/
def opening (b : BrokenBlock) : String := "if " ++ b.test.text ++ " \x7b\n"

/-- The last line of the branch. -/
def closing : String := "\x7d\n"

/-- The text of the branch. -/
def text (b : BrokenBlock) : String :=
  b.opening ++ (b.line.text ++ "\n" ++ (Definition.texts b.rest ++ closing))

/-- What is found wrong with the branch. -/
def error (b : BrokenBlock) (name : String) : Diagnostic :=
  ⟨Glyph.place name (Glyph.ofText b.text) (b.opening.utf8ByteSize + b.line.gap), b.line.cause⟩

/-- The tree of the branch. Its block has a mark for the line, and the definitions behind it. -/
def IsReadAs (b : BrokenBlock) (s : Stmt) : Prop :=
  ∃ pos testPos lbrace bad stop defined rbrace,
    s = .ifElse pos none (.ident ⟨b.test.text, testPos⟩) ⟨lbrace, .bad bad stop :: defined, rbrace⟩
      none ∧
    List.Forall₂ Definition.IsReadAs b.rest defined

theorem IsReadAs.shift {b : BrokenBlock} {s : Stmt} (h : b.IsReadAs s) (n : Nat) :
    b.IsReadAs (s.shift n) := by
  obtain ⟨pos, testPos, lbrace, bad, stop, defined, rbrace, rfl, hall⟩ := h
  refine ⟨pos + n, testPos + n, lbrace + n, bad + n, stop + n, shiftStmts n defined, rbrace + n, ?_,
    ?_⟩
  · rfl
  · rw [shiftStmts_eq_map]
    exact List.forall₂_map_right_iff.2 (hall.imp fun _ _ h => h.shift n)

/-! ### The text -/

theorem isFit_text (b : BrokenBlock) : ∀ g ∈ Glyph.ofText b.text, g.IsFit := by
  have happend {s t : String} (hs : ∀ g ∈ Glyph.ofText s, g.IsFit)
      (ht : ∀ g ∈ Glyph.ofText t, g.IsFit) : ∀ g ∈ Glyph.ofText (s ++ t), g.IsFit := by
    rw [Glyph.ofText_append]
    exact List.forall_mem_append.2 ⟨hs, ht⟩
  have hbreak : ∀ g ∈ Glyph.ofText "\n", g.IsFit :=
    List.forall_mem_singleton.2 ⟨'\n', rfl, by decide⟩
  have hfit {s : String} (h : OneLine s) : ∀ g ∈ Glyph.ofText s, g.IsFit := h.isFit
  have hopening : ∀ g ∈ Glyph.ofText b.opening, g.IsFit := by
    have hbrace : ∀ g ∈ Glyph.ofText " \x7b\n", g.IsFit :=
      happend (s := " \x7b") (hfit (by decide)) hbreak
    exact happend (happend (hfit (by decide)) b.test.oneLine.isFit) hbrace
  have hline : ∀ g ∈ Glyph.ofText b.line.text, g.IsFit :=
    hfit (((b.line.target.oneLine.append (by decide)).append b.line.value.oneLine).append
      (Scrap.oneLine_texts _))
  have hrest (rest : List Definition) : ∀ g ∈ Glyph.ofText (Definition.texts rest), g.IsFit := by
    induction rest with
    | nil => exact List.forall_mem_nil _
    | cons d rest ih =>
      exact happend (happend (happend (happend d.target.oneLine.isFit (hfit (by decide)))
        d.value.oneLine.isFit) hbreak) ih
  have hclosing : ∀ g ∈ Glyph.ofText closing, g.IsFit :=
    happend (s := "\x7d") (hfit (by decide)) hbreak
  exact happend hopening (happend (happend hline hbreak) (happend (hrest b.rest) hclosing))

/-- What is left of the text behind the first line. -/
def body (b : BrokenBlock) : List Glyph :=
  Glyph.ofText b.line.text ++
    .char '\n' :: Glyph.ofText (Definition.texts b.rest ++ closing)

theorem glyphs_text (b : BrokenBlock) :
    Glyph.ofText b.text =
      Glyph.ofText "if" ++ .char ' ' :: (Glyph.ofText b.test.text ++
        .char ' ' :: (Glyph.ofText Token.Kind.lbrace.spelling ++ .char '\n' :: b.body)) := by
  simp [text, opening, body, Glyph.ofText]
  rfl

theorem widths_text (b : BrokenBlock) :
    Glyph.widths (Glyph.ofText b.text) = b.opening.utf8ByteSize + Glyph.widths b.body := by
  have hbody : Glyph.ofText b.text = Glyph.ofText b.opening ++ b.body := by
    simp [text, body, Glyph.ofText]
  rw [hbody, Glyph.widths_append, Glyph.widths_ofText]

end BrokenBlock

/-! ### Tokens -/

namespace Cursor

variable {c later : Cursor} {options : ScanOptions} {glyphs : List Glyph} {t : Token}

/-- A line break does not count where no semicolon may be inserted. -/
theorem InScript.hands_next_line (h : c.InScript options false (.char '\n' :: glyphs))
    (hhands : (c.advanceBy 1).Hands t later) : c.Hands t later := by
  have hnext := h.advanceBy 1
  have hskip : c.skipBlanks = (c.advanceBy 1).skipBlanks := by
    unfold skipBlanks
    rw [← advanceBy_add, hnext.rest_eq, hnext.pending_eq, h.rest_eq, h.pending_eq,
      Glyph.countWhile, List.takeWhile_cons_of_pos (by rfl), List.length_cons, Nat.add_comm]
    rfl
  have hread : c.read = (c.advanceBy 1).read := by
    rw [read, read, h.inText_eq, hnext.inText_eq, if_neg Bool.false_ne_true,
      if_neg Bool.false_ne_true, code_eq, hskip, ← code_eq]
  refine { hhands with scan_eq := ?_ }
  rw [← hhands.scan_eq, Cursor.scan_eq h.pool_eq, Cursor.scan_eq hnext.pool_eq, hread]

/-- All tokens that are still to come begin where the cursor stands or behind that. -/
theorem InScript.ahead {pending : Bool} (h : c.InScript options pending glyphs) :
    c.Ahead c.offset := by
  have hpool : c.pool = [] := h.pool_eq
  constructor
  · intro g hg
    rw [h.rest_eq] at hg
    exact (h.fit g hg).imp fun _ hch => hch.1
  · exact Nat.le_refl _
  all_goals rw [hpool]; simp

end Cursor

namespace Definition

open Cursor

variable {c : Cursor} {options : ScanOptions}

/-- Definitions begin with a name, and behind them a brace closes the block. -/
theorem exists_hands (hmixed : options.mixed = false) (hauto : options.noAutoSemicolons = false)
    (list : List Definition)
    (h : c.InScript options false (Glyph.ofText (texts list ++ BrokenBlock.closing))) :
    ∃ t later, c.Hands t later := by
  cases list with
  | nil =>
    have hrbrace : Token.Kind.rbrace ∈ brackets := by decide
    obtain ⟨later, hhands, -⟩ := InScript.hands_bracket (n := 0) hrbrace h hmixed
    exact ⟨_, later, hhands⟩
  | cons d rest =>
    rw [texts, String.append_assoc, Glyph.ofText_append] at h
    obtain ⟨walk, -⟩ := exists_walk hmixed hauto h
    exact ⟨_, _, walk.target⟩

end Definition

namespace BrokenBlock

open Cursor

variable {b : BrokenBlock} {c : Cursor} {options : ScanOptions} {source : List Glyph}

/-- The way of a cursor over a branch, from token to token, up to behind the line with stray
pieces. -/
structure Walk (b : BrokenBlock) (c : Cursor) where
  branched : Cursor
  pos : Pos
  word : c.Hands ((⟨.ifWord, "if"⟩ : Token.Face).placed pos) branched
  tested : Cursor
  testPos : Pos
  test : branched.Hands (b.test.face.placed testPos) tested
  opened : Cursor
  lbrace : Pos
  opens : tested.Hands ((Chain.opFace .lbrace).placed lbrace) opened
  line : b.line.Walk opened

theorem exists_walk (hmixed : options.mixed = false) (hauto : options.noAutoSemicolons = false)
    (h : c.InScript options false (Glyph.ofText b.text)) (hin : c.InSource (Glyph.ofText b.text)) :
    ∃ walk : b.Walk c, walk.opened.Sound (Glyph.ofText b.text) ∧
      walk.line.pos = b.opening.utf8ByteSize + b.line.gap ∧ walk.line.namePos < walk.line.pos ∧
      walk.line.behind.InScript options false
        (Glyph.ofText (Definition.texts b.rest ++ closing)) := by
  have hsound := h.sound hin
  have hspace (more : List Glyph) : EndsWord (.char ' ' :: more) := by
    rintro g ⟨⟩
    exact .inl rfl
  have hlbrace : Token.Kind.lbrace ∈ brackets := by decide
  have hif : isWord "if" = true ∧ Token.Kind.ofWord "if" ∉ [Token.Kind.comment, .illegal] := by
    decide +kernel
  rw [glyphs_text] at h
  obtain ⟨branched, hword, hbranched⟩ :=
    InScript.hands_word (n := 0) hif.1 h hmixed (hspace _).isLetter_eq hif.2
  obtain ⟨tested, htest, htested⟩ :=
    InScript.hands_name (n := 1) b.test hbranched hmixed (hspace _).isLetter_eq
  obtain ⟨opened, hopens, hopened⟩ := InScript.hands_bracket (n := 1) hlbrace htested hmixed
  have hopenedSound := hopens.sound (htest.sound (hword.sound hsound))
  have hline := hopened.advanceBy 1
  have hlineIn := hopenedSound.inSource.reaches (opened.reaches_advanceBy 1)
  obtain ⟨walk, hname, hpos, hbehind⟩ :=
    StrayLine.exists_walk hmixed hauto hline (hline.sound hlineIn)
  have hplace := hlineIn.offset_add
  rw [hline.rest_eq, List.drop_one, List.tail_cons, body, StrayLine.widths_text] at hplace
  have hwhole := b.widths_text
  rw [body, StrayLine.widths_text] at hwhole
  have hstart : walk.pos = (opened.advanceBy 1).offset + b.line.gap :=
    Nat.add_right_cancel (hpos.trans (hplace.symm.trans (Nat.add_assoc ..).symm))
  refine ⟨⟨branched, _, hword, tested, _, htest, opened, _, hopens,
    { walk with target := hopened.hands_next_line walk.target }⟩, hopenedSound, ?_, ?_, hbehind⟩
  · exact Nat.add_right_cancel (hpos.trans (hwhole.trans (Nat.add_assoc ..).symm))
  · change walk.namePos < walk.pos
    rw [hname, hstart]
    exact Nat.lt_add_of_pos_right (Nat.succ_pos _)

theorem Walk.reaches_opened (walk : b.Walk c) : c.Reaches walk.opened :=
  walk.word.reaches.trans (walk.test.reaches.trans walk.opens.reaches)

end BrokenBlock

/-! ### Statements -/

namespace Grammar

variable {deep : Nested} {r later : Reader} {list : List Stmt} {limit : Nat}
  {options : ScanOptions} {c : Cursor}

/-- A round that reads a statement of a block. -/
theorem stmtsRound_stmt {s : Stmt} (hmax : r.maxErrors = 0) (hkind : r.token.kind = .ident)
    (hs : stmt deep r = .ok s later) (hcode : s.isCodeEnd = false) :
    stmtsRound deep true list r = .ok (.again (s :: list)) later := by
  have hattempt : attempt (stmt deep) r = .ok (some s) later := by
    unfold attempt
    rw [hs]
  unfold stmtsRound
  rw [bind_run_ok (atStmtsEnd_of_ident hmax hkind true), if_neg Bool.false_ne_true, token_bind,
    bind_run_ok hattempt]
  dsimp only
  rw [addStmt_of_isCode hcode]
  rfl

/-- The closing brace of a block ends its statements. -/
theorem stmtsRound_brace (hkind : r.token.kind = .rbrace) :
    stmtsRound deep true list r = .ok (.done list.reverse) r := by
  unfold stmtsRound atStmtsEnd
  rw [bind_assoc, kind_bind, bind_assoc, isFull_bind, hkind]
  cases r.isFull <;> rfl

/-- Definitions are read one by one, up to the brace that closes their block. -/
theorem rounds_definitions (hmixed : options.mixed = false)
    (hauto : options.noAutoSemicolons = false) (defs : List Definition) {before read : List Stmt}
    (h : c.InScript options false (Glyph.ofText (Definition.texts defs ++ BrokenBlock.closing)))
    (hr : c.Hands r.token r.cursor) (hmax : r.maxErrors = 0)
    (hrun : rounds (stmtsRound deep true) limit before r = .ok read later) :
    ∃ defined, List.Forall₂ Definition.IsReadAs defs defined ∧ read = before.reverse ++ defined ∧
      later.token.kind = .rbrace ∧ later.cursor.InScript options true [.char '\n'] ∧
      later.maxErrors = 0 ∧ later.errors = r.errors := by
  induction defs generalizing c r before limit with
  | nil =>
    have hrbrace : Token.Kind.rbrace ∈ Cursor.brackets := by decide
    obtain ⟨closed, hhands, hclosed⟩ := Cursor.InScript.hands_bracket (n := 0) hrbrace h hmixed
    obtain ⟨htoken, rfl⟩ := hr.unique hhands
    rw [hauto] at hclosed
    have hkind : r.token.kind = .rbrace := congrArg Token.kind htoken
    cases limit with
    | zero => cases hrun
    | succ limit =>
      rw [rounds, bind_run_ok (stmtsRound_brace hkind)] at hrun
      cases hrun
      exact ⟨[], .nil, (List.append_nil _).symm, hkind, hclosed, hmax, rfl⟩
  | cons d rest ih =>
    rw [Definition.texts, String.append_assoc, Glyph.ofText_append] at h
    obtain ⟨walk, hbehind⟩ := Definition.exists_walk hmixed hauto h
    obtain ⟨t, ahead, hnext⟩ := Definition.exists_hands hmixed hauto rest hbehind
    obtain ⟨htoken, hcursor⟩ := hr.unique walk.target
    have hkind : r.token.kind = .ident := congrArg Token.kind htoken
    let named := r.turn walk.defined ((Chain.opFace .define).placed walk.opPos)
    have hnamed : next r = .ok () named := next_hands (hcursor ▸ walk.define)
    obtain ⟨s, hread, hs⟩ := stmt_definition hkind (congrArg Token.literal htoken) hnamed rfl
      (next_hands walk.value) rfl rfl (next_hands walk.semicolon) rfl (next_hands hnext)
    have hcode : s.isCodeEnd = false := by
      obtain ⟨_, _, _, rfl⟩ := hread
      rfl
    cases limit with
    | zero => cases hrun
    | succ limit =>
      rw [rounds_again (stmtsRound_stmt hmax hkind hs hcode)] at hrun
      obtain ⟨defined, hall, hread', hlater⟩ :=
        ih (r := (r.turn walk.behind _).turn ahead t) hbehind hnext hmax hrun
      refine ⟨s :: defined, .cons hread hall, ?_, hlater⟩
      rw [hread', List.reverse_cons, List.append_assoc]
      rfl

variable {branching testing inside : Reader} {test : Expr}

/-- Up to its block, a branch with a lone expression as its condition is read. -/
theorem ifStmt_head (hword : r.token.kind = .ifWord) (hbranching : next r = .ok () branching)
    (hkind : branching.token.kind = .ident) (htest : exprs deep branching = .ok [test] testing)
    (hlbrace : testing.token.kind = .lbrace) :
    ifStmt deep r = (openBlock deep >>= fun block => do
      if ← accept .elseWord then
        let otherwise ← ifElse deep block.2
        return .ifElse r.token.pos none test block.1 (some otherwise)
      else
        expectSemicolon
        return .ifElse r.token.pos none test block.1 none) testing := by
  have hexpect : expect .ifWord r = .ok r.token.pos branching := by
    unfold expect
    rw [token_bind, if_pos hword, bind_run_ok hbranching]
    rfl
  have hsimple : simpleStmt deep branching = .ok (.expr test) testing := by
    unfold simpleStmt simpleStmtFrom
    rw [bind_run_ok htest, kind_bind, hlbrace]
    rfl
  have haccept : accept .semicolon testing = .ok false testing := by
    unfold accept
    rw [kind_bind, hlbrace]
    rfl
  have hhead : ifHead deep branching = .ok (none, test) testing := by
    unfold ifHead
    rw [kind_bind, hkind]
    dsimp only
    rw [bind_run_ok hsimple, bind_run_ok haccept]
    rfl
  unfold ifStmt
  rw [bind_run_ok hexpect, bind_run_ok hhead]

theorem openBlock_head (hlbrace : testing.token.kind = .lbrace)
    (hinside : next testing = .ok () inside) :
    openBlock deep testing = (deep.stmts >>= fun stmts => do
      if (← kind) = .elseWord then return (⟨testing.token.pos, stmts, ← pos⟩, true)
      else
        let rbrace ← closeBlock
        return (⟨testing.token.pos, stmts, rbrace⟩, false)) inside := by
  have hexpect : expect .lbrace testing = .ok testing.token.pos inside := by
    unfold expect
    rw [token_bind, if_pos hlbrace, bind_run_ok hinside]
    rfl
  unfold openBlock
  rw [bind_run_ok hexpect]

/-- A block ends at its closing brace. -/
theorem openBlock_run {closing : Reader} {stmts : List Stmt}
    (hlbrace : testing.token.kind = .lbrace) (hinside : next testing = .ok () inside)
    (hstmts : deep.stmts inside = .ok stmts closing) (hrbrace : closing.token.kind = .rbrace)
    (hfull : closing.isFull = false) (hclosing : next closing = .ok () later) :
    openBlock deep testing =
      .ok (⟨testing.token.pos, stmts, closing.token.pos⟩, false) later := by
  have hclose : closeBlock closing = .ok closing.token.pos later := by
    unfold closeBlock
    rw [pos_bind, isFull_bind, hfull, if_neg Bool.false_ne_true, kind_bind, hrbrace]
    dsimp only
    rw [bind_run_ok hclosing]
    rfl
  rw [openBlock_head hlbrace hinside, bind_run_ok hstmts, kind_bind, hrbrace,
    if_neg (by decide), bind_run_ok hclose]
  rfl

/-- Where a file is read without a fault, so is its next statement. -/
theorem stmt_ne_fault {stmtsLimit fileLimit : Nat} {read : List Stmt} {mid : Reader} {f : Fault}
    (h : AtStmt r) (hrun : fileFrom deep (stmtsLimit + 1) fileLimit list r = .ok read later) :
    stmt deep r ≠ .error (.fault f) mid := by
  intro hs
  rw [fileFrom_succ] at hrun
  obtain ⟨result, tried, hround, -⟩ := bind_run_eq_ok.1 hrun
  rw [stmtsRound_run h] at hround
  obtain ⟨read?, tried, hattempt, -⟩ := bind_run_eq_ok.1 hround
  unfold attempt at hattempt
  rw [hs] at hattempt
  cases hattempt

/-- The reader is at the brace that closes the last block of a source. Behind it there is a
semicolon, and then the end of the source. -/
structure AtLastBrace (closing last : Reader) : Prop where
  isFull_eq : closing.isFull = false
  kind_eq : closing.token.kind = .rbrace
  ends : ∃ ending, next closing = .ok () ending ∧ ending.token.kind = .semicolon ∧
    next ending = .ok () last
  last_kind : last.token.kind = .eof

theorem AtLastBrace.unique {closing last last' : Reader} (h : AtLastBrace closing last)
    (h' : AtLastBrace closing last') : last = last' := by
  obtain ⟨ending, hending, -, hlast⟩ := h.ends
  obtain ⟨ending', hending', -, hlast'⟩ := h'.ends
  cases hending.symm.trans hending'
  cases hlast.symm.trans hlast'
  rfl

/-- A branch with a name for its condition is the only statement of a source, if whatever is read of
its block ends before the last brace of the source. -/
theorem source_branch {start first : Reader} {stmts : List Stmt} {whole : Reader}
    (hrun : Parse.source start = .ok stmts whole) (hfirst : next start = .ok () first)
    (hmax : first.maxErrors = 0) (hword : first.token.kind = .ifWord)
    (hbranching : next first = .ok () branching) (hname : branching.token.kind = .ident)
    (htesting : next branching = .ok () testing) (hlbrace : testing.token.kind = .lbrace)
    (hinside : next testing = .ok () inside)
    (hbody : ∀ body closing, Grammar.stmts (.ofDepth (first.cursor.bound + 1)) true inside =
      .ok body closing → ∃ last, AtLastBrace closing last) :
    ∃ body closing,
      Grammar.stmts (.ofDepth (first.cursor.bound + 1)) true inside = .ok body closing ∧
      AtLastBrace closing whole ∧
      stmts = [.ifElse first.token.pos none
        (.ident ⟨branching.token.literal, branching.token.pos⟩)
        ⟨testing.token.pos, body, closing.token.pos⟩ none] := by
  let deep := Nested.ofDepth (first.cursor.bound + 1 + 1)
  have hfile : fileFrom deep (first.cursor.bound + 1 + 1) (first.cursor.bound + 1) [] first =
      .ok stmts whole := by
    unfold Parse.source at hrun
    rw [bind_run_ok hfirst, get_bind, file_run] at hrun
    exact hrun
  have hat : AtStmt first :=
    ⟨isFull_eq_of_unlimited hmax, by rw [hword]; decide, by rw [hword]; decide⟩
  have htest : exprs deep branching =
      .ok [.ident ⟨branching.token.literal, branching.token.pos⟩] testing :=
    exprs_run (operand_run hname htesting (by rw [hlbrace]; decide)) (by rw [hname]; rfl)
      (by rw [hlbrace]; decide)
  have hbranch := ifStmt_head hword hbranching hname htest hlbrace
  have hstmt : stmt deep first = ifStmt deep first := by
    unfold stmt
    rw [token_bind]
    simp only [hword]
  cases hstmts : deep.stmts inside with
  | error e mid =>
    have hblock : openBlock deep testing = .error e mid := by
      rw [openBlock_head hlbrace hinside]
      exact bind_run_error hstmts _
    rw [bind_run_error hblock] at hbranch
    cases e with
    | bail => exact absurd hstmts (Persists.loop (stmtsRound_persists _ true) [] inside mid)
    | fault f => exact absurd (hstmt.trans hbranch) (stmt_ne_fault hat hfile)
  | ok body closing =>
    obtain ⟨last, hlast⟩ := hbody body closing hstmts
    obtain ⟨ending, hending, hsemicolon, hnext⟩ := hlast.ends
    have hblock := openBlock_run hlbrace hinside hstmts hlast.kind_eq hlast.isFull_eq hending
    have haccept : accept .elseWord ending = .ok false ending := by
      unfold accept
      rw [kind_bind, hsemicolon]
      rfl
    have hexpect : expectSemicolon ending = .ok () last := by
      unfold expectSemicolon
      rw [kind_bind, if_pos hsemicolon, hnext]
    rw [bind_run_ok hblock, bind_run_ok haccept, if_neg Bool.false_ne_true, bind_run_ok hexpect]
      at hbranch
    have hend := (fileFrom_stmt hat (hstmt.trans hbranch) rfl _ _ []).symm.trans hfile
    cases (fileFrom_eof hlast.last_kind ..).symm.trans hend
    exact ⟨body, closing, hstmts, hlast, rfl⟩

end Grammar

namespace BrokenBlock

open Grammar

variable {b : BrokenBlock} {c : Cursor} {options : ScanOptions} {source : List Glyph}
  {r later : Reader} {deep : Nested} {limit : Nat} {read : List Stmt}

/-- The line with stray pieces is skipped inside the block, and the definitions behind it are read
there. -/
theorem Walk.rounds_run (walk : b.Walk c) (hmixed : options.mixed = false)
    (hauto : options.noAutoSemicolons = false) (hc : walk.opened.Sound source)
    (hlt : walk.line.namePos < walk.line.pos)
    (hbehind : walk.line.behind.InScript options false
      (Glyph.ofText (Definition.texts b.rest ++ closing)))
    (hr : walk.opened.Hands r.token r.cursor) (hmax : r.maxErrors = 0) (herrors : r.errors = [])
    (hrun : rounds (stmtsRound deep true) limit [] r = .ok read later) :
    ∃ bad stop defined, read = .bad bad stop :: defined ∧
      List.Forall₂ Definition.IsReadAs b.rest defined ∧ later.token.kind = .rbrace ∧
      later.cursor.InScript options true [.char '\n'] ∧ later.maxErrors = 0 ∧
      later.errors = [walk.line.error] := by
  cases limit with
  | zero => cases hrun
  | succ limit =>
    rw [rounds] at hrun
    obtain ⟨result, mid, hround, hrest⟩ := bind_run_eq_ok.1 hrun
    obtain ⟨end_, hnext, hend⟩ :=
      walk.line.stmtsRound_run hc hr hmax (by simp [herrors]) hround
    obtain ⟨t, ahead, hhands⟩ := Definition.exists_hands hmixed hauto b.rest hbehind
    have hfloor : walk.line.behind.offset ≤ end_.token.pos :=
      Covers.nextWithin_floor hbehind.ahead ((next_run _).symm.trans hnext)
    have hpos := (walk.line.sound_missed hc).1
    have hstop := walk.line.reaches_behind.offset_le
    obtain ⟨rfl, rfl⟩ := hend (Nat.lt_of_lt_of_le hlt (hpos.trans (hstop.trans hfloor)))
    cases hnext.symm.trans (next_hands hhands)
    dsimp only at hrest
    obtain ⟨defined, hall, hread, hkind, hclosed, hmax', herrors'⟩ :=
      rounds_definitions hmixed hauto b.rest hbehind hhands (by exact hmax) hrest
    refine ⟨_, _, defined, hread, hall, hkind, hclosed, hmax', ?_⟩
    rw [herrors']
    exact congrArg (· ++ [walk.line.error]) herrors

/-- What is found wrong with the line is what is found wrong with the branch. -/
theorem Walk.error_eq (walk : b.Walk c) {name : String} (hc : walk.opened.Sound (Glyph.ofText b.text))
    (hpos : walk.line.pos = b.opening.utf8ByteSize + b.line.gap) (hname : c.file.name = name) :
    walk.line.error = b.error name := by
  obtain ⟨hle, hmissed⟩ := walk.line.sound_missed hc
  rw [StrayLine.Walk.error, hmissed.inSource.place_eq hle, hpos,
    (walk.reaches_opened.trans walk.line.reaches_missed).name_eq, hname]
  rfl

/-- A branch is read as one statement, and one thing is wrong with it. -/
theorem source_run {options : ParseOptions} (hmixed : options.scan.mixed = false)
    (hauto : options.scan.noAutoSemicolons = false) (hmax : options.maxErrors = 0) (set : FileSet)
    (name : String) (b : BrokenBlock) :
    ∃ s whole, Parse.source (set.reader name (Glyph.ofText b.text) options) = .ok [s] whole ∧
      b.IsReadAs s ∧ whole.errors = [b.error name] := by
  obtain ⟨stmts, whole, hrun⟩ := FileSet.source_text set name b.text options
  have hsize : (set.newFile name (Glyph.ofText b.text)).size = Glyph.widths (Glyph.ofText b.text) :=
    rfl
  obtain ⟨hscript, hin⟩ := Cursor.inScript_start hsize rfl hmixed b.isFit_text
  obtain ⟨walk, hopened, hpos, hlt, hbehind⟩ := exists_walk hmixed hauto hscript hin
  let start := set.reader name (Glyph.ofText b.text) options
  let first := start.turn walk.branched ((⟨.ifWord, "if"⟩ : Token.Face).placed walk.pos)
  let testing := start.turn walk.tested (b.test.face.placed walk.testPos)
  let opening := start.turn walk.opened ((Chain.opFace .lbrace).placed walk.lbrace)
  let inside := start.turn walk.line.named (b.line.target.face.placed walk.line.namePos)
  have hfirst : next start = .ok () first := next_hands walk.word
  have htesting : next first = .ok () testing := next_hands walk.test
  have hopening : next testing = .ok () opening := next_hands walk.opens
  have hinside : next opening = .ok () inside := next_hands walk.line.target
  have hbody {body : List Stmt} {closing : Reader}
      (hstmts : Grammar.stmts (.ofDepth (walk.branched.bound + 1)) true inside = .ok body closing) :
      ∃ bad stop defined last, body = .bad bad stop :: defined ∧
        List.Forall₂ Definition.IsReadAs b.rest defined ∧ AtLastBrace closing last ∧
        last.errors = [walk.line.error] := by
    obtain ⟨bad, stop, defined, hread, hall, hkind, hclosed, hlimit, herrors⟩ :=
      walk.rounds_run hmixed hauto hopened hlt hbehind walk.line.target hmax rfl hstmts
    obtain ⟨ended, endPos, hsemicolon, hended⟩ :=
      hclosed.hands_break hmixed (by rintro g ⟨⟩; rfl)
    have hends : ∃ ending, next closing = .ok () ending ∧ ending.token.kind = .semicolon ∧
        next ending = .ok () _ :=
      ⟨_, next_hands hsemicolon, rfl, next_hands (hended.hands_end hmixed)⟩
    exact ⟨bad, stop, defined, _, hread, hall,
      ⟨isFull_eq_of_unlimited hlimit, hkind, hends, rfl⟩, herrors⟩
  obtain ⟨body, closing, hstmts, hlast, rfl⟩ :=
    source_branch hrun hfirst hmax rfl htesting rfl hopening rfl hinside fun _ _ hstmts =>
      let ⟨_, _, _, last, _, _, hlast, _⟩ := hbody hstmts
      ⟨last, hlast⟩
  obtain ⟨bad, stop, defined, last, rfl, hall, hbrace, herrors⟩ := hbody hstmts
  obtain rfl := hlast.unique hbrace
  have herror := walk.error_eq hopened hpos (Cursor.reaches_start ..).name_eq
  exact ⟨_, _, hrun, ⟨_, _, _, _, _, _, _, rfl, hall⟩, herrors.trans (congrArg ([·]) herror)⟩

end BrokenBlock

namespace FileSet

/-- The first line of a block is the definition of a name as another, with pieces behind it that do
not belong there. Then the block stays open: it has a mark for the line, the definitions behind the
line, and nothing else is wrong. So pieces between braces are skipped as a whole, if they are behind
the place where the semicolon is missing. -/
theorem parse_brokenBlock {set : FileSet} {name : String} {options : ParseOptions}
    (hmixed : options.scan.mixed = false) (hauto : options.scan.noAutoSemicolons = false)
    (hmax : options.maxErrors = 0) (b : BrokenBlock) :
    ∃ parsed later s, set.parse name (Glyph.ofBytes (utf8 b.text)) options = .ok (parsed, later) ∧
      parsed.errors = [b.error name] ∧ parsed.document.stmts = [s] ∧ b.IsReadAs s := by
  obtain ⟨s, whole, hrun, hread, herrors⟩ :=
    BrokenBlock.source_run hmixed hauto hmax set name b
  rw [show Glyph.ofBytes (utf8 b.text) = Glyph.ofText b.text from Glyph.ofBytes_toUTF8 _]
  obtain ⟨later, hparse⟩ := parse_eq_ok_iff_source.2 ⟨_, whole, hrun, rfl⟩
  refine ⟨_, later, s.shift set.base, hparse, ?_, rfl, hread.shift _⟩
  rw [herrors, Diagnostic.sort, List.mergeSort_singleton]

/-- A name too many before braces. -/
example :
    let text := "if c \x7b\na := b c \x7b b 1 \x7d\nb := 1\n\x7d\n"
    (match Parse.source (reader {} "main" (Glyph.ofText text) { maxErrors := 0 }) with
      | .ok stmts r => some (r.errors, printFile stmts)
      | .error _ _ => none) =
        some ([⟨⟨"main", 14, 2, 8⟩, .expected ";" "c"⟩], "if c \x7b<bad statement>; b := 1\x7d\n") := by
  decide +kernel

end FileSet

end TemplateScript
