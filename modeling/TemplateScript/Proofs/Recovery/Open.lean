import TemplateScript.Proofs.Cursor.OnLine
import TemplateScript.Proofs.Layout.Lexical
import TemplateScript.Proofs.Recovery.Block
import TemplateScript.Proofs.Recovery.Closed

/-!
# Blocks that stay open

The lines of a block whose brackets are closed are read one behind the other, and the block ends at
its own brace. So a line that cannot be read keeps to itself: definitions before and behind it are
read as if it were not there. A brace on a line makes the difference, if it was read before the line
turned out to be wrong.
-/

namespace TemplateScript

open Parse Grammar

/-! ### Tokens of a source -/

/-- No token of a text begins before an earlier one has ended. -/
theorem Cursor.ordered_scanAll (file : SourceFile) (options : ScanOptions) (text : String) :
    (start file options (Glyph.ofBytes (utf8 text))).scanAll.2.Pairwise fun t u =>
      t.stop ≤ u.pos := by
  obtain ⟨tokens, htokens, ⟨_, -, -, htiles⟩, -⟩ :=
    cuts_scanToEnd (start_options file options _) (isText_start file options text)
      (poolInner_start file options _) (weight_lt_bound _)
  rw [start_pool, List.nil_append] at htokens
  rw [scanAll, htokens]
  exact htiles.ordered

/-! ### Lines of a block -/

/-- The tokens of a definition. -/
def Definition.faces (d : Definition) : List Token.Face :=
  [d.target.face, Chain.opFace .define, ⟨.int, d.value.text⟩]

/-- The statements are what a line is read as, as far as that is known: a definition is read as
itself. -/
def Token.Face.AreReadAs (line : List Token.Face) (part : List Stmt) : Prop :=
  ∀ d : Definition, line = d.faces → ∃ s, part = [s] ∧ d.IsReadAs s

theorem Token.Face.AreReadAs.shift {line : List Token.Face} {part : List Stmt}
    (h : AreReadAs line part) (n : Nat) : AreReadAs line (shiftStmts n part) := by
  intro d hline
  obtain ⟨s, rfl, hs⟩ := h d hline
  exact ⟨s.shift n, rfl, hs.shift n⟩

namespace Grammar

variable {deep : Nested} {r later : Reader} {limit : Nat} {list read : List Stmt}

/-- A definition is read by one round. -/
theorem stmtsRound_definition (deep : Nested) (list : List Stmt) {d : Definition}
    {inner behind : List Token} {semicolon t : Token}
    (hr : r.Supplied (inner ++ semicolon :: t :: behind)) (hinner : inner.map Token.face = d.faces)
    (hsemicolon : semicolon.kind = .semicolon) :
    ∃ s later, d.IsReadAs s ∧ stmtsRound deep true list r = .ok (.again (s :: list)) later ∧
      later.Supplied (t :: behind) := by
  obtain ⟨a, _, rfl, ha, hrest⟩ := List.map_eq_cons_iff.1 hinner
  obtain ⟨b, _, rfl, hb, hrest⟩ := List.map_eq_cons_iff.1 hrest
  obtain ⟨c, _, rfl, hc, hrest⟩ := List.map_eq_cons_iff.1 hrest
  obtain rfl := List.map_eq_nil_iff.1 hrest
  obtain ⟨named, hnamed, hnamedSupplied⟩ := hr.next
  obtain ⟨valuing, hvaluing, hvaluingSupplied⟩ := hnamedSupplied.next
  obtain ⟨ending, hending, hendingSupplied⟩ := hvaluingSupplied.next
  obtain ⟨later, hlater, hlaterSupplied⟩ := hendingSupplied.next
  obtain rfl := hr.token_eq
  obtain rfl := hnamedSupplied.token_eq
  obtain rfl := hvaluingSupplied.token_eq
  obtain rfl := hendingSupplied.token_eq
  have hkind : r.token.kind = .ident := congrArg Token.Face.kind ha
  obtain ⟨s, hs, hstmt⟩ := stmt_definition hkind (congrArg Token.Face.literal ha) hnamed
    (congrArg Token.Face.kind hb) hvaluing (congrArg Token.Face.kind hc)
    (congrArg Token.Face.literal hc) hending hsemicolon hlater
  have hcode : s.isCodeEnd = false := by
    obtain ⟨_, _, _, rfl⟩ := hs
    rfl
  exact ⟨s, later, hs, stmtsRound_stmt hr.maxErrors_eq hkind hstmt hcode, hlaterSupplied⟩

/-- The rounds of a block that begin on a line with closed brackets come to behind the line. A
definition takes one of them. -/
theorem rounds_closed (depth : Nat) {inner behind : List Token} {semicolon t : Token}
    (hr : r.Supplied (inner ++ semicolon :: t :: behind)) (hsemicolon : semicolon.kind = .semicolon)
    (hclosed : Token.Kind.AreClosed (inner.map (·.kind))) (hpos : ∀ u ∈ inner, u.stop ≤ t.pos)
    (hrun : rounds (stmtsRound (.ofDepth depth) true) limit list r = .ok read later) :
    ∃ (part : List Stmt) (n : Nat) (passed : Reader),
      Token.Face.AreReadAs (inner.map Token.face) part ∧ passed.Supplied (t :: behind) ∧
      rounds (stmtsRound (.ofDepth depth) true) n (part.reverse ++ list) passed =
        .ok read later := by
  by_cases hdefinition : ∃ d : Definition, inner.map Token.face = d.faces
  · obtain ⟨d, hd⟩ := hdefinition
    obtain ⟨s, passed, -, hround, hpassed⟩ :=
      stmtsRound_definition (.ofDepth depth) list hr hd hsemicolon
    cases limit with
    | zero => cases hrun
    | succ limit =>
      rw [rounds_again hround] at hrun
      refine ⟨[s], limit, passed, fun d' hd' => ?_, hpassed, hrun⟩
      obtain ⟨s', _, hs', hround', -⟩ :=
        stmtsRound_definition (.ofDepth depth) list hr hd' hsemicolon
      cases hround.symm.trans hround'
      exact ⟨s, rfl, hs'⟩
  · let line : CodeLine := ⟨semicolon, t, behind, hsemicolon⟩
    have hon : line.On [] r := by
      obtain ⟨waiting, htokens, -⟩ := hr.supply
      exact ⟨waiting, htokens ▸ .of_append hclosed hpos, htokens ▸ hr⟩
    obtain ⟨part, n, passed, hpassed, hlast⟩ :=
      line.rounds_line (Nested.stays_ofDepth _ depth) hon hrun
    refine ⟨part.reverse, n, passed, fun d hd => absurd ⟨d, hd⟩ hdefinition, hpassed, ?_⟩
    rwa [List.reverse_reverse]

/-- The lines of a block are read one behind the other, up to its brace. -/
theorem rounds_lines (depth : Nat) (lines : List (List Token.Face)) {tokens behind : List Token}
    {rbrace : Token} (hr : r.Supplied (tokens ++ rbrace :: behind))
    (htokens : tokens.map Token.face = lines.flatMap (· ++ [.lineBreak]))
    (hrbrace : rbrace.kind = .rbrace)
    (hclosed : ∀ line ∈ lines, Token.Kind.AreClosed (line.map (·.kind)))
    (hordered : (tokens ++ rbrace :: behind).Pairwise fun t u => t.stop ≤ u.pos)
    (hrun : rounds (stmtsRound (.ofDepth depth) true) limit list r = .ok read later) :
    ∃ parts, List.Forall₂ Token.Face.AreReadAs lines parts ∧ read = list.reverse ++ parts.flatten ∧
      later.Supplied (rbrace :: behind) := by
  induction lines generalizing r tokens limit list with
  | nil =>
    obtain rfl := List.map_eq_nil_iff.1 htokens
    have hkind : r.token.kind = .rbrace := hr.token_eq ▸ hrbrace
    cases limit with
    | zero => cases hrun
    | succ limit =>
      rw [rounds, bind_run_ok (stmtsRound_brace hkind)] at hrun
      cases hrun
      exact ⟨[], .nil, (List.append_nil _).symm, hr⟩
  | cons line lines ih =>
    rw [List.flatMap_cons, List.append_assoc] at htokens
    obtain ⟨inner, _, rfl, rfl, hline⟩ := List.map_eq_append_iff.1 htokens
    obtain ⟨semicolon, rest, rfl, hsemicolon, hrest⟩ := List.map_eq_cons_iff.1 hline
    rw [List.append_assoc, List.cons_append] at hr hordered
    obtain ⟨t, more, hmore⟩ : ∃ t more, rest ++ rbrace :: behind = t :: more := by
      cases rest with
      | nil => exact ⟨_, _, rfl⟩
      | cons t rest => exact ⟨t, _, rfl⟩
    obtain ⟨hfirst, hlines⟩ := List.forall_mem_cons.1 hclosed
    rw [List.map_map] at hfirst
    obtain ⟨-, htail, hbefore⟩ := List.pairwise_append.1 hordered
    have hbehind := (List.pairwise_cons.1 htail).2
    rw [hmore] at hr hbefore
    have hpos : ∀ u ∈ inner, u.stop ≤ t.pos :=
      fun u hu => hbefore u hu t (List.mem_cons_of_mem _ List.mem_cons_self)
    obtain ⟨part, n, passed, hpart, hpassed, hlast⟩ :=
      rounds_closed depth hr (congrArg Token.Face.kind hsemicolon) hfirst hpos hrun
    obtain ⟨parts, hparts, rfl, hend⟩ := ih (hmore ▸ hpassed) hrest hlines hbehind hlast
    exact ⟨part :: parts, .cons hpart hparts, by simp, hend⟩

/-- The block that the lines are in ends at the last brace of the source, and no brace was found
without its match. -/
theorem stmts_lines (depth : Nat) (lines : List (List Token.Face)) {tokens : List Token}
    {rbrace semicolon eof : Token} (hr : r.Supplied (tokens ++ [rbrace, semicolon, eof]))
    (htokens : tokens.map Token.face = lines.flatMap (· ++ [.lineBreak]))
    (hrbrace : rbrace.kind = .rbrace) (hsemicolon : semicolon.kind = .semicolon)
    (heof : eof.kind = .eof)
    (hclosed : ∀ line ∈ lines, Token.Kind.AreClosed (line.map (·.kind)))
    (hordered : (tokens ++ [rbrace, semicolon, eof]).Pairwise fun t u => t.stop ≤ u.pos)
    (hrun : Grammar.stmts (.ofDepth depth) true r = .ok read later) :
    ∃ parts last, List.Forall₂ Token.Face.AreReadAs lines parts ∧ read = parts.flatten ∧
      AtLastBrace later last ∧ ∀ d ∈ last.errors, d.cause ≠ .unmatchedBrace := by
  obtain ⟨parts, hparts, hflat, hlater⟩ :=
    rounds_lines depth lines hr htokens hrbrace hclosed hordered hrun
  obtain ⟨ending, hending, hendingSupplied⟩ := hlater.next
  obtain ⟨last, hlast, hlastSupplied⟩ := hendingSupplied.next
  obtain rfl := hlater.token_eq
  obtain rfl := hendingSupplied.token_eq
  obtain rfl := hlastSupplied.token_eq
  exact ⟨parts, last, hparts, hflat,
    ⟨hlater.isFull_eq, hrbrace, ⟨ending, hending, hsemicolon, hlast⟩, heof⟩,
    hlastSupplied.matched⟩

end Grammar

namespace FileSet

/-- The tokens of a branch without an `else`, whose block is made of lines. -/
def branchFaces (test : String) (lines : List (List Token.Face)) : List Token.Face :=
  [⟨.ifWord, "if"⟩, ⟨.ident, test⟩, Chain.opFace .lbrace] ++
    (lines.flatMap (· ++ [.lineBreak]) ++ [Chain.opFace .rbrace, .lineBreak, ⟨.eof, ""⟩])

section

variable {set : FileSet} {name text test : String} {options : ParseOptions}
  {lines : List (List Token.Face)} {tokens : List Token}

/-- On lines with closed brackets there are no comments. -/
theorem kind_ne_comment (htokens : tokens.map Token.face = branchFaces test lines)
    (hclosed : ∀ line ∈ lines, Token.Kind.AreClosed (line.map (·.kind))) :
    ∀ t ∈ tokens, t.kind ≠ .comment := by
  have hface : ∀ f ∈ branchFaces test lines, f.kind ≠ .comment := by
    intro f hf hcomment
    simp only [branchFaces, Chain.opFace, Token.Face.lineBreak, List.mem_append, List.mem_cons,
      List.mem_flatMap, List.not_mem_nil, or_false] at hf
    rcases hf with (rfl | rfl | rfl) | (⟨line, hline, hf | rfl⟩ | rfl | rfl | rfl)
    · cases hcomment
    · cases hcomment
    · cases hcomment
    · exact Token.Kind.not_lineBreaker_of_foldlM (hclosed line hline) f.kind
        (List.mem_map_of_mem hf) (hcomment ▸ by decide)
    all_goals cases hcomment
  exact fun t ht => hface t.face (htokens ▸ List.mem_map_of_mem ht)

/-- Before the first token of a source without errors, all its tokens are supplied. -/
theorem supplied_reader {glyphs : List Glyph} (hmax : options.maxErrors = 0)
    (herrors : (set.reader name glyphs options).cursor.scanAll.1.errors = [])
    (hcomment : ∀ t ∈ (set.reader name glyphs options).cursor.scanAll.2, t.kind ≠ .comment) :
    (set.reader name glyphs options).Supplied ((set.reader name glyphs options).token ::
      (set.reader name glyphs options).cursor.scanAll.2) := by
  have hfile : (set.newFile name glyphs).Lined := rfl
  have hlined := Cursor.lined_start hfile options.scan glyphs
  exact ⟨hmax, List.forall_mem_nil _, _, rfl,
    Cursor.supplies_scanToEnd hlined (Cursor.start_taken ..) herrors hcomment⟩

/-- The source of a branch without an `else` is one without errors up to its tokens, and its block
is made of lines with closed brackets. Then the block stays open up to its brace, whatever is wrong
with the lines: no brace is found without its match, the branch is all there is, and its statements
are those of its lines, one line behind the other. Each definition among the lines is read as
itself. -/
theorem parse_closedLines (hmax : options.maxErrors = 0)
    (herrors : (set.reader name (Glyph.ofBytes (utf8 text)) options).cursor.scanAll.1.errors = [])
    (htokens : (set.reader name (Glyph.ofBytes (utf8 text)) options).cursor.scanAll.2.map
      Token.face = branchFaces test lines)
    (hclosed : ∀ line ∈ lines, Token.Kind.AreClosed (line.map (·.kind))) :
    ∃ parsed later pos testPos lbrace parts rbrace,
      set.parse name (Glyph.ofBytes (utf8 text)) options = .ok (parsed, later) ∧
      (∀ d ∈ parsed.errors, d.cause ≠ .unmatchedBrace) ∧
      parsed.document.stmts =
        [.ifElse pos none (.ident ⟨test, testPos⟩) ⟨lbrace, parts.flatten, rbrace⟩ none] ∧
      List.Forall₂ Token.Face.AreReadAs lines parts := by
  have hglyphs : Glyph.ofBytes (utf8 text) = Glyph.ofText text := Glyph.ofBytes_toUTF8 text
  have hstart := supplied_reader hmax herrors (kind_ne_comment htokens hclosed)
  have hordered : (set.reader name (Glyph.ofBytes (utf8 text)) options).cursor.scanAll.2.Pairwise
      fun t u => t.stop ≤ u.pos :=
    Cursor.ordered_scanAll _ _ text
  generalize (set.reader name (Glyph.ofBytes (utf8 text)) options).cursor.scanAll.2 = tokens
    at hstart hordered htokens
  obtain ⟨opening, _, rfl, hopening, hbody⟩ := List.map_eq_append_iff.1 htokens
  obtain ⟨body, ending, rfl, hlines, hending⟩ := List.map_eq_append_iff.1 hbody
  obtain ⟨word, _, rfl, hword, hopening⟩ := List.map_eq_cons_iff.1 hopening
  obtain ⟨ident, _, rfl, hident, hopening⟩ := List.map_eq_cons_iff.1 hopening
  obtain ⟨lbrace, _, rfl, hlbrace, hopening⟩ := List.map_eq_cons_iff.1 hopening
  obtain rfl := List.map_eq_nil_iff.1 hopening
  obtain ⟨rbrace, _, rfl, hrbrace, hending⟩ := List.map_eq_cons_iff.1 hending
  obtain ⟨semicolon, _, rfl, hsemicolon, hending⟩ := List.map_eq_cons_iff.1 hending
  obtain ⟨eof, _, rfl, heof, hending⟩ := List.map_eq_cons_iff.1 hending
  obtain rfl := List.map_eq_nil_iff.1 hending
  obtain ⟨stmts, whole, hrun⟩ := source_text set name text options
  rw [← hglyphs] at hrun
  obtain ⟨first, hfirst, hfirstSupplied⟩ := hstart.next
  obtain ⟨branching, hbranching, hbranchingSupplied⟩ := hfirstSupplied.next
  obtain ⟨testing, htesting, htestingSupplied⟩ := hbranchingSupplied.next
  have hbehind : body ++ [rbrace, semicolon, eof] ≠ [] := by simp
  obtain ⟨inside, hinside, hinsideSupplied⟩ := htestingSupplied.next_of_ne hbehind
  obtain rfl := hfirstSupplied.token_eq
  obtain rfl := hbranchingSupplied.token_eq
  obtain rfl := htestingSupplied.token_eq
  have hread {read : List Stmt} {closing : Reader}
      (hstmts : Grammar.stmts (.ofDepth (first.cursor.bound + 1)) true inside = .ok read closing) :=
    stmts_lines _ lines hinsideSupplied hlines (congrArg Token.Face.kind hrbrace)
      (congrArg Token.Face.kind hsemicolon) (congrArg Token.Face.kind heof) hclosed
      (List.pairwise_append.1 hordered).2.1 hstmts
  obtain ⟨read, closing, hstmts, hbrace, rfl⟩ :=
    source_branch hrun hfirst hfirstSupplied.maxErrors_eq (congrArg Token.Face.kind hword)
      hbranching (congrArg Token.Face.kind hident) htesting (congrArg Token.Face.kind hlbrace)
      hinside fun _ _ hstmts =>
        let ⟨_, last, _, _, hlast, _⟩ := hread hstmts
        ⟨last, hlast⟩
  obtain ⟨parts, last, hparts, rfl, hlast, hmatched⟩ := hread hstmts
  obtain rfl := hbrace.unique hlast
  obtain ⟨later, hparse⟩ := parse_eq_ok_iff_source.2 ⟨_, whole, hrun, rfl⟩
  have hname : branching.token.literal = test := congrArg Token.Face.literal hident
  refine ⟨_, later, first.token.pos + set.base, branching.token.pos + set.base,
    testing.token.pos + set.base, parts.map (shiftStmts set.base), closing.token.pos + set.base,
    hparse, fun d hd => hmatched d ((Diagnostic.sort_perm _).mem_iff.1 hd), ?_, ?_⟩
  · rw [← shiftStmts_flatten, ← hname]
    rfl
  · exact List.forall₂_map_right_iff.2 (hparts.imp fun _ _ h => h.shift set.base)

end

/-- A line with a name too many in its parentheses, behind which a word begins a statement. -/
theorem parse_closedLines_paren :
    let text := "if c \x7b\nx := (a b return c)\ny := 1\n\x7d\n"
    let glyphs := Glyph.ofBytes (utf8 text)
    let wrong : List Token.Face := [⟨.ident, "x"⟩, Chain.opFace .define, Chain.opFace .lparen,
      ⟨.ident, "a"⟩, ⟨.ident, "b"⟩, ⟨.returnWord, "return"⟩, ⟨.ident, "c"⟩, Chain.opFace .rparen]
    let right : List Token.Face := [⟨.ident, "y"⟩, Chain.opFace .define, ⟨.int, "1"⟩]
    let scanned := (reader {} "main" glyphs { maxErrors := 0 }).cursor.scanAll
    scanned.1.errors = [] ∧ scanned.2.map Token.face = branchFaces "c" [wrong, right] ∧
      (∀ line ∈ [wrong, right], Token.Kind.AreClosed (line.map (·.kind))) ∧
      ∃ parsed later pos testPos lbrace before target define value rbrace,
        FileSet.parse {} "main" glyphs { maxErrors := 0 } = .ok (parsed, later) ∧
        (∀ d ∈ parsed.errors, d.cause ≠ .unmatchedBrace) ∧
        parsed.document.stmts = [.ifElse pos none (.ident ⟨"c", testPos⟩) ⟨lbrace, before ++
          [.assign [.ident ⟨"y", target⟩] .define define [.literal ⟨.int 1, "1", value⟩]],
          rbrace⟩ none] := by
  intro text glyphs wrong right scanned
  have herrors : scanned.1.errors = [] := by decide +kernel
  have htokens : scanned.2.map Token.face = branchFaces "c" [wrong, right] := by decide +kernel
  have hclosed : ∀ line ∈ [wrong, right], Token.Kind.AreClosed (line.map (·.kind)) := by decide
  obtain ⟨parsed, later, pos, testPos, lbrace, parts, rbrace, hparse, hmatched, hstmts, hparts⟩ :=
    parse_closedLines rfl herrors htokens hclosed
  let y : Definition :=
    ⟨⟨"y", by decide +kernel, by decide +kernel⟩, ⟨"1", by decide +kernel⟩, .int 1,
      by decide +kernel⟩
  refine ⟨herrors, htokens, hclosed, parsed, later, pos, testPos, lbrace, ?_⟩
  cases hparts with
  | @cons _ before _ _ _ hrest =>
    cases hrest with
    | cons hright hnone =>
      cases hnone
      obtain ⟨_, rfl, target, define, value, rfl⟩ := hright y rfl
      exact ⟨before, target, define, value, rbrace, hparse, hmatched, by simpa using hstmts⟩

/-- A branch that ends with a mark for its first line, and an assignment behind it. -/
def isCutBranch : List Stmt → Bool
  | [.ifElse _ none _ ⟨_, [.bad _ _], _⟩ none, .assign ..] => true
  | _ => false

/-- Behind a brace that has been read, a line that cannot be read closes its block, although each
brace of it is closed on the line. The brace that was to close the block closes nothing then. -/
theorem parse_closedLines_dict :
    let line := "x := \x7ba b\x7d"
    let branch := "if c \x7b\nx := \x7ba b\x7d\ny := 1\n\x7d\n"
    let parse (text : String) := FileSet.parse {} "main" (Glyph.ofText text) { maxErrors := 0 }
    let file := newFile {} "main" (Glyph.ofText line)
    let scanned := (Cursor.start file {} (Glyph.ofText line)).scanAll
    scanned.2.map (·.kind) =
        [.ident, .define, .lbrace, .ident, .ident, .rbrace, .semicolon, .eof] ∧
      scanned.1.errors = [] ∧
      (∃ parsed later, parse line = .ok (parsed, later) ∧ parsed.errors ≠ []) ∧
      ∃ parsed later, parse branch = .ok (parsed, later) ∧
        .unmatchedBrace ∈ parsed.errors.map (·.cause) ∧
        ∃ pos test lbrace bad stop rbrace targets op opPos values,
          parsed.document.stmts =
            [.ifElse pos none test ⟨lbrace, [.bad bad stop], rbrace⟩ none,
              .assign targets op opPos values] := by
  intro line branch parse file scanned
  let causes (r : Reader) : List Cause := r.errors.map (·.cause)
  have hcauses {r : Reader} : (Diagnostic.sort r.errors).map (·.cause) |>.Perm (causes r) :=
    (Diagnostic.sort_perm r.errors).map _
  refine ⟨by decide +kernel, by decide +kernel, ?_, ?_⟩
  · obtain ⟨stmts, whole, hrun⟩ := source_text {} "main" line { maxErrors := 0 }
    have hwrong : (match Parse.source (reader {} "main" (Glyph.ofText line) { maxErrors := 0 }) with
        | .ok _ r => causes r
        | .error _ _ => []) = [.expected ":" "b"] := by
      decide +kernel
    rw [hrun] at hwrong
    have hcause : causes whole = [.expected ":" "b"] := hwrong
    obtain ⟨later, hparse⟩ := parse_eq_ok_iff_source.2 ⟨_, whole, hrun, rfl⟩
    refine ⟨_, later, hparse, fun hnone => ?_⟩
    have hperm := hcauses (r := whole)
    rw [show Diagnostic.sort whole.errors = [] from hnone, hcause] at hperm
    cases hperm.nil_eq
  · obtain ⟨stmts, whole, hrun⟩ := source_text {} "main" branch { maxErrors := 0 }
    have hread : (match
          Parse.source (reader {} "main" (Glyph.ofText branch) { maxErrors := 0 }) with
        | .ok stmts r => (causes r, isCutBranch (shiftStmts 1 stmts))
        | .error _ _ => ([], false)) = ([.expected ":" "b", .unmatchedBrace], true) := by
      decide +kernel
    rw [hrun] at hread
    obtain ⟨hwrong, hcut⟩ := Prod.mk.inj hread
    obtain ⟨later, hparse⟩ := parse_eq_ok_iff_source.2 ⟨_, whole, hrun, rfl⟩
    refine ⟨_, later, hparse, ?_, ?_⟩
    · exact hcauses.mem_iff.2 (hwrong ▸ List.mem_cons_of_mem _ (List.mem_singleton_self _))
    · simp only [isCutBranch] at hcut
      split at hcut
      · next heq => exact ⟨_, _, _, _, _, _, _, _, _, _, heq⟩
      · cases hcut

end FileSet

end TemplateScript
