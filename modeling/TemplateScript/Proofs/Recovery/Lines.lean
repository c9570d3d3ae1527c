import TemplateScript.Proofs.Diagnostic.Limit
import TemplateScript.Proofs.Diagnostic.Lines
import TemplateScript.Proofs.Recovery.FirstLine

/-!
# Lines among lines that cannot be read

Of lines, each is read as one statement or cannot be read since an operand is missing. A line that
cannot be read costs one statement and one diagnostic, and takes nothing from the lines around it.
-/

namespace TemplateScript

/-- The statement stands for something that could not be read. -/
def Stmt.isBad : Stmt → Bool
  | .bad .. => true
  | _ => false

theorem Stmt.WellFormed.isBad_eq {line : Pos → Nat} {s : Stmt} (h : s.WellFormed line) :
    s.isBad = false := by
  cases s with
  | bad => exact absurd h.here id
  | _ => rfl

theorem Stmt.isBad_shift (n : Nat) (s : Stmt) : (s.shift n).isBad = s.isBad := by
  cases s <;> rfl

/-- Diagnostics for later and later lines of one file are in order. -/
theorem Diagnostic.sort_of_lines {list : List Diagnostic} {name : String}
    (hname : ∀ d ∈ list, d.place.file = name)
    (hlines : list.Pairwise fun d e => d.place.line < e.place.line) : sort list = list := by
  refine List.mergeSort_of_pairwise (hlines.imp_of_mem fun {d e} hd he hlt => ?_)
  unfold order
  rw [hname d hd, hname e he, Std.ReflOrd.compare_self, compare_lt_iff_lt.2 hlt]
  rfl

/-! ### Lines -/

/-- A line that is read as one statement by itself, with nothing wrong in it, and that a semicolon
ends. -/
structure GoodLine (set : FileSet) (name : String) (options : ParseOptions) where
  text : String
  stmt : Stmt
  oneLine : OneLine text
  parse_eq : ∃ parsed later,
    set.parse name (Glyph.ofBytes (utf8 text)) options = .ok (parsed, later) ∧
      parsed.errors = [] ∧ parsed.document.stmts = [stmt]
  lastKind_eq : (Cursor.start (set.newFile name (Glyph.ofBytes (utf8 text))) options.scan
    (Glyph.ofBytes (utf8 text))).lastKind? = some .semicolon

/-- A line that is read as one statement, or that cannot be read. -/
inductive Line (set : FileSet) (name : String) (options : ParseOptions) where
  | good (line : GoodLine set name options)
  | broken (line : BrokenLine)

variable {set : FileSet} {name : String} {options : ParseOptions}

namespace GoodLine

/-- What the reader of a line makes of it. -/
theorem source_eq (line : GoodLine set name options) :
    ∃ s last, Parse.source (set.reader name (Glyph.ofText line.text) options) = .ok [s] last ∧
      last.errors = [] ∧ line.stmt = s.shift set.base := by
  obtain ⟨parsed, later, hparse, herrors, hstmts⟩ := line.parse_eq
  rw [show Glyph.ofBytes (utf8 line.text) = _ from Glyph.ofBytes_toUTF8 _] at hparse
  obtain ⟨stmts, last, hrun, rfl⟩ := FileSet.parse_eq_ok_iff_source.1 ⟨later, hparse⟩
  have hshifted : shiftStmts set.base stmts = [line.stmt] := hstmts
  rw [shiftStmts_eq_map] at hshifted
  obtain ⟨s, rfl, hs⟩ := List.map_eq_singleton_iff.1 hshifted
  exact ⟨s, last, hrun, Diagnostic.sort_eq_nil.1 herrors, hs.symm⟩

/-- Nothing of the line could not be read. -/
theorem isBad_eq (line : GoodLine set name options) : line.stmt.isBad = false := by
  obtain ⟨parsed, later, hparse, herrors, hstmts⟩ := line.parse_eq
  have hfile := FileSet.parse_eq_ok_iff.1 ⟨later, hparse⟩
  have hformed := SourceFile.parse_wellFormed rfl hfile herrors
  exact (hformed line.stmt (hstmts ▸ List.mem_singleton_self _)).isBad_eq

end GoodLine

namespace Line

/-- The text of a line. -/
def text : Line set name options → String
  | good line => line.text
  | broken line => line.text

/-- The line cannot be read. -/
def isBroken : Line set name options → Bool
  | good _ => false
  | broken _ => true

/-- The statement is what a line that begins at an offset is read as. -/
def IsReadAs (offset : Nat) : Line set name options → Stmt → Prop
  | good line, s => s = line.stmt.shift offset
  | broken _, s => ∃ stop, s = .bad (set.base + offset) stop

/-- What is found wrong with a line that begins at an offset, behind other lines: an operand is
missing where the closing bracket stands. -/
def error? (offset before : Nat) : Line set name options → Option Diagnostic
  | good _ => none
  | broken line =>
    some ⟨⟨name, offset + line.gap, before + 1, line.gap + 1⟩, .expectedOperand line.first.text⟩

end Line

/-- A line of a file, where it begins, and how many lines are before it. -/
structure PlacedLine (set : FileSet) (name : String) (options : ParseOptions) where
  offset : Nat
  before : Nat
  line : Line set name options

namespace PlacedLine

variable {n m : Nat}

/-- The statement is what the line is read as. -/
def IsReadAs (p : PlacedLine set name options) (s : Stmt) : Prop := p.line.IsReadAs p.offset s

/-- What is found wrong with the line. -/
def error? (p : PlacedLine set name options) : Option Diagnostic := p.line.error? p.offset p.before

/-- The line further on. -/
def shift (n m : Nat) (p : PlacedLine set name options) : PlacedLine set name options :=
  { p with offset := p.offset + n, before := p.before + m }

/-- Lines from an offset on, with lines before them. -/
def ofLines (offset before : Nat) : List (Line set name options) → List (PlacedLine set name options)
  | [] => []
  | line :: rest =>
    ⟨offset, before, line⟩ :: ofLines (offset + line.text.utf8ByteSize + 1) (before + 1) rest

theorem ofLines_shift (n m : Nat) (lines : List (Line set name options)) (offset before : Nat) :
    (ofLines offset before lines).map (shift n m) = ofLines (offset + n) (before + m) lines := by
  induction lines generalizing offset before with
  | nil => rfl
  | cons line rest ih =>
    rw [ofLines, ofLines, List.map_cons, ih, Nat.add_right_comm _ n, Nat.add_right_comm _ n,
      Nat.add_right_comm _ m]
    rfl

theorem ofLines_map_line (lines : List (Line set name options)) (offset before : Nat) :
    (ofLines offset before lines).map line = lines := by
  induction lines generalizing offset before with
  | nil => rfl
  | cons line rest ih => rw [ofLines, List.map_cons, ih]

theorem le_before_of_mem {lines : List (Line set name options)} {offset before : Nat}
    {p : PlacedLine set name options} (hp : p ∈ ofLines offset before lines) :
    before ≤ p.before := by
  induction lines generalizing offset before with
  | nil => cases hp
  | cons line rest ih =>
    rcases List.mem_cons.1 hp with rfl | hp
    · exact Nat.le_refl _
    · exact Nat.le_of_succ_le (ih hp)

theorem ofLines_pairwise (lines : List (Line set name options)) (offset before : Nat) :
    (ofLines offset before lines).Pairwise fun p q => p.before < q.before := by
  induction lines generalizing offset before with
  | nil => exact .nil
  | cons line rest ih => exact List.pairwise_cons.2 ⟨fun _ hp => le_before_of_mem hp, ih _ _⟩

theorem IsReadAs.shift {p : PlacedLine set name options} {s : Stmt} (h : p.IsReadAs s) :
    (p.shift n m).IsReadAs (s.shift n) := by
  obtain ⟨offset, before, line | line⟩ := p
  · obtain rfl := h
    exact line.stmt.shift_shift offset n
  · obtain ⟨stop, rfl⟩ := h
    exact ⟨stop + n, by simp only [Stmt.shift, Nat.add_assoc]; rfl⟩

theorem IsReadAs.isBad_eq {p : PlacedLine set name options} {s : Stmt} (h : p.IsReadAs s) :
    s.isBad = p.line.isBroken := by
  obtain ⟨offset, before, line | line⟩ := p
  · obtain rfl := h
    rw [Stmt.isBad_shift, line.isBad_eq]
    rfl
  · obtain ⟨stop, rfl⟩ := h
    rfl

theorem error?_shift (p : PlacedLine set name options) :
    (p.shift n m).error? = p.error?.map (·.shift n m) := by
  obtain ⟨offset, before, line | line⟩ := p
  · rfl
  · simp only [error?, Line.error?, shift, Option.map_some, Diagnostic.shift, Place.shift]
    rw [Nat.add_right_comm offset, Nat.add_right_comm before]

theorem errors_shift (list : List (PlacedLine set name options)) :
    (list.map (shift n m)).filterMap error? = (list.filterMap error?).map (·.shift n m) := by
  rw [List.filterMap_map, List.map_filterMap]
  exact congrArg (list.filterMap ·) (funext error?_shift)

theorem length_errors (list : List (PlacedLine set name options)) :
    (list.filterMap error?).length = (list.map line).countP Line.isBroken := by
  rw [List.length_filterMap_eq_countP, List.countP_map]
  refine congrArg (list.countP ·) (funext fun p => ?_)
  obtain ⟨offset, before, line | line⟩ := p <;> rfl

theorem map_isBad {list : List (PlacedLine set name options)} {stmts : List Stmt}
    (h : List.Forall₂ IsReadAs list stmts) :
    stmts.map Stmt.isBad = (list.map line).map Line.isBroken := by
  induction h with
  | nil => rfl
  | cons hs _ ih => rw [List.map_cons, List.map_cons, List.map_cons, hs.isBad_eq, ih]

/-- What is found wrong with lines is found in the order of the lines. -/
theorem sort_errors {lines : List (Line set name options)} {offset before : Nat}
    {list : List Diagnostic} (hlist : list.Sublist ((ofLines offset before lines).filterMap error?)) :
    Diagnostic.sort list = list := by
  have hplace {p : PlacedLine set name options} {d : Diagnostic} (hd : p.error? = some d) :
      d.place.file = name ∧ d.place.line = p.before + 1 := by
    obtain ⟨offset, before, line | line⟩ := p
    · cases hd
    · obtain rfl := Option.some.inj hd
      exact ⟨rfl, rfl⟩
  have hname : ∀ d ∈ list, d.place.file = name := by
    intro d hd
    obtain ⟨p, -, hp⟩ := List.mem_filterMap.1 (hlist.subset hd)
    exact (hplace hp).1
  refine Diagnostic.sort_of_lines hname (.sublist hlist ?_)
  refine (ofLines_pairwise lines offset before).filterMap _ fun p q hlt d hd e he => ?_
  rw [(hplace hd).2, (hplace he).2]
  exact Nat.succ_lt_succ hlt

end PlacedLine

namespace Line

variable (hcode : options.scan.IsCode) (hauto : options.scan.noAutoSemicolons = false)
  (hmax : options.maxErrors = 0)

theorem oneLine : ∀ line : Line set name options, OneLine line.text
  | good line => line.oneLine
  | broken line => line.oneLine

/-- The text of lines, with line breaks between them. -/
def joined (lines : List (Line set name options)) : String := "\n".intercalate (lines.map text)

theorem joined_cons {line : Line set name options} {rest : List (Line set name options)}
    (hrest : rest ≠ []) : joined (line :: rest) = line.text ++ "\n" ++ joined rest := by
  rw [joined, List.map_cons, String.intercalate_cons_of_ne_nil (List.map_eq_nil_iff.not.2 hrest)]
  rfl

theorem isFit_joined (lines : List (Line set name options)) :
    ∀ g ∈ Glyph.ofText (joined lines), g.IsFit := by
  induction lines with
  | nil => exact nofun
  | cons line rest ih =>
    cases rest with
    | nil =>
      rw [joined, List.map_singleton, String.intercalate_singleton]
      exact line.oneLine.isFit
    | cons other rest =>
      rw [joined_cons (List.cons_ne_nil other rest)]
      have hbreak : ∀ g ∈ Glyph.ofText "\n", g.IsFit :=
        List.forall_mem_singleton.2 ⟨'\n', rfl, by decide⟩
      rw [Glyph.ofText_append, Glyph.ofText_append]
      exact List.forall_mem_append.2
        ⟨List.forall_mem_append.2 ⟨line.oneLine.isFit, hbreak⟩, ih⟩

include hcode hauto hmax

/-- A line by itself is read as one statement. -/
theorem source_alone (line : Line set name options) :
    ∃ s whole, Parse.source (set.reader name (Glyph.ofText line.text) options) = .ok [s] whole ∧
      line.IsReadAs 0 (s.shift set.base) ∧ whole.errors = (line.error? 0 0).toList := by
  cases line with
  | good line =>
    obtain ⟨s, whole, hrun, herrors, hs⟩ := line.source_eq
    refine ⟨s, whole, hrun, ?_, herrors⟩
    rw [IsReadAs, hs, s.shift_shift, Nat.add_zero]
  | broken line =>
    obtain ⟨stop, whole, hrun, herrors⟩ :=
      BrokenLine.source_alone hcode.mixed_eq hauto hmax set name line
    refine ⟨_, whole, hrun, ⟨stop + set.base, ?_⟩, ?_⟩
    · rw [Stmt.shift, Nat.zero_add]
      rfl
    · rw [herrors, error?, BrokenLine.error, Nat.zero_add]
      rfl

/-- A line before a text is read as one statement, and the text as it is alone. -/
theorem source_joined (line : Line set name options) {rest : String}
    (hfit : ∀ g ∈ Glyph.ofText rest, g.IsFit) {more : List Stmt} {r : Reader}
    (hrest : Parse.source (set.reader name (Glyph.ofText rest) options) = .ok more r) :
    let n := line.text.utf8ByteSize + 1
    ∃ s whole, Parse.source (set.reader name (Glyph.ofText (line.text ++ "\n" ++ rest)) options) =
        .ok (s :: shiftStmts n more) whole ∧
      line.IsReadAs 0 (s.shift set.base) ∧
      whole.errors = (line.error? 0 0).toList ++ r.errors.map (·.shift n 1) := by
  intro n
  have hhead : rest.toList.head? ≠ some Cursor.byteOrderMark := by
    intro hmark
    have hmem : Glyph.char Cursor.byteOrderMark ∈ Glyph.ofText rest :=
      List.mem_map_of_mem (List.mem_of_mem_head? hmark)
    obtain ⟨ch, heq, hne⟩ := hfit _ hmem
    exact hne (Glyph.char.inj heq).symm
  let j : JoinedSource :=
    { set, name, options, isCode := hcode, first := line.text, rest, head_ne := hhead }
  cases line with
  | good line =>
    obtain ⟨s, last, hfirst, herrors, hs⟩ := line.source_eq
    have hlast : (j.reader j.first).cursor.lastKind? = some .semicolon := by
      have hkind := line.lastKind_eq
      rwa [show Glyph.ofBytes (utf8 line.text) = _ from Glyph.ofBytes_toUTF8 _] at hkind
    have hlines : j.lines = 1 := j.lines_of_oneLine line.oneLine
    obtain ⟨whole, hrun, hwrong⟩ := JoinedSource.source_joined (j := j) hfirst herrors hlast hrest
    refine ⟨s.shift 0, whole, hrun, ?_, hlines ▸ hwrong⟩
    rw [IsReadAs, hs, s.shift_shift, s.shift_shift, Nat.zero_add, Nat.add_zero]
  | broken line =>
    obtain ⟨stop, whole, hrun, herrors⟩ :=
      BrokenLine.source_joined (j := j) rfl hauto hmax hfit hrest
    refine ⟨_, whole, hrun, ⟨stop + set.base, ?_⟩, ?_⟩
    · rw [Stmt.shift, Nat.zero_add]
      rfl
    · rw [herrors, error?, BrokenLine.error, Nat.zero_add]
      rfl

/-- Every line is read as one statement. -/
theorem source_lines (lines : List (Line set name options)) :
    ∃ stmts whole, Parse.source (set.reader name (Glyph.ofText (joined lines)) options) =
        .ok stmts whole ∧
      List.Forall₂ PlacedLine.IsReadAs (PlacedLine.ofLines 0 0 lines)
        (shiftStmts set.base stmts) ∧
      whole.errors = (PlacedLine.ofLines 0 0 lines).filterMap PlacedLine.error? := by
  induction lines with
  | nil =>
    obtain ⟨whole, hrun, herrors⟩ := PragmaSource.source_nil set name options
    exact ⟨[], whole, hrun, .nil, herrors⟩
  | cons line rest ih =>
    by_cases hrest : rest = []
    · subst hrest
      obtain ⟨s, whole, hrun, hs, herrors⟩ := source_alone hcode hauto hmax line
      rw [joined, List.map_singleton, String.intercalate_singleton]
      refine ⟨_, whole, hrun, .cons hs .nil, ?_⟩
      rw [herrors, PlacedLine.ofLines, List.filterMap_cons]
      cases line <;> rfl
    · obtain ⟨more, r, hmore, hread, hwrong⟩ := ih
      obtain ⟨s, whole, hrun, hs, herrors⟩ :=
        source_joined hcode hauto hmax line (isFit_joined rest) hmore
      rw [joined_cons hrest]
      have hplaced := PlacedLine.ofLines_shift (line.text.utf8ByteSize + 1) 1 rest 0 0
      rw [Nat.zero_add, Nat.zero_add] at hplaced
      have hshifted : shiftStmts set.base (shiftStmts (line.text.utf8ByteSize + 1) more) =
          (shiftStmts set.base more).map (·.shift (line.text.utf8ByteSize + 1)) := by
        rw [← shiftStmts_eq_map, shiftStmts_shift, shiftStmts_shift, Nat.add_comm]
      rw [PlacedLine.ofLines, Nat.zero_add, Nat.zero_add, ← hplaced]
      refine ⟨_, whole, hrun, ?_, ?_⟩
      · rw [shiftStmts, hshifted]
        refine .cons hs (List.forall₂_map_left_iff.2 (List.forall₂_map_right_iff.2 ?_))
        exact hread.imp fun _ _ h => h.shift
      · rw [herrors, hwrong, List.filterMap_cons, PlacedLine.errors_shift]
        cases line <;> rfl

end Line

namespace FileSet

/-- Of lines, each is read as one statement by itself and ends in a semicolon, or it defines a name
and has a closing bracket where the value should begin. Together they are read line by line: there
is one statement for each line, the one that the line is read as by itself if it is, and a bad one
if it is not. For each line that cannot be read one thing is wrong, an operand that is missing where
the bracket stands, and under a limit that many of them are returned, the first ones. -/
theorem parse_lines {set : FileSet} {name : String} {options : ParseOptions}
    (hmixed : options.scan.mixed = false) (hpragma : options.scan.noPragma = true)
    (hauto : options.scan.noAutoSemicolons = false) (hmax : options.maxErrors = 0)
    (lines : List (Line set name options)) :
    let bytes := utf8 ("\n".intercalate (lines.map Line.text))
    ∃ parsed later, set.parse name (Glyph.ofBytes bytes) options = .ok (parsed, later) ∧
      List.Forall₂ PlacedLine.IsReadAs (PlacedLine.ofLines 0 0 lines) parsed.document.stmts ∧
      parsed.document.stmts.map Stmt.isBad = lines.map Line.isBroken ∧
      parsed.errors = (PlacedLine.ofLines 0 0 lines).filterMap PlacedLine.error? ∧
      ∀ limit, 0 < limit → ∃ capped later', set.parse name (Glyph.ofBytes bytes)
          { options with maxErrors := limit } = .ok (capped, later') ∧
        capped.errors = parsed.errors.take limit ∧
        capped.errors.length = min limit (lines.countP Line.isBroken) := by
  intro bytes
  have hglyphs : Glyph.ofBytes bytes = Glyph.ofText (Line.joined lines) := Glyph.ofBytes_toUTF8 _
  rw [hglyphs]
  obtain ⟨stmts, whole, hrun, hread, herrors⟩ :=
    Line.source_lines ⟨hmixed, hpragma⟩ hauto hmax lines
  obtain ⟨later, hparse⟩ := parse_eq_ok_iff_source.2 ⟨_, whole, hrun, rfl⟩
  have hsorted {list : List Diagnostic} (hlist : list.Sublist whole.errors) :
      Diagnostic.sort list = list :=
    PlacedLine.sort_errors (herrors ▸ hlist)
  have hall : Diagnostic.sort whole.errors = whole.errors := hsorted (.refl _)
  refine ⟨_, later, hparse, hread, ?_, hall.trans herrors, fun limit hlimit => ?_⟩
  · exact (PlacedLine.map_isBad hread).trans (by rw [PlacedLine.ofLines_map_line])
  · obtain ⟨few, capped, hcapped⟩ :=
      source_text set name (Line.joined lines) { options with maxErrors := limit }
    obtain ⟨later', hparse'⟩ := parse_eq_ok_iff_source.2 ⟨_, capped, hcapped, rfl⟩
    have hunlimited : Parse.source (SourceFile.reader (Cursor.start
        (set.newFile name (Glyph.ofText (Line.joined lines))) options.scan
        (Glyph.ofText (Line.joined lines))) 0) = .ok stmts whole := hmax ▸ hrun
    obtain ⟨hfirst, -⟩ := SourceFile.source_limited hlimit hunlimited hcapped
    have hfew : Diagnostic.sort capped.errors = whole.errors.take limit :=
      hfirst.symm ▸ hsorted (List.take_sublist limit _)
    refine ⟨_, later', hparse', hfew.trans (congrArg _ hall.symm), ?_⟩
    rw [show (Parsed.mk _ (Diagnostic.sort capped.errors) _).errors = _ from hfew,
      List.length_take, herrors, PlacedLine.length_errors, PlacedLine.ofLines_map_line]

/-- Two lines that cannot be read, and the same call between and behind them. -/
theorem parse_lines_example :
    let options : ParseOptions := { scan := { noPragma := true }, maxErrors := 0 }
    let x : Template.Name := ⟨"x", by decide +kernel, by decide +kernel⟩
    let y : Template.Name := ⟨"y", by decide +kernel, by decide +kernel⟩
    let first : BrokenLine := ⟨x, .paren, [.name y]⟩
    let second : BrokenLine := ⟨y, .brack, [.int ⟨"0x1F", by decide +kernel⟩, .closer .paren]⟩
    ∃ call : GoodLine {} "main" options, call.text = "f(a)" ∧
      let lines : List (Line {} "main" options) :=
        [.broken first, .good call, .broken second, .good call]
      let bytes := utf8 "x := ) y\nf(a)\ny := ] 0x1F )\nf(a)"
      ∃ parsed later, FileSet.parse {} "main" (Glyph.ofBytes bytes) options = .ok (parsed, later) ∧
        List.Forall₂ PlacedLine.IsReadAs (PlacedLine.ofLines 0 0 lines) parsed.document.stmts ∧
        parsed.document.stmts.map Stmt.isBad = [true, false, true, false] ∧
        parsed.errors = [⟨⟨"main", 5, 1, 6⟩, .expectedOperand ")"⟩,
          ⟨⟨"main", 19, 3, 6⟩, .expectedOperand "]"⟩] := by
  intro options x y first second
  have hrun : (FileSet.parse {} "main" (Glyph.ofBytes (utf8 "f(a)")) options).toOption.map
      (fun read => (read.1.errors, read.1.document.stmts.length)) = some ([], 1) := by
    decide +kernel
  have hlast : (Cursor.start (newFile {} "main" (Glyph.ofBytes (utf8 "f(a)"))) options.scan
      (Glyph.ofBytes (utf8 "f(a)"))).lastKind? = some .semicolon := by
    decide +kernel
  cases hparse : FileSet.parse {} "main" (Glyph.ofBytes (utf8 "f(a)")) options with
  | error fault =>
    rw [hparse] at hrun
    cases hrun
  | ok read =>
    rw [hparse] at hrun
    obtain ⟨herrors, hlength⟩ := Prod.mk.inj (Option.some.inj hrun)
    obtain ⟨stmt, hstmt⟩ := List.length_eq_one_iff.1 hlength
    let call : GoodLine {} "main" options :=
      { text := "f(a)", stmt, oneLine := by decide,
        parse_eq := ⟨read.1, read.2, hparse, herrors, hstmt⟩, lastKind_eq := hlast }
    refine ⟨call, rfl, ?_⟩
    intro lines bytes
    obtain ⟨parsed, later, hparsed, hread, hbad, hwrong, -⟩ :=
      parse_lines rfl rfl rfl rfl lines
    exact ⟨parsed, later, hparsed, hread, hbad, hwrong⟩

end FileSet

end TemplateScript
