import TemplateScript.Proofs.Cursor.Onward
import TemplateScript.Proofs.Cursor.Shift
import TemplateScript.Proofs.Cursor.HasText

/-!
# A pragma line before a source

A source may begin with a pragma line. All tokens of the line are read at once, the same ones
whatever follows it, and then the cursor stands where the next line begins.
-/

namespace TemplateScript

/-- The options behind a pragma line. What the line does not set stays as it was. -/
def ScanOptions.after (o : ScanOptions) (set : PragmaOptions) : ScanOptions :=
  { o with
    mixed := set.mixed.getD o.mixed
    floatsAsDecimal := set.floatsAsDecimal.getD o.floatsAsDecimal
    charAsString := set.charAsString.getD o.charAsString
    valueSugar := set.valueSugar.getD o.valueSugar
    delimiters :=
      ⟨(set.opening.filter (· ≠ "")).getD o.delimiters.opening,
        (set.closing.filter (· ≠ "")).getD o.delimiters.closing⟩ }

namespace Glyph

/-- The glyph may stand anywhere in a source. -/
def IsFit (g : Glyph) : Prop := ∃ ch, g = .char ch ∧ ch ≠ Cursor.byteOrderMark

end Glyph

namespace Cursor

variable {c : Cursor} {g : Glyph} {rest : List Glyph}

/-! ### Moving through a line -/

theorem advance_cons (hrest : c.rest = g :: rest) :
    c.advance = arrive { c.leave g with rest, offset := c.offset + g.width } := by
  unfold advance
  rw [hrest]

theorem advance_inLine (hrest : c.rest = g :: rest) (hg : g ≠ .char '\n')
    (hfit : ∀ g ∈ rest.head?, g.IsFit) :
    c.advance = { c with rest, offset := c.offset + g.width } := by
  have hleave : c.leave g = c := if_neg hg
  rw [advance_cons hrest, hleave]
  exact arrive_fit hfit

theorem advance_lineBreak (hrest : c.rest = .char '\n' :: rest)
    (hfit : ∀ g ∈ rest.head?, g.IsFit) :
    c.advance = { c with
      rest
      offset := c.offset + 1
      lineStart := c.offset + 1
      file := c.file.addLine (c.offset + 1) } := by
  have hleave : c.leave (.char '\n') =
      { c with lineStart := c.offset + 1, file := c.file.addLine (c.offset + 1) } := if_pos rfl
  rw [advance_cons hrest, hleave]
  exact arrive_fit hfit

theorem advanceBy_inLine {n : Nat} (hbreak : ∀ g ∈ c.rest.take n, g ≠ .char '\n')
    (hfit : ∀ g ∈ (c.rest.drop 1).take n, g.IsFit) :
    c.advanceBy n =
      { c with rest := c.rest.drop n, offset := c.offset + Glyph.widths (c.rest.take n) } := by
  induction n generalizing c with
  | zero => rfl
  | succ n ih =>
    cases hrest : c.rest with
    | nil =>
      have hstays : c.advance = c := by
        unfold advance
        rw [hrest]
      rw [advanceBy, hstays, ih (by simp [hrest]) (by simp [hrest]), hrest]
      simp
    | cons g rest =>
      rw [hrest] at hbreak hfit
      obtain ⟨hg, hbreak⟩ := List.forall_mem_cons.1 hbreak
      have hhead : ∀ g ∈ rest.head?, g.IsFit := fun g hg => by
        obtain ⟨tail, rfl⟩ := List.head?_eq_some_iff.1 hg
        exact hfit g (by simp)
      have htail : ∀ g ∈ (rest.drop 1).take n, g.IsFit := fun g hg => by
        refine hfit g ?_
        cases rest with
        | nil => simp at hg
        | cons g' rest => exact List.mem_cons_of_mem _ hg
      rw [advanceBy, advance_inLine hrest hg hhead, ih hbreak htail]
      simp only [List.drop_succ_cons, List.take_succ_cons, Glyph.widths, Nat.add_assoc]

/-- What is not reported is fit to stand where it stands. -/
theorem fit_of_advance_errors (hrest : c.rest = g :: rest) (herrors : c.advance.errors = []) :
    ∀ g ∈ rest.head?, g.IsFit := by
  intro g' hg'
  obtain ⟨tail, rfl⟩ := List.head?_eq_some_iff.1 hg'
  have hpos : 0 < c.offset + g.width := Nat.add_pos_right _ g.width_pos
  unfold advance at herrors
  rw [hrest] at herrors
  unfold arrive at herrors
  cases g' with
  | byte b => simp [report] at herrors
  | char ch =>
    refine ⟨ch, rfl, fun hmark => ?_⟩
    dsimp only at herrors
    rw [if_pos ⟨hmark, hpos⟩] at herrors
    simp [report] at herrors

theorem fit_of_advanceBy_errors {n : Nat} (herrors : (c.advanceBy n).errors = []) :
    ∀ g ∈ (c.rest.drop 1).take n, g.IsFit := by
  induction n generalizing c with
  | zero => simp
  | succ n ih =>
    have hgrow := (reaches_advanceBy n c.advance).errors_grow
    rw [advanceBy] at herrors
    rw [herrors] at hgrow
    have hrest := ih herrors
    rw [advance_rest] at hrest
    cases hc : c.rest with
    | nil => simp
    | cons g rest =>
      rw [hc, List.tail_cons] at hrest
      have hhead := fit_of_advance_errors hc (List.prefix_nil.1 hgrow)
      cases rest with
      | nil => simp
      | cons g' rest =>
        exact List.forall_mem_cons.2 ⟨hhead g' rfl, hrest⟩

/-- Most sources begin with nothing special. -/
theorem start_fit {file : SourceFile} {options : ScanOptions} {glyphs : List Glyph}
    (hfit : ∀ g ∈ glyphs.head?, g.IsFit) :
    start file options glyphs = { file, options, rest := glyphs, inText := options.mixed } := by
  have harrive : arrive { file, options, rest := glyphs, inText := options.mixed } =
      { file, options, rest := glyphs, inText := options.mixed } := arrive_fit hfit
  unfold start
  rw [harrive]
  dsimp only
  rw [if_neg]
  intro hmark
  obtain ⟨ch, hch, hne⟩ := hfit _ hmark
  cases hch
  exact hne rfl

/-! ### Errors that were taken -/

theorem arrive_taken (c : Cursor) : c.arrive.taken = c.taken := by
  unfold arrive
  split
  · rfl
  · split <;> rfl
  · rfl

theorem advance_taken (c : Cursor) : c.advance.taken = c.taken := by
  unfold advance
  split
  · rfl
  · rw [arrive_taken]
    unfold leave
    split <;> rfl

theorem advanceBy_taken (n : Nat) (c : Cursor) : (c.advanceBy n).taken = c.taken := by
  induction n generalizing c with
  | zero => rfl
  | succ n ih => rw [advanceBy, ih, advance_taken]

theorem pragma_taken (c : Cursor) (head : Nat) : (c.pragma head).1.taken = c.taken := by
  rw [pragma_eq]
  change (c.pragmaLast head).advance.taken = c.taken
  rw [advance_taken, pragmaLast, advanceBy_taken]

/-! ### Options -/

/-- Nothing before the cursor counts for what is behind it. -/
structure IsFresh (c : Cursor) : Prop where
  inText_eq : c.inText = c.options.mixed
  inValue_eq : c.inValue = false
  pending_eq : c.pending = false
  nesting_eq : c.nesting = {}

theorem IsFresh.setMixed_eq (h : c.IsFresh) (on : Bool) :
    c.setMixed on = { c with options := { c.options with mixed := on }, inText := on } := by
  obtain ⟨file, options, rest, offset, lineStart, pending, inText, inValue, trimNext, nesting, pool,
    errors, taken⟩ := c
  obtain ⟨hinText, hinValue, hpending, hnesting⟩ := h
  dsimp only at hinText hinValue hpending hnesting
  subst hinText hinValue hpending hnesting
  unfold setMixed
  split
  · next hon =>
    subst hon
    rfl
  · rfl

/-- A pragma line in front of which nothing else counts leaves its options and nothing else. -/
theorem IsFresh.apply_eq (h : c.IsFresh) (set : PragmaOptions) :
    c.apply set =
      { c with options := c.options.after set, inText := (c.options.after set).mixed } := by
  obtain ⟨mixed, opening, closing, floats, chars, sugar⟩ := set
  have hfresh : (c.setDelimiters opening closing).IsFresh := { h with }
  have hset : mixed.elim (c.setDelimiters opening closing)
      (c.setDelimiters opening closing).setMixed =
        { c.setDelimiters opening closing with
          options := { (c.setDelimiters opening closing).options with
            mixed := mixed.getD c.options.mixed }
          inText := mixed.getD c.options.mixed } := by
    cases mixed with
    | none =>
      change c.setDelimiters opening closing =
        { c.setDelimiters opening closing with inText := c.options.mixed }
      rw [← h.inText_eq]
      rfl
    | some on => exact hfresh.setMixed_eq on
  unfold apply
  dsimp only
  rw [hset]
  cases floats <;> cases chars <;> cases sugar <;> rfl

end Cursor

/-! ### The glyphs of the line -/

/-- A pragma line, in parts. -/
structure PragmaText where
  blanks : List Glyph
  body : List Glyph
  isBlank : ∀ g ∈ blanks, g.isTabOrSpace = true
  inLine : ∀ g ∈ body, g ≠ .char '\n' ∧ g ≠ .char ';'

namespace PragmaText

variable (p : PragmaText)

/-- The line up to its body. -/
def head : List Glyph := .char '#' :: (p.blanks ++ Glyph.ofText pragmaMarker)

/-- The line with its break. -/
def line : List Glyph := p.head ++ p.body ++ [.char '\n']

/-- How many bytes are before the break. -/
def stop : Nat := Glyph.widths (p.head ++ p.body)

theorem widths_line : Glyph.widths p.line = p.stop + 1 := Glyph.widths_append _ _

theorem line_ne : ∀ g ∈ p.head ++ p.body, g ≠ .char '\n' := by
  have hmarker : ∀ g ∈ Glyph.ofText pragmaMarker, g ≠ .char '\n' := by decide
  intro g hg
  rcases List.mem_append.1 hg with hg | hg
  · rcases List.mem_cons.1 hg with rfl | hg
    · decide
    · rcases List.mem_append.1 hg with hg | hg
      · rintro rfl
        exact absurd (p.isBlank _ hg) (by decide)
      · exact hmarker g hg
  · exact (p.inLine g hg).1

theorem line_append (more : List Glyph) :
    p.line ++ more = p.head ++ (p.body ++ .char '\n' :: more) := by
  simp [line]

theorem length_head : p.head.length = 1 + p.blanks.length + pragmaMarker.length := by
  have hmarker : (Glyph.ofText pragmaMarker).length = pragmaMarker.length := by decide
  rw [head, List.length_cons, List.length_append, hmarker]
  omega

theorem drop_head (more : List Glyph) :
    (p.line ++ more).drop p.head.length = p.body ++ .char '\n' :: more := by
  rw [line_append, List.drop_left]

theorem pragmaHead?_line (more : List Glyph) :
    Cursor.pragmaHead? (p.line ++ more) = some p.head.length := by
  have hblanks : Glyph.countWhile Glyph.isTabOrSpace
      (p.blanks ++ (Glyph.ofText pragmaMarker ++ (p.body ++ .char '\n' :: more))) =
        p.blanks.length := by
    unfold Glyph.countWhile
    rw [List.takeWhile_append_of_pos p.isBlank]
    have hstop : (Glyph.ofText pragmaMarker ++ (p.body ++ .char '\n' :: more)).takeWhile
        Glyph.isTabOrSpace = [] := rfl
    rw [hstop, List.append_nil]
  have hmarker : Glyph.startsWith (Glyph.ofText pragmaMarker ++ (p.body ++ .char '\n' :: more))
      pragmaMarker = true := by
    unfold Glyph.startsWith
    rw [Bool.and_eq_true, List.isPrefixOf_iff_prefix]
    exact ⟨by decide, List.prefix_append _ _⟩
  rw [length_head, line_append, head, List.cons_append, List.append_assoc]
  unfold Cursor.pragmaHead?
  dsimp only
  rw [hblanks, List.drop_left, if_pos ⟨rfl, hmarker⟩]

theorem countUntil_body (more : List Glyph) :
    Glyph.countUntil Cursor.endsPragma (p.body ++ .char '\n' :: more) = p.body.length := by
  have hbody := p.inLine
  generalize p.body = body at hbody
  induction body with
  | nil => rfl
  | cons g rest ih =>
    obtain ⟨hg, hrest⟩ := List.forall_mem_cons.1 hbody
    have hstop : Cursor.endsPragma (g :: (rest ++ .char '\n' :: more)) = false := by
      simp [Cursor.endsPragma, hg.1, hg.2]
    rw [List.cons_append, Glyph.countUntil, hstop, ih hrest]
    rfl

/-! ### The tokens of the line -/

variable {p} {file : SourceFile} {options : ScanOptions} {more : List Glyph}

/-- The token before the body of the line. -/
def opening (p : PragmaText) : Token := ⟨.pragmaStart, Glyph.text p.head, 0, {}⟩

/-- The token behind the body of the line. -/
def closing (p : PragmaText) : Token := ⟨.pragmaEnd, "", p.stop, {}⟩

/-- The cursor at the start of a source that begins with the line. -/
def cursor (p : PragmaText) (file : SourceFile) (options : ScanOptions) (more : List Glyph) :
    Cursor :=
  { file, options, rest := p.line ++ more, inText := options.mixed }

/-- The cursor at the start of the body of the line. -/
def bodyCursor (p : PragmaText) (file : SourceFile) (options : ScanOptions) : Cursor :=
  Cursor.arrive {
    file
    options := { options with
      comments := false, noAutoSemicolons := true, mixed := false, noPragma := true }
    rest := p.body
    offset := Glyph.widths p.head
    inText := options.mixed }

theorem start_eq :
    Cursor.start file options (p.line ++ more) = p.cursor file options more := by
  refine Cursor.start_fit fun g hg => ?_
  rw [line_append] at hg
  exact ⟨'#', (Option.some.inj hg).symm, by decide⟩

theorem pragmaLine?_cursor (p : PragmaText) (file : SourceFile) (more : List Glyph)
    (h : options.noPragma = false) :
    (p.cursor file options more).pragmaLine? = some p.head.length := by
  unfold Cursor.pragmaLine?
  rw [if_neg (by simp [cursor, h])]
  exact p.pragmaHead?_line more

theorem pragmaBody_cursor :
    (p.cursor file options more).pragmaBody p.head.length =
      (p.bodyCursor file options).bodyTokens := by
  have hdrop : (p.cursor file options more).rest.drop p.head.length =
      p.body ++ .char '\n' :: more := p.drop_head more
  have hsize : (p.cursor file options more).bodySize p.head.length = p.body.length := by
    rw [Cursor.bodySize, hdrop, countUntil_body]
  have htake : (p.cursor file options more).rest.take p.head.length = p.head := by
    rw [cursor, line_append, List.take_left]
  unfold Cursor.pragmaBody Cursor.bodyStart
  rw [hsize, hdrop, htake, List.take_left, show (p.cursor file options more).offset = 0 from rfl,
    Nat.zero_add]
  rfl

/-- The first token of the source is the first one of the line, and the others of the line wait. -/
theorem scan_cursor (p : PragmaText) (file : SourceFile) (more : List Glyph)
    (h : options.noPragma = false) :
    let read := (p.cursor file options more).pragma p.head.length
    (p.cursor file options more).scan = ({ read.1 with pool := read.2.2 }, read.2.1) := by
  have hhead := pragmaLine?_cursor p file more h
  have hrest : (p.cursor file options more).rest =
      .char '#' :: (p.blanks ++ Glyph.ofText pragmaMarker ++ (p.body ++ .char '\n' :: more)) := by
    rw [cursor, line_append, head, List.cons_append]
  have htext : (p.cursor file options more).templateText =
      (p.cursor file options more).pragma p.head.length := by
    have hrun : (p.cursor file options more).textRun = (0, false) := by
      have hpragma := p.pragmaHead?_line more
      rw [show p.line ++ more = _ from hrest] at hpragma
      unfold Cursor.textRun
      rw [hrest, Cursor.textExtent, hpragma]
      simp [cursor, h]
    have hend : (p.cursor file options more).textEnd = p.cursor file options more := by
      rw [Cursor.textEnd, hrun]
      rfl
    have hkept : (p.cursor file options more).textKept = [] := by
      rw [Cursor.textKept, hrun, List.take_zero, List.drop_nil]
    rw [Cursor.templateText_eq, hend, hhead, hkept]
    simp [Cursor.textToken?]
  have hcode (hmixed : options.mixed = false) : (p.cursor file options more).code =
      (p.cursor file options more).pragma p.head.length := by
    have hblanks : (p.cursor file options more).skipBlanks = p.cursor file options more := by
      unfold Cursor.skipBlanks
      rw [hrest]
      rfl
    have hcodeEnd : (p.cursor file options more).codeEnd? = none := by
      unfold Cursor.codeEnd? Cursor.isDelimited
      simp [cursor, hmixed]
    rw [Cursor.code_eq, hblanks, hcodeEnd, hhead]
  unfold Cursor.scan
  rw [show (p.cursor file options more).pool = [] from rfl,
    show (p.cursor file options more).inText = options.mixed from rfl]
  cases hmixed : options.mixed with
  | true => rw [if_pos rfl, htext]
  | false => rw [if_neg Bool.false_ne_true, hcode hmixed]

/-- The cursor before the break of the line was moved there. -/
theorem pragmaLast_cursor :
    (p.cursor file options more).pragmaLast p.head.length =
      Cursor.advanceBy (p.head ++ p.body).length { p.cursor file options more with
        errors := (p.bodyCursor file options).bodyTokens.1.errors } := by
  have hsize : (p.cursor file options more).bodySize p.head.length = p.body.length := by
    rw [Cursor.bodySize, show (p.cursor file options more).rest = p.line ++ more from rfl,
      drop_head, countUntil_body]
  rw [Cursor.pragmaLast, pragmaBody_cursor, hsize, List.length_append]

theorem tail_line (more : List Glyph) :
    ((p.line ++ more).drop 1).take (p.head ++ p.body).length = p.line.tail := by
  have hlength : (p.head ++ p.body).length = p.line.tail.length := by
    simp [line]
  have hne : p.line ≠ [] := List.cons_ne_nil _ _
  rw [List.drop_one, List.tail_append_of_ne_nil hne, hlength, List.take_left]

/-- Behind the line, the cursor stands where the next one begins. -/
theorem pragma_cursor (hline : ∀ g ∈ p.line.tail, g.IsFit) (hmore : ∀ g ∈ more.head?, g.IsFit) :
    (p.cursor file options more).pragma p.head.length =
      ({ p.cursor file options more with
          rest := more
          offset := p.stop + 1
          lineStart := p.stop + 1
          file := file.addLine (p.stop + 1)
          errors := (p.bodyCursor file options).bodyTokens.1.errors },
        p.opening, (p.bodyCursor file options).bodyTokens.2 ++ [p.closing]) := by
  have hrest : p.line ++ more = p.head ++ p.body ++ .char '\n' :: more := by
    rw [line_append, List.append_assoc]
  have hlast : (p.cursor file options more).pragmaLast p.head.length =
      { p.cursor file options more with
        rest := .char '\n' :: more
        offset := p.stop
        errors := (p.bodyCursor file options).bodyTokens.1.errors } := by
    rw [pragmaLast_cursor, Cursor.advanceBy_inLine]
    · simp only [cursor, hrest, List.drop_left, List.take_left, Nat.zero_add, stop]
    · simp only [cursor, hrest, List.take_left]
      exact p.line_ne
    · simp only [cursor, tail_line]
      exact hline
  rw [Cursor.pragma_eq, hlast, pragmaBody_cursor, Cursor.advance_lineBreak rfl hmore]
  simp only [cursor, opening, closing, line_append, List.take_left]

/-- If nothing is found wrong on the way through the line, it is fit to stand in a source. -/
theorem line_fit
    (herrors : ((p.cursor file options more).pragma p.head.length).1.errors = []) :
    (∀ g ∈ p.line.tail, g.IsFit) ∧ (p.bodyCursor file options).bodyTokens.1.errors = [] := by
  rw [Cursor.pragma_eq, pragmaLast_cursor] at herrors
  have hlast := (Cursor.reaches_advance (Cursor.advanceBy (p.head ++ p.body).length
    { p.cursor file options more with
      errors := (p.bodyCursor file options).bodyTokens.1.errors })).errors_grow
  rw [show Cursor.errors _ = [] from herrors] at hlast
  have hgrow := (Cursor.reaches_advanceBy (p.head ++ p.body).length
    { p.cursor file options more with
      errors := (p.bodyCursor file options).bodyTokens.1.errors }).errors_grow
  rw [List.prefix_nil.1 hlast] at hgrow
  have hfit := Cursor.fit_of_advanceBy_errors (List.prefix_nil.1 hlast)
  rw [show Cursor.rest _ = p.line ++ more from rfl, tail_line] at hfit
  exact ⟨hfit, List.prefix_nil.1 hgrow⟩

/-! ### What is behind the line -/

/-- The tokens in the body of the line begin in the line. -/
theorem bodyTokens_pos_le : ∀ t ∈ (p.bodyCursor file options).bodyTokens.2, t.pos ≤ p.stop := by
  have hstart : (p.bodyCursor file options).offset + Glyph.widths (p.bodyCursor file options).rest =
      p.stop := by
    unfold bodyCursor stop
    rw [(Cursor.reaches_arrive _).end_eq, Glyph.widths_append]
  obtain ⟨hreaches, hpos⟩ := Cursor.bodyTokens_pos (p.bodyCursor file options)
  have hend := hreaches.end_eq
  exact fun t ht => Nat.le_trans (hpos t ht) (Nat.le.intro (hend.trans hstart))

/-- What is behind the line does not count for its tokens. -/
theorem bodyTokens_behind (p : PragmaText) (options : ScanOptions) (hfile : file.Lined)
    (behind : Nat) :
    let whole := { file with size := file.size + behind }
    (p.bodyCursor whole options).bodyTokens.2 = (p.bodyCursor file options).bodyTokens.2 ∧
      ((p.bodyCursor file options).bodyTokens.1.errors = [] →
        (p.bodyCursor whole options).bodyTokens.1.errors = []) := by
  let s : Setting := { starts := [], gap := 0, behind, starts_le := Setting.no_starts_le }
  let c : Cursor := {
    file
    options := { options with
      comments := false, noAutoSemicolons := true, mixed := false, noPragma := true }
    rest := p.body
    offset := Glyph.widths p.head
    inText := options.mixed }
  have hreads : s.Reads c := ⟨hfile, fun _ h => (p.inLine _ h).1 rfl⟩
  have hwhole : s.file file = { file with size := file.size + behind } := by
    simp [Setting.file, s]
  have hcursor : p.bodyCursor { file with size := file.size + behind } options =
      s.cursor (p.bodyCursor file options) := by
    have hpos : 0 < Glyph.widths p.head := Nat.add_pos_left (Glyph.width_pos _) _
    rw [← hwhole]
    exact Setting.arrive_cursor hreads (.inl hpos)
  have hbody : s.Reads (p.bodyCursor file options) := hreads.reaches (Cursor.reaches_arrive c)
  dsimp only
  rw [hcursor, Setting.bodyTokens_cursor hbody]
  refine ⟨List.map_id' _, fun herrors => ?_⟩
  simp [Setting.cursor, herrors]

end PragmaText

end TemplateScript
