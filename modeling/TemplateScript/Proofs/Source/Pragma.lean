import TemplateScript.Proofs.Agree.File
import TemplateScript.Proofs.Agree.Pragma
import TemplateScript.Proofs.Agree.Shift
import TemplateScript.Proofs.Source.Parsed
import TemplateScript.Proofs.Tree.Further

/-!
# Sources that begin with a pragma line

A pragma line at the start of a source counts for all of what is behind it and for nothing else: the
rest is read as a source of its own would be, with the options that the line leaves.

The run over the whole source is followed in phases. Its first token is that of the line. While the
others are taken, it goes along with the run over the line alone; behind the line, the options are
set and it goes along with the run over the rest alone.
-/

namespace TemplateScript

open Parse

/-- A pragma line that begins a source, which is added to a set. Pragma lines are not ignored. -/
structure PragmaSource extends PragmaText where
  set : FileSet
  name : String
  options : ParseOptions
  noPragma_eq : options.scan.noPragma = false

namespace PragmaSource

variable {p : PragmaSource} {more : List Glyph}

/-! ### The first token -/

/-- The file of the line with more behind it. -/
def fileWith (p : PragmaSource) (more : List Glyph) : SourceFile :=
  p.set.newFile p.name (p.line ++ more)

/-- The reader before the first token of the line with more behind it. -/
def readerWith (p : PragmaSource) (more : List Glyph) : Reader :=
  p.set.reader p.name (p.line ++ more) p.options

/-- The body of the line with more behind it: its tokens, and the cursor behind them. -/
def bodyRead (p : PragmaSource) (more : List Glyph) : Cursor × List Token :=
  (p.bodyCursor (p.fileWith more) p.options.scan).bodyTokens

/-- The file once the line has been read. -/
def fileBehind (p : PragmaSource) (more : List Glyph) : SourceFile :=
  (p.fileWith more).addLine (p.stop + 1)

/-- The reader that has the first token of the line in hand, while the others wait. -/
def first (p : PragmaSource) (more : List Glyph) : Reader :=
  { cursor := { p.cursor (p.fileWith more) p.options.scan more with
      rest := more
      offset := p.stop + 1
      lineStart := p.stop + 1
      file := p.fileBehind more
      pool := (p.bodyRead more).2 ++ [p.closing] }
    token := p.opening
    maxErrors := p.options.maxErrors }

/-- Nothing is wrong with the line up to its end. -/
structure IsSound (p : PragmaSource) : Prop where
  fit : ∀ g ∈ p.line.tail, g.IsFit
  errors_eq : (p.bodyRead []).1.errors = []

theorem readerWith_eq :
    p.readerWith more =
      SourceFile.reader (p.cursor (p.fileWith more) p.options.scan more) p.options.maxErrors := by
  unfold readerWith FileSet.reader
  rw [PragmaText.start_eq]
  rfl

theorem readerWith_inSource : (p.readerWith more).InSource (p.line ++ more) :=
  ⟨Cursor.inSource_start rfl rfl, Cursor.poolPlaced_start _ _ _, Nat.le_refl _⟩

/-- What is behind the line does not count for its tokens. -/
theorem bodyRead_behind (p : PragmaSource) (more : List Glyph) :
    (p.bodyRead more).2 = (p.bodyRead []).2 ∧
      ((p.bodyRead []).1.errors = [] → (p.bodyRead more).1.errors = []) := by
  have hfile : p.fileWith more =
      { p.fileWith [] with size := (p.fileWith []).size + Glyph.widths more } := by
    unfold fileWith FileSet.newFile
    rw [Glyph.widths_append, List.append_nil]
  have hbehind := p.bodyTokens_behind p.options.scan (rfl : (p.fileWith []).Lined)
    (Glyph.widths more)
  rw [← hfile] at hbehind
  exact hbehind

theorem next_first (h : p.IsSound) (hmore : ∀ g ∈ more.head?, g.IsFit) :
    next (p.readerWith more) = .ok () (p.first more) := by
  have hbody := (p.bodyRead_behind more).2 h.errors_eq
  have hscan := p.scan_cursor (p.fileWith more) more p.noPragma_eq
  unfold bodyRead at hbody
  rw [PragmaText.pragma_cursor h.fit hmore, hbody] at hscan
  rw [readerWith_eq]
  exact Reader.next_of_faultless hscan nofun rfl rfl

/-- If nothing is wrong with the first token, nothing is wrong with the line. -/
theorem isSound_of_next {r : Reader} (hrun : next (p.readerWith []) = .ok () r)
    (herrors : r.errors = []) : p.IsSound := by
  have hscan := p.scan_cursor (p.fileWith []) [] p.noPragma_eq
  have hnext := Reader.next_of_scan
    (r := SourceFile.reader (p.cursor (p.fileWith []) p.options.scan []) p.options.maxErrors)
    hscan nofun
  rw [readerWith_eq, hnext] at hrun
  cases hrun
  have hnew := Reader.newErrors_eq_nil herrors
  have htaken : ((p.cursor (p.fileWith []) p.options.scan []).pragma p.head.length).1.taken = 0 :=
    Cursor.pragma_taken _ _
  unfold Cursor.newErrors at hnew
  dsimp only at hnew
  rw [htaken, List.drop_zero] at hnew
  obtain ⟨hfit, hbody⟩ := PragmaText.line_fit hnew
  exact ⟨hfit, hbody⟩

/-- The first token is the same one with more behind the line. -/
theorem first_eq (p : PragmaSource) (more : List Glyph) :
    p.first more = (p.first []).resume more (p.fileBehind more) := by
  unfold first
  rw [(p.bodyRead_behind more).1]
  rfl

/-! ### The line alone -/

theorem opening_inner (p : PragmaSource) : p.opening.Inner (p.stop + 1) where
  kind_ne := ⟨nofun, nofun⟩
  hasText := Token.hasText_of_kind (.inl rfl)
  pos_lt := Nat.succ_pos _

theorem body_inner : ∀ t ∈ (p.bodyRead more).2, t.Inner (p.stop + 1) := by
  intro t ht
  have houter := Cursor.bodyTokens_isOuter _ t ht
  refine ⟨⟨fun h => ?_, fun h => ?_⟩, Cursor.common_hasText.bodyTokens _ t ht,
    Nat.lt_succ_of_le (PragmaText.bodyTokens_pos_le t ht)⟩
  · rw [h] at houter
    cases houter
  · rw [h] at houter
    cases houter

theorem first_isSpent : (p.first []).IsSpent where
  rest_eq := rfl
  pending_eq _ := rfl
  found_eq := rfl
  taken_eq := rfl
  errors_eq := rfl
  commentEnd_eq := rfl

theorem first_draws (h : p.IsSound) : (p.first []).Draws (p.line ++ []) (p.first []) where
  eq := rfl
  tokens := .cons p.opening_inner (.append body_inner rfl)
  inSource := by
    have hleads := next_accounts.run (readerWith_inSource : (p.readerWith []).InSource _)
    rw [next_first h (fun g (hg : g ∈ [].head?) => by cases hg)] at hleads
    exact hleads.1.inSource

theorem first_atStmt : Grammar.AtStmt (p.first more) where
  isFull_eq := by
    unfold Reader.isFull first
    cases p.options.maxErrors <;> rfl
  kind_ne := ⟨nofun, nofun⟩

/-- The statement that the line is read as, with nothing found wrong. -/
def Reads (p : PragmaSource) (s : Stmt) : Prop :=
  ∃ later, Grammar.pragma (Nested.ofDepth (p.first []).bound) (p.first []) = .ok s later ∧
    later.errors = []

/-! ### The line with more behind it -/

theorem fileBehind_nil (p : PragmaSource) : p.fileBehind [] = p.fileWith [] := by
  refine if_neg fun h => ?_
  have hsize : (p.fileWith []).size = p.stop + 1 := by
    rw [fileWith, List.append_nil]
    exact p.widths_line
  exact Nat.lt_irrefl _ (hsize ▸ h.2)

theorem fileBehind_more (p : PragmaSource) (hmore : more ≠ []) :
    p.fileBehind more = { p.fileWith more with lines := [0, p.stop + 1] } := by
  refine if_pos ⟨by simp [fileWith, FileSet.newFile], ?_⟩
  obtain ⟨g, rest, rfl⟩ := List.exists_cons_of_ne_nil hmore
  have hwidth := g.width_pos
  change p.stop + 1 < Glyph.widths (p.line ++ g :: rest)
  rw [Glyph.widths_append, p.widths_line, Glyph.widths]
  omega

/-- What stands in the line is on the first line of the file. -/
theorem place_inLine {o : Nat} (ho : o < p.stop + 1) : ((p.fileBehind more).place o).line = 1 := by
  by_cases hmore : more = []
  · rw [hmore, fileBehind_nil]
    simp [fileWith, FileSet.newFile, SourceFile.place]
  · rw [p.fileBehind_more hmore]
    simp [SourceFile.place, Nat.not_le.2 ho]

/-- The reader of the line alone goes along with one that has more behind the line. -/
theorem first_lawful (p : PragmaSource) (more : List Glyph) :
    (Reader.pooled (p.line ++ []) (p.first []) more (p.fileBehind more)).Lawful := by
  refine Reader.pooled_lawful first_isSpent ?_ fun o ho => ?_
  · change ((p.fileWith []).addLine (p.stop + 1)).size ≤
      ((p.fileWith more).addLine (p.stop + 1)).size
    rw [SourceFile.addLine_size, SourceFile.addLine_size]
    change Glyph.widths (p.line ++ []) ≤ Glyph.widths (p.line ++ more)
    rw [Glyph.widths_append, Glyph.widths_append]
    exact Nat.add_le_add_left (Nat.zero_le _) _
  · exact (place_inLine ho).trans (place_inLine ho).symm

/-- The reader at the end of the line with more behind it, once the options are set. -/
def behind (p : PragmaSource) (more : List Glyph) (changes : PragmaOptions) (last : Token) :
    Reader :=
  { p.first [] with
    token := last
    cursor := { (p.first []).cursor with
      rest := more, file := p.fileBehind more, pool := [] }.apply changes }

/-- The line is read as what its entries say, whatever is behind it. -/
theorem Reads.run {s : Stmt} (h : p.Reads s) (hsound : p.IsSound) (more : List Glyph) :
    ∃ entries changes, ∃ last : Token, s = .pragma 0 entries changes last.pos ∧
      Grammar.setOptions? entries = some changes ∧
      Grammar.stmt (Nested.ofDepth (p.first more).bound) (p.first more) = (do
        next
        return s.shift 0) (p.behind more changes last) := by
  obtain ⟨later, hrun, herrors⟩ := h
  obtain ⟨-, entries, changes, last, hs, hset, hpragma⟩ := (first_draws hsound).pragma
    first_isSpent (p.first_lawful more) (first_isSpent.bound_le more (p.fileBehind more)) hrun
    herrors
  rw [first_eq]
  exact ⟨entries, changes, last, hs, hset, hpragma⟩

/-- If nothing is found wrong with a source that is nothing but the line, the line is all that is
read of it. -/
theorem source_line {read : List Stmt} {last : Reader}
    (hrun : Parse.source (p.readerWith []) = .ok read last) (herrors : last.errors = []) :
    p.IsSound ∧ ∃ s, p.Reads s ∧ read = [s] := by
  obtain ⟨_, r, hnext, hfile⟩ := bind_run_eq_ok.1 hrun
  rw [get_bind, Grammar.file_run] at hfile
  have hdeep := Nested.built_ofDepth r.bound
  have hr := Grammar.errors_of_built (Grammar.fileFrom_built hdeep _ _ _) hfile herrors
  have hsound := isSound_of_next hnext hr
  refine ⟨hsound, ?_⟩
  cases (next_first hsound (fun g (hg : g ∈ [].head?) => by cases hg)).symm.trans hnext
  obtain ⟨s, later, hs⟩ := Grammar.stmt_of_fileFrom first_atStmt (first_draws hsound).inSource
    hfile herrors
  have hcode : s.isCodeEnd = false := by
    obtain ⟨_, _, -, -, -, rfl⟩ := Grammar.pragma_eq_ok hs
    rfl
  have hrest := (Grammar.fileFrom_stmt first_atStmt hs hcode
    ((p.first []).cursor.bound + 1) _ []).symm.trans hfile
  have hlater := Grammar.errors_of_built (Grammar.fileFrom_built hdeep _ _ _) hrest herrors
  obtain ⟨hover, -⟩ := (first_draws hsound).pragma first_isSpent (p.first_lawful [])
    (Nat.le_refl _) hs hlater
  rw [Grammar.fileFrom_eof hover.1] at hrest
  cases hrest
  exact ⟨s, ⟨_, hs, hlater⟩, rfl⟩

/-! ### The rest of the source -/

/-- The line is in front of the rest of the source. -/
def setting (p : PragmaSource) : Setting where
  starts := [0]
  gap := p.stop + 1
  behind := 0
  starts_le := by simp

theorem setting_isLevel (p : PragmaSource) : p.setting.IsLevel := ⟨rfl, rfl, rfl⟩

theorem setting_meetsAgain (p : PragmaSource) : p.setting.MeetsAgain more :=
  Setting.meetsAgain p.setting_isLevel rfl

/-- The reader before the first token of the rest of the source, with the options that the line
leaves. -/
def restReader (p : PragmaSource) (more : List Glyph) (changes : PragmaOptions) : Reader :=
  p.set.reader p.name more { p.options with scan := p.options.scan.after changes }

/-- The options that the line sets are all that is left of it. -/
theorem behind_meets (hne : more ≠ []) (hmore : ∀ g ∈ more.head?, g.IsFit)
    (changes : PragmaOptions) (last : Token) :
    p.setting.Meets more (p.behind more changes last) (p.restReader more changes) where
  cursor_eq := by
    have hfresh : Cursor.IsFresh { (p.first []).cursor with
        rest := more, file := p.fileBehind more, pool := [] } := ⟨rfl, rfl, rfl, rfl⟩
    have hfile : p.fileBehind more = p.setting.file (p.set.newFile p.name more) := by
      rw [p.fileBehind_more hne]
      simp [fileWith, FileSet.newFile, Setting.file, setting, Glyph.widths_append, p.widths_line,
        Nat.add_comm]
    change Cursor.apply _ changes = p.setting.cursor (Cursor.start _ _ more)
    rw [hfresh.apply_eq, Cursor.start_fit hmore, hfile]
    simp [Setting.cursor, Setting.options, setting, first, PragmaText.cursor]
  errors_eq := rfl
  maxErrors_eq := rfl
  comments_eq _ := rfl
  commentEnd_eq _ := rfl
  reads := by
    change p.setting.Reads (Cursor.start _ _ more)
    rw [Cursor.start_fit hmore]
    exact ⟨rfl, fun hbehind => absurd rfl hbehind⟩
  poolHasText t ht := by
    change t ∈ (Cursor.start _ _ more).pool at ht
    rw [Cursor.start_pool] at ht
    exact absurd ht List.not_mem_nil
  poolInner := Cursor.poolInner_start _ _ _
  taken_le := Nat.le_trans (Nat.le_of_eq (Cursor.start_taken _ _ _)) (Nat.zero_le _)
  inSource := ⟨Cursor.inSource_start rfl rfl, Cursor.poolPlaced_start _ _ _, Nat.le_refl _⟩

/-- With the line in front there is more to read. -/
theorem rest_bound_lt (hmore : ∀ g ∈ more.head?, g.IsFit) {changes : PragmaOptions} {r : Reader}
    (hnext : next (p.restReader more changes) = .ok () r) : r.bound < (p.first more).bound := by
  obtain ⟨tokens, htokens, htakes⟩ : ∃ tokens, tokens ≠ [] ∧
      (p.restReader more changes).Takes tokens r := by
    rcases nextWithin_run [] False _ _ nofun with
      ⟨later, tokens, hrun, htokens, htakes, -⟩ | ⟨-, f, later, hrun⟩
    · cases hnext.symm.trans hrun
      exact ⟨tokens, htokens, htakes⟩
    · cases hnext.symm.trans hrun
  have hweight := htakes.weight_le_cursor htokens
  have hstart : (p.restReader more changes).cursor.weight = 2 * more.length := by
    unfold restReader FileSet.reader SourceFile.reader
    rw [Cursor.start_fit hmore]
    rfl
  have hbound : (p.first more).bound =
      2 * more.length + ((p.bodyRead more).2 ++ [p.closing]).length + 2 + 2 := rfl
  rw [hstart] at hweight
  rw [hbound, List.length_append, List.length_singleton]
  unfold Reader.weight Cursor.weight at hweight
  unfold Reader.bound Cursor.bound
  omega

/-- The rest of the source is read as it is alone with the options that the line leaves. -/
theorem source_more (hsound : p.IsSound) (hne : more ≠ []) (hmore : ∀ g ∈ more.head?, g.IsFit)
    {pos stop : Pos} {entries : List (KeyValue Expr)} {changes : PragmaOptions}
    (hs : p.Reads (.pragma pos entries changes stop)) {rest : List Stmt} {last : Reader}
    (hrest : Parse.source (p.restReader more changes) = .ok rest last) :
    ∃ whole, Parse.source (p.readerWith more) =
        .ok ((Stmt.pragma pos entries changes stop).shift 0 :: shiftStmts (p.stop + 1) rest)
          whole ∧
      whole.errors = last.errors.map (·.shift (p.stop + 1) 1) := by
  obtain ⟨_, r, hnext, hfile⟩ := bind_run_eq_ok.1 hrest
  rw [get_bind, Grammar.file_run] at hfile
  let depth := (p.first more).bound
  have hsource : Parse.source (p.readerWith more) =
      Grammar.fileFrom (Nested.ofDepth depth) depth (depth - 1) [] (p.first more) := by
    unfold Parse.source
    rw [bind_run_ok (next_first hsound hmore), get_bind, Grammar.file_run]
  have hbound : r.bound < depth := rest_bound_lt hmore hnext
  obtain ⟨_, _, t, heq, -, hpragma⟩ := hs.run hsound more
  cases heq
  have hbehind := (behind_meets (p := p) hne hmore changes t).next_agreed p.setting_meetsAgain .inside
  rw [hnext] at hbehind
  generalize hnext₁ : next (p.behind more changes t) = result at hbehind
  cases hbehind with
  | ok _ hfollows =>
    let line := (Stmt.pragma 0 entries changes t.pos).shift 0
    have hline : line = .pragma _ _ _ _ := Stmt.shift.eq_def 0 (.pragma _ _ _ _)
    have hsettled : Grammar.Settled [line] := hline ▸ Grammar.settled_single nofun nofun
    have hcode : line.isCodeEnd = false := Grammar.isCodeEnd_shift 0 (.pragma _ _ _ _)
    have hbefore := Grammar.fileFrom_stmt first_atStmt
      (hpragma.trans (bind_run_ok hnext₁ _)) hcode (depth - 1) (depth - 1) []
    have hS : (p.setting.simulation more).Lawful :=
      Setting.lawful p.setting_isLevel p.setting_meetsAgain
    have hagrees : Simulation.Agrees _ (fun _ => True) .inside _ _ _ _ :=
      Grammar.fileFrom_agrees hS (fun _ => id)
        (Nested.agrees_ofDepth hS (Nat.le_of_lt hbound)) (.inr hsettled)
        (Nat.le_sub_one_of_lt hbound) (Nat.sub_le_sub_right (Nat.le_of_lt hbound) 1)
    have hagreed := hagrees.agreed hfollows trivial
    rw [hfile] at hagreed
    generalize hfile₁ : Grammar.fileFrom (Nested.ofDepth depth) (depth - 1) (depth - 1) [line] _ =
      result at hagreed
    cases hagreed with
    | ok _ hlast => exact ⟨_, (hsource.trans hbefore).trans hfile₁, hlast.errors_eq⟩
    | edge hE => cases hE
    | beyond hE => cases hE
    | lost hlost => exact hlost.elim
  | edge hE => cases hE
  | beyond hE => cases hE
  | lost hlost => exact hlost.elim

/-- Nothing is read of an empty source. -/
theorem source_nil (set : FileSet) (name : String) (options : ParseOptions) :
    ∃ last, Parse.source (set.reader name [] options) = .ok [] last ∧ last.errors = [] := by
  have hcursor : (set.reader name [] options).cursor =
      { file := set.newFile name [], options := options.scan, rest := [],
        inText := options.scan.mixed } :=
    Cursor.start_fit fun g (hg : g ∈ [].head?) => by cases hg
  have hend : (set.reader name [] options).cursor.AtEnd := by
    rw [hcursor]
    exact ⟨rfl, rfl, fun _ => rfl⟩
  obtain ⟨r, hnext, hover, herrors⟩ := Reader.next_atEnd hend
  refine ⟨r, ?_, herrors (by rw [hcursor])⟩
  unfold Parse.source
  rw [bind_run_ok hnext, get_bind, Grammar.file_run]
  exact Grammar.fileFrom_eof hover.1 _ (r.cursor.bound + 1) _ []

/-- The same, whatever is behind the line, with all statements moved to where the file begins. -/
theorem source_behind {s : Stmt} (hsound : p.IsSound) (hs : p.Reads s) {r : Reader}
    (halone : Parse.source (p.readerWith []) = .ok [s] r) (hr : r.errors = [])
    {pos stop : Pos} {entries : List (KeyValue Expr)} {changes : PragmaOptions}
    (hpragma : s = .pragma pos entries changes stop) (hmore : ∀ g ∈ more.head?, g.IsFit)
    {rest : List Stmt} {last : Reader}
    (hrest : Parse.source (p.restReader more changes) = .ok rest last) (base : Nat) :
    ∃ stmts whole, Parse.source (p.readerWith more) = .ok stmts whole ∧
      shiftStmts base stmts = s.shift base :: shiftStmts (p.stop + 1) (shiftStmts base rest) ∧
      whole.errors = last.errors.map (·.shift (p.stop + 1) 1) := by
  by_cases hne : more = []
  · subst hne
    obtain ⟨last', hlast, hnil⟩ := source_nil p.set p.name
      { p.options with scan := p.options.scan.after changes }
    cases hlast.symm.trans hrest
    exact ⟨[s], r, halone, rfl, by rw [hr, hnil, List.map_nil]⟩
  · obtain ⟨whole, hwhole, hwrong⟩ := source_more hsound hne hmore (hpragma ▸ hs) hrest
    refine ⟨_, whole, hwhole, ?_, hwrong⟩
    rw [← hpragma, shiftStmts, Stmt.shift_shift, Nat.zero_add, shiftStmts_shift, shiftStmts_shift,
      Nat.add_comm]

end PragmaSource

/-! ### Whole sources -/

/-- A pragma line with its break. -/
def pragmaLine (blanks body : String) : String := "#" ++ blanks ++ pragmaMarker ++ body ++ "\n"

namespace PragmaText

variable {blanks body : String}

/-- The parts of a pragma line that is given as text. -/
def ofText (blanks body : String) (hblanks : ∀ ch ∈ blanks.toList, ch = ' ' ∨ ch = '\t')
    (hbody : ∀ ch ∈ body.toList, ch ≠ '\n' ∧ ch ≠ ';') : PragmaText where
  blanks := Glyph.ofText blanks
  body := Glyph.ofText body
  isBlank g hg := by
    obtain ⟨ch, hch, rfl⟩ := List.mem_map.1 hg
    rcases hblanks ch hch with rfl | rfl <;> rfl
  inLine g hg := by
    obtain ⟨ch, hch, rfl⟩ := List.mem_map.1 hg
    simpa using hbody ch hch

theorem line_ofText (hblanks : ∀ ch ∈ blanks.toList, ch = ' ' ∨ ch = '\t')
    (hbody : ∀ ch ∈ body.toList, ch ≠ '\n' ∧ ch ≠ ';') :
    (ofText blanks body hblanks hbody).line = Glyph.ofText (pragmaLine blanks body) := by
  simp [line, head, ofText, pragmaLine, Glyph.ofText]

end PragmaText

/-- A text is parsed. -/
theorem FileSet.source_text (set : FileSet) (name text : String) (options : ParseOptions) :
    ∃ stmts r, Parse.source (set.reader name (Glyph.ofText text) options) = .ok stmts r := by
  have hglyphs : Glyph.ofBytes (utf8 text) = Glyph.ofText text := Glyph.ofBytes_toUTF8 text
  have hsize : (set.newFile name (Glyph.ofText text)).size = (utf8 text).length := by
    rw [← Glyph.widths_ofBytes, hglyphs]
    rfl
  obtain ⟨stmts, r, hrun, -⟩ := @SourceFile.source_lands _ options (.inl ⟨text, rfl⟩) _ hsize rfl
  rw [hglyphs] at hrun
  exact ⟨stmts, r, hrun⟩

/-- What a pragma line changes. -/
def Stmt.changes? : Stmt → Option PragmaOptions
  | .pragma _ _ changes _ => some changes
  | _ => none

/-- A pragma line takes effect on exactly the rest of the source: if nothing is wrong with the line,
what is behind it is read as it is alone with the options that the line leaves. -/
theorem FileSet.parse_pragmaLine {set later : FileSet} {name blanks body : String}
    {options : ParseOptions} {parsed : Parsed} (hpragma : options.scan.noPragma = false)
    (hblanks : ∀ ch ∈ blanks.toList, ch = ' ' ∨ ch = '\t')
    (hbody : ∀ ch ∈ body.toList, ch ≠ '\n' ∧ ch ≠ ';')
    (hparsed : set.parse name (Glyph.ofBytes (utf8 (pragmaLine blanks body))) options =
      .ok (parsed, later))
    (herrors : parsed.errors = []) :
    ∃ start entries changes last,
      parsed.document.stmts = [.pragma start entries changes last] ∧
      Grammar.setOptions? entries = some changes ∧
      ∀ text : String, text.toList.head? ≠ some Cursor.byteOrderMark →
        ∃ whole rest wholeSet restSet,
          set.parse name (Glyph.ofBytes (utf8 (pragmaLine blanks body ++ text))) options =
            .ok (whole, wholeSet) ∧
          set.parse name (Glyph.ofBytes (utf8 text))
            { options with scan := options.scan.after changes } = .ok (rest, restSet) ∧
          whole.document.stmts = .pragma start entries changes last ::
            shiftStmts (pragmaLine blanks body).utf8ByteSize rest.document.stmts ∧
          whole.errors =
            rest.errors.map (·.shift (pragmaLine blanks body).utf8ByteSize 1) := by
  let p : PragmaSource :=
    { PragmaText.ofText blanks body hblanks hbody with
      set, name, options, noPragma_eq := hpragma }
  have hline : p.line = Glyph.ofText (pragmaLine blanks body) :=
    PragmaText.line_ofText hblanks hbody
  have hsize : p.stop + 1 = (pragmaLine blanks body).utf8ByteSize := by
    rw [← p.widths_line, hline, Glyph.widths_ofText]
  have hglyphs (text : String) : Glyph.ofBytes (utf8 text) = Glyph.ofText text :=
    Glyph.ofBytes_toUTF8 text
  have hwhole (text : String) :
      Glyph.ofBytes (utf8 (pragmaLine blanks body ++ text)) = p.line ++ Glyph.ofText text := by
    rw [hglyphs, hline]
    simp [Glyph.ofText]
  -- The line alone.
  rw [← String.append_empty (s := pragmaLine blanks body), hwhole] at hparsed
  obtain ⟨stmts, r, hrun, rfl⟩ := FileSet.parse_eq_ok_iff_source.1 ⟨later, hparsed⟩
  have hr : r.errors = [] := Diagnostic.sort_eq_nil.1 herrors
  obtain ⟨hsound, s, hs, rfl⟩ := PragmaSource.source_line (p := p) hrun hr
  obtain ⟨entries, changes, t, rfl, hset, -⟩ := hs.run hsound []
  refine ⟨_, _, changes, _, congrArg (· :: []) (Stmt.shift.eq_def set.base (.pragma _ _ _ _)),
    (Grammar.setOptions?_shift _ _).trans hset, fun text htext => ?_⟩
  have hfit : ∀ g ∈ (Glyph.ofText text).head?, g.IsFit := by
    intro g hg
    rw [Glyph.ofText, List.head?_map] at hg
    obtain ⟨ch, hch, rfl⟩ := Option.map_eq_some_iff.1 hg
    exact ⟨ch, rfl, fun hmark => htext (hmark ▸ hch)⟩
  -- The text alone, and both together.
  obtain ⟨rest, last, hrest⟩ := FileSet.source_text set name text
    { options with scan := options.scan.after changes }
  obtain ⟨stmts, whole, hrun', hstmts, hwrong⟩ :=
    PragmaSource.source_behind hsound hs hrun hr rfl hfit hrest set.base
  obtain ⟨wholeSet, hwholeSet⟩ := FileSet.parse_eq_ok_iff_source.2 ⟨stmts, whole, hrun', rfl⟩
  obtain ⟨restSet, hrestSet⟩ := FileSet.parse_eq_ok_iff_source.2 ⟨rest, last, hrest, rfl⟩
  rw [hwhole, hglyphs, ← hsize]
  refine ⟨_, _, wholeSet, restSet, hwholeSet, hrestSet, ?_, ?_⟩
  · exact hstmts.trans (congrArg (· :: _) (Stmt.shift.eq_def set.base (.pragma _ _ _ _)))
  · rw [hwrong, Diagnostic.sort_shift]

theorem FileSet.parse_pragmaLine_mixed :
    let line := pragmaLine " " " mixed, mixed_start=\"<<\""
    let text := "a <<b; )\x7d\n"
    ∃ parsed later, FileSet.parse {} "main" (Glyph.ofBytes (utf8 line)) {} = .ok (parsed, later) ∧
      parsed.errors = [] ∧ ∃ start entries changes last,
        parsed.document.stmts = [.pragma start entries changes last] ∧
        changes = { mixed := some true, opening := some "<<" } ∧
        ∃ whole rest wholeSet restSet,
          FileSet.parse {} "main" (Glyph.ofBytes (utf8 (line ++ text))) {} =
            .ok (whole, wholeSet) ∧
          FileSet.parse {} "main" (Glyph.ofBytes (utf8 text))
            { scan := ScanOptions.after {} changes } = .ok (rest, restSet) ∧
          whole.document.stmts = .pragma start entries changes last ::
            shiftStmts line.utf8ByteSize rest.document.stmts ∧
          whole.errors = rest.errors.map (·.shift line.utf8ByteSize 1) := by
  intro line text
  have hrun : (FileSet.parse {} "main" (Glyph.ofBytes (utf8 line)) {}).toOption.map
      (fun read => (read.1.errors, read.1.document.stmts.map Stmt.changes?)) =
        some ([], [some { mixed := some true, opening := some "<<" }]) := by
    decide +kernel
  generalize hparsed : FileSet.parse {} "main" (Glyph.ofBytes (utf8 line)) {} = read at hrun
  cases read with
  | error fault => cases hrun
  | ok read =>
    obtain ⟨parsed, later⟩ := read
    obtain ⟨herrors, hchanges⟩ := Prod.mk.inj (Option.some.inj hrun)
    obtain ⟨start, entries, changes, last, hstmts, -, hrest⟩ :=
      FileSet.parse_pragmaLine rfl (by simp) (by simp) hparsed herrors
    refine ⟨parsed, later, rfl, herrors, start, entries, changes, last, hstmts, ?_,
      hrest text (by decide)⟩
    rw [hstmts] at hchanges
    exact Option.some.inj (List.head_eq_of_cons_eq hchanges)

end TemplateScript
