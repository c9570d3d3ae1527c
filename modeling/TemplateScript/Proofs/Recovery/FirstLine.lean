import TemplateScript.Proofs.Diagnostic.Place
import TemplateScript.Proofs.Grammar.Cover
import TemplateScript.Proofs.Recovery.Run
import TemplateScript.Proofs.Source.Joined

/-!
# A line that cannot be read before other lines

The first line of a file cannot be read since an operand is missing. It costs one statement and one
diagnostic, and what is behind it is read as it is alone.
-/

namespace TemplateScript

open Parse

theorem JoinedSource.lines_of_oneLine (j : JoinedSource) (h : OneLine j.first) : j.lines = 1 := by
  rw [lines, List.count_eq_zero.2 fun hmem => (h _ hmem).1 rfl]

/-- Before a source that is no template and has no special characters, a cursor is in a script. -/
theorem Cursor.inScript_start {file : SourceFile} {options : ScanOptions} {source : List Glyph}
    (hsize : file.size = Glyph.widths source) (hlines : file.lines = [0])
    (hmixed : options.mixed = false) (hfit : ∀ g ∈ source, g.IsFit) :
    (start file options source).InScript options false source ∧
      (start file options source).InSource source := by
  refine ⟨?_, (sound_start hsize hlines fun _ g hg => (hfit g hg).imp fun _ h => h.1).inSource⟩
  rw [start_fit fun g hg => hfit g (List.mem_of_mem_head? hg)]
  exact ⟨rfl, hfit, rfl, rfl, hmixed, rfl, rfl, rfl⟩

namespace BrokenLine

variable {line : BrokenLine} {c : Cursor} {source : List Glyph} {r : Reader}

/-- Where the value should begin. -/
def gap (line : BrokenLine) : Nat := line.target.text.utf8ByteSize + 4

/-- What is found wrong with the line, if it is the first one of a file. -/
def error (line : BrokenLine) (name : String) : Diagnostic :=
  ⟨⟨name, line.gap, 1, line.gap + 1⟩, .expectedOperand line.first.text⟩

/-! ### The first line -/

theorem widths_text (line : BrokenLine) (rest : List Glyph) :
    Glyph.widths (Glyph.ofText line.text ++ rest) = line.gap + Glyph.widths (line.remains rest) := by
  have hdefine : Glyph.widths (.char ' ' :: (Glyph.ofText Token.Kind.define.spelling ++
      .char ' ' :: line.remains rest)) = 4 + Glyph.widths (line.remains rest) :=
    Glyph.widths_append [.char ' ', .char ':', .char '=', .char ' '] _
  rw [glyphs_text, Glyph.widths_append, hdefine, Glyph.widths_ofText, gap, Nat.add_assoc]

/-- The place of an offset on the first line. -/
theorem place_first {text rest : List Glyph} (htext : .char '\n' ∉ text) {name : String}
    {offset : Nat} (hoffset : offset ≤ Glyph.widths text) :
    Glyph.place name (text ++ rest) offset = ⟨name, offset, 1, offset + 1⟩ := by
  have hstarts : (Glyph.lineStarts (text ++ rest)).takeWhile (· ≤ offset) = [0] := by
    unfold Glyph.lineStarts
    rw [Glyph.breakEnds_append, Glyph.breakEnds_eq_nil htext, List.nil_append, Nat.zero_add,
      List.takeWhile_cons, if_pos (decide_eq_true (Nat.zero_le offset))]
    refine congrArg _ (List.takeWhile_eq_nil_iff.2 fun hlen => ?_)
    have hlt := (Glyph.lt_of_mem_breakEnds (List.mem_of_mem_filter (List.getElem_mem hlen))).1
    exact decide_eq_true_iff.not.2 (Nat.not_le_of_lt (Nat.lt_of_le_of_lt hoffset hlt))
  unfold Glyph.place SourceFile.place
  dsimp only
  rw [hstarts]
  rfl

/-- Over the first line of a file, the cursor comes to where the next one begins. -/
theorem exists_walk_start {file : SourceFile} {options : ScanOptions} {rest : List Glyph}
    (hsize : file.size = Glyph.widths source) (hsource : source = Glyph.ofText line.text ++ rest)
    (hlines : file.lines = [0]) (hmixed : options.mixed = false)
    (hauto : options.noAutoSemicolons = false) (hfit : ∀ g ∈ rest, g.IsFit)
    (hrest : ∀ g ∈ rest.head?, g = .char '\n') :
    (Cursor.start file options source).Sound source ∧
      ∃ walk : line.Walk (Cursor.start file options source), walk.namePos = 0 ∧
        0 < walk.behind.offset ∧ walk.error = line.error file.name ∧
        walk.behind.InScript options false rest.tail := by
  subst hsource
  have hall : ∀ g ∈ Glyph.ofText line.text ++ rest, g.IsFit :=
    List.forall_mem_append.2 ⟨line.oneLine.isFit, hfit⟩
  have hfresh : Cursor.start file options (Glyph.ofText line.text ++ rest) = _ :=
    Cursor.start_fit fun g hg => hall g (List.mem_of_mem_head? hg)
  obtain ⟨hscript, hin⟩ := Cursor.inScript_start hsize hlines hmixed hall
  have hsound := hscript.sound hin
  obtain ⟨walk, hname, hpos, hbehind⟩ := exists_walk hmixed hauto hscript hsound hrest
  have hgap : walk.pos = line.gap := Nat.add_right_cancel (hpos.trans (line.widths_text rest))
  obtain ⟨hle, hmissed⟩ := walk.sound_missed hsound
  have hname_eq : walk.missed.file.name = file.name :=
    walk.reaches_missed.name_eq.trans (Cursor.reaches_start ..).name_eq
  have hfirst : .char '\n' ∉ Glyph.ofText line.text := by
    intro hmem
    obtain ⟨ch, hch, heq⟩ := List.mem_map.1 hmem
    cases heq
    exact (line.oneLine _ hch).1 rfl
  have hinside : line.gap ≤ Glyph.widths (Glyph.ofText line.text) := by
    have hwidths := line.widths_text []
    rw [List.append_nil] at hwidths
    omega
  have hpositive : 0 < walk.pos := by
    rw [hgap]
    exact Nat.succ_pos _
  refine ⟨hsound, walk, by rw [hname, hfresh], ?_, ?_, hbehind⟩
  · exact Nat.lt_of_lt_of_le hpositive (Nat.le_trans hle walk.reaches_behind.offset_le)
  rw [Walk.error, hmissed.inSource.place_eq hle, hgap, place_first hfirst hinside, hname_eq]
  rfl

/-- A source that begins with a line that cannot be read is read on from behind that line. -/
theorem Walk.source_run (walk : line.Walk r.cursor) (hc : r.cursor.Sound source)
    (hmax : r.maxErrors = 0) (herrors : r.errors = []) {stmts : List Stmt} {whole : Reader}
    (hrun : Parse.source r = .ok stmts whole) :
    ∃ end_, next ((r.turn walk.behind walk.stop).preceded [walk.error]) = .ok () end_ ∧
      (walk.namePos < end_.token.pos → ∀ extra, Grammar.fileFrom (.ofDepth (walk.named.bound + 2))
        (walk.named.bound + 2 + extra) (walk.named.bound + 2 + extra)
        [.bad walk.namePos end_.token.pos] end_ = .ok stmts whole) := by
  let named := r.turn walk.named (line.target.face.placed walk.namePos)
  have hnamed : next r = .ok () named := Grammar.next_hands walk.target
  have hfile : Grammar.fileFrom (.ofDepth named.bound) named.bound (named.bound - 1) [] named =
      .ok stmts whole := by
    rw [← Grammar.file_run]
    unfold Parse.source at hrun
    rwa [bind_run_ok hnamed, get_bind] at hrun
  have hmore (extra : Nat) : Grammar.fileFrom (.ofDepth named.bound) (named.bound + extra + 1)
      (named.bound + extra) [] named = .ok stmts whole :=
    Grammar.fileFrom_mono (by omega) (by omega) hfile
  obtain ⟨result, mid, hround, -⟩ :=
    bind_run_eq_ok.1 ((Grammar.fileFrom_succ ..) ▸ hmore 0)
  have hnone : ∀ d ∈ named.errors.getLast?, d.place.line ≠ walk.error.place.line := by
    rw [show named.errors = [] from herrors]
    exact nofun
  obtain ⟨end_, hnext, hend⟩ := walk.stmtsRound_run (r := named) hc rfl rfl hmax hnone
    hround
  have hknown : ({ named with errors := named.errors ++ [walk.error] } : Reader).turn walk.behind
      walk.stop = (r.turn walk.behind walk.stop).preceded [walk.error] := by
    simp only [Reader.preceded, named, herrors, List.append_nil, List.nil_append]
  rw [hknown] at hnext
  refine ⟨end_, hnext, fun hlt extra => ?_⟩
  obtain ⟨rfl, rfl⟩ := hend hlt
  have hfrom := hmore extra
  rw [Grammar.fileFrom_succ, bind_run_ok hround] at hfrom
  exact hfrom

/-- A line that cannot be read is one statement, and one thing is wrong with it. -/
theorem source_alone {options : ParseOptions} (hmixed : options.scan.mixed = false)
    (hauto : options.scan.noAutoSemicolons = false) (hmax : options.maxErrors = 0) (set : FileSet)
    (name : String) (line : BrokenLine) :
    ∃ stop whole, Parse.source (set.reader name (Glyph.ofText line.text) options) =
        .ok [.bad 0 stop] whole ∧ whole.errors = [line.error name] := by
  obtain ⟨stmts, whole, hrun⟩ := FileSet.source_text set name line.text options
  have hsize : (set.newFile name (Glyph.ofText line.text)).size =
      Glyph.widths (Glyph.ofText line.text) := rfl
  obtain ⟨hsound, walk, hname, hoffset, herror, hbehind⟩ :=
    exists_walk_start hsize (List.append_nil _).symm rfl hmixed hauto (List.forall_mem_nil _)
      fun _ h => absurd h (Option.not_mem_none _)
  let start := set.reader name (Glyph.ofText line.text) options
  obtain ⟨end_, hnext, hend⟩ := walk.source_run (r := start) hsound hmax rfl hrun
  have hscan : walk.behind.scan =
      ({ walk.behind with pool := [] }, walk.behind.endOfFile) := hbehind.scan_end hmixed
  have heof : next ((start.turn walk.behind walk.stop).preceded [walk.error]) = _ :=
    Reader.next_of_faultless hscan Token.Kind.noConfusion hbehind.errors_eq hbehind.taken_eq
  cases hnext.symm.trans heof
  have hfrom := hend (hname ▸ hoffset) 0
  cases (Grammar.fileFrom_eof rfl ..).symm.trans hfrom
  rw [hname] at hrun
  exact ⟨_, _, hrun, congrArg ([·]) herror⟩

/-- The lines of what is found wrong with a text count from one. -/
theorem line_pos {set : FileSet} {name text : String} {options : ParseOptions} {stmts : List Stmt}
    {whole : Reader}
    (hrun : Parse.source (set.reader name (Glyph.ofText text) options) = .ok stmts whole) :
    ∀ d ∈ whole.errors, 0 < d.place.line := by
  let file := set.newFile name (Glyph.ofText text)
  have hcursor : (Cursor.start file options.scan (Glyph.ofText text)).Resolved file.name
      (Glyph.ofText text) := Cursor.resolved_start options.scan rfl rfl
  have hresolved : (set.reader name (Glyph.ofText text) options).Resolved name (Glyph.ofText text) :=
    ⟨hcursor, Cursor.poolPlaced_start _ _ _, Nat.le_refl _, nofun⟩
  have hrunResolved := Parse.source_built.resolved hresolved (by simp)
  rw [hrun] at hrunResolved
  intro d hd
  rw [(hrunResolved.1.errors d hd).place_eq]
  unfold Glyph.place SourceFile.place Glyph.lineStarts
  rw [List.takeWhile_cons, if_pos (decide_eq_true (Nat.zero_le _))]
  dsimp only
  rw [List.getLast?_cons]
  exact Nat.succ_pos _

/-- A line that cannot be read is one statement, and what is behind it is read as it is alone. -/
theorem source_joined {j : JoinedSource} (hfirst : j.first = line.text)
    (hauto : j.options.scan.noAutoSemicolons = false) (hmax : j.options.maxErrors = 0)
    (hfit : ∀ g ∈ Glyph.ofText j.rest, g.IsFit) {more : List Stmt}
    (hrest : Parse.source (j.reader j.rest) = .ok more r) :
    ∃ stop whole, Parse.source (j.reader j.text) =
        .ok (.bad 0 stop :: shiftStmts j.gap more) whole ∧
      whole.errors = line.error j.name :: r.errors.map (·.shift j.gap 1) := by
  obtain ⟨stmts, whole, hrun⟩ := FileSet.source_text j.set j.name j.text j.options
  have hsize : (j.set.newFile j.name (Glyph.ofText j.text)).size =
      Glyph.widths (Glyph.ofText j.text) := rfl
  have hbreak : (Glyph.char '\n').IsFit := ⟨'\n', rfl, by decide⟩
  obtain ⟨hsound, walk, hname, hoffset, herror, hbehind⟩ :=
    exists_walk_start hsize (hfirst ▸ j.glyphs_text) rfl j.isCode.mixed_eq hauto
      (List.forall_mem_cons.2 ⟨hbreak, hfit⟩) (by rintro g ⟨⟩; rfl)
  obtain ⟨end_, hnext, hend⟩ := walk.source_run (r := j.reader j.text) hsound hmax rfl hrun
  let behind := (j.reader j.text).turn walk.behind walk.stop
  obtain ⟨hstop, hbehindSound⟩ := walk.sound_behind hsound
  have hat : j.AtRest behind :=
    { inSource := hbehindSound.inSource
      isCode :=
        { toIsCode := hbehind.options_eq.symm ▸ j.isCode
          inText_eq := hbehind.inText_eq
          pool_eq := hbehind.pool_eq }
      rest_eq := hbehind.rest_eq
      pending_eq := hbehind.pending_eq
      taken_le := hbehind.taken_eq ▸ Nat.zero_le _
      newErrors_eq := by rw [Cursor.newErrors, hbehind.errors_eq, List.drop_nil]
      options_eq := hbehind.options_eq
      name_eq := (walk.reaches_missed.trans walk.reaches_behind).name_eq.trans (j.name_reader _)
      errors_eq := rfl
      maxErrors_eq := rfl }
  -- The reader behind the line that knows of nothing wrong comes to the next token too.
  have hready : behind.Ready (Glyph.ofText j.text) :=
    ⟨hbehindSound, Nat.le_trans hstop hbehindSound.inSource.offset_le, List.forall_mem_nil _⟩
  have hknows : Reader.Knows (Glyph.ofText j.text) [walk.error] (behind.preceded [walk.error])
      behind :=
    { eq := rfl
      maxErrors_eq := hmax
      poolHasText := by
        unfold Cursor.PoolHasText
        rw [show behind.cursor.pool = [] from hbehind.pool_eq]
        exact List.forall_mem_nil _
      inSource := ⟨hbehindSound.inSource, hbehindSound.placed, hstop⟩ }
  obtain ⟨w, hw⟩ : ∃ w, next behind = .ok () w := by
    rcases nextWithin_run _ True behind.bound behind
        fun _ => ⟨hready, behind.cursor_weight_lt_bound⟩ with ⟨w, -, hw, -⟩ | ⟨hnot, -⟩
    · exact ⟨w, hw⟩
    · exact absurd trivial hnot
  have hbound : (j.reader j.rest).bound ≤ walk.named.bound + 2 := by
    have hlength := walk.length_le
    have hpool : (j.reader j.rest).cursor.pool = [] := Cursor.start_pool _ _ _
    have hstart : (j.reader j.rest).cursor.rest = Glyph.ofText j.rest :=
      congrArg (·.rest) (Cursor.start_fit j.isFit_rest)
    rw [hbehind.rest_eq, List.tail_cons] at hlength
    unfold Reader.bound Cursor.bound
    rw [hpool, hstart, List.length_nil]
    omega
  obtain ⟨last, hlast, hwrong⟩ := hat.fileFrom [] ((next_run _).symm.trans hw) hrest hbound hbound
    hbound
  have hlines : j.lines = 1 := j.lines_of_oneLine (hfirst ▸ line.oneLine)
  have hhidden : ¬ last.IsHidden [walk.error] := by
    rintro ⟨_, ⟨⟩, d, hd, hline⟩
    rw [hwrong, List.head?_map] at hd
    obtain ⟨d, hmem, rfl⟩ := Option.map_eq_some_iff.1 hd
    have hpos := line_pos hrest d (List.mem_of_mem_head? hmem)
    rw [herror] at hline
    have hshifted : 1 = d.place.line + j.lines := hline
    omega
  have hsteps : w.Steps last := by
    have hbuilt : Built [] (Grammar.fileFrom (.ofDepth (walk.named.bound + 2))
        (walk.named.bound + 2) (walk.named.bound + 2) []) fun _ => [] :=
      Grammar.fileFrom_built (Nested.built_ofDepth _) _ _ _
    have hstepped := hbuilt.steps w
    rwa [hlast] at hstepped
  have hlt : walk.namePos < end_.token.pos := by
    have hahead : walk.behind.Ahead walk.behind.offset := by
      have hpool : walk.behind.pool = [] := hbehind.pool_eq
      constructor
      · intro g hg
        rw [hbehind.rest_eq] at hg
        exact (hfit g hg).imp fun _ h => h.1
      · exact Nat.le_refl _
      all_goals rw [hpool]; simp
    have hfloor := Covers.nextWithin_floor (r := behind.preceded [walk.error]) hahead
      ((next_run _).symm.trans hnext)
    rw [hname]
    exact Nat.lt_of_lt_of_le hoffset hfloor
  have hagreed := hknows.next_agreed .inside
  rw [show next (behind.preceded [walk.error]) = .ok () end_ from hnext, hw] at hagreed
  cases hagreed with
  | ok _ hboth =>
    have hsettled : Grammar.Settled [.bad 0 end_.token.pos] :=
      Grammar.settled_single (fun _ => Stmt.noConfusion) fun _ => Stmt.noConfusion
    have hwhole := hboth.fileFrom hsettled hlast hhidden
    have hread := hend hlt 0
    rw [hname] at hread
    cases hread.symm.trans hwhole
    have hstmts : [Stmt.bad 0 end_.token.pos].reverse ++
        shiftStmts 0 ([].reverse ++ shiftStmts j.gap more) =
          .bad 0 end_.token.pos :: shiftStmts j.gap more := by
      rw [List.reverse_nil, List.nil_append, shiftStmts_shift, Nat.add_zero]
      rfl
    have herrors : (last.preceded [walk.error]).errors = walk.error :: last.errors := rfl
    exact ⟨_, _, hstmts ▸ hrun, by rw [herrors, herror, hwrong, hlines]; rfl⟩
  | edge hE => cases hE
  | beyond hE => cases hE
  | lost hlost => exact absurd (hlost.2.steps hsteps) hhidden

end BrokenLine

end TemplateScript
