import Mathlib.Data.List.Count
import TemplateScript.Proofs.Agree.Beside
import TemplateScript.Proofs.Agree.File
import TemplateScript.Proofs.Source.Pragma

/-!
# Sources behind each other

A source of plain code with nothing wrong in it, whose last token is a semicolon, leaves nothing to
the source behind it. What is read of both, with a line break in between, is what is read of each of
them alone.

The run over both is followed in two phases. It goes along with the run over the first source until
that is used up. The token that it takes then is the first one of the other source, and it goes along
with the run over that one, with the statements of the first before those that follow.
-/

namespace TemplateScript

open Parse

theorem Glyph.count_ofText (text : String) (ch : Char) :
    (ofText text).count (.char ch) = text.toList.count ch :=
  List.count_map_of_injective _ _ (fun _ _ => Glyph.char.inj) ch

/-! ### Where sources begin -/

namespace Inset

variable {source rest : List Glyph} {i : Inset} {c₁ c₂ : Cursor}

theorem Beside.withLineStart (h : i.Beside c₁ c₂) (lineStart₁ lineStart₂ : Nat) :
    i.Beside { c₁ with lineStart := lineStart₁ } { c₂ with lineStart := lineStart₂ } :=
  { h with
    inWhole := h.inWhole.reaches (.of_eq rfl rfl rfl rfl)
    inSource := h.inSource.reaches (.of_eq rfl rfl rfl rfl)
    isCode₁ := { h.isCode₁ with }
    isCode₂ := { h.isCode₂ with } }

/-- At the start of a source and of a longer one that begins with it, cursors are abreast, also
where a byte order mark is skipped. -/
theorem leading_start {hfit : ∀ g ∈ rest.head?, ∃ c, g = .char c ∧ c ≠ Cursor.byteOrderMark}
    {options : ScanOptions} (hcode : options.IsCode) {file₁ file₂ : SourceFile}
    (hsize₁ : file₁.size = Glyph.widths (source ++ .char '\n' :: rest))
    (hlines₁ : file₁.lines = [0]) (hsize₂ : file₂.size = Glyph.widths source)
    (hlines₂ : file₂.lines = [0]) (hname : file₁.name = file₂.name) :
    (leading source rest hfit).Abreast
      (Cursor.start file₁ options (source ++ .char '\n' :: rest))
      (Cursor.start file₂ options source) := by
  have hfresh : (leading source rest hfit).Beside
      { file := file₁, options, rest := source ++ .char '\n' :: rest, inText := options.mixed }
      { file := file₂, options, rest := source, inText := options.mixed } :=
    { inWhole := ⟨[], rfl, rfl, hsize₁, by simpa [Glyph.breakEnds] using hlines₁⟩
      inSource := ⟨[], rfl, rfl, hsize₂, by simpa [Glyph.breakEnds] using hlines₂⟩
      rest_eq := rfl
      options_eq := rfl
      pending_eq := rfl
      name_eq := hname
      isCode₁ := { hcode with inText_eq := hcode.mixed_eq, pool_eq := rfl }
      isCode₂ := { hcode with inText_eq := hcode.mixed_eq, pool_eq := rfl }
      taken_le₁ := Nat.le_refl _
      taken_le₂ := Nat.le_refl _
      newErrors_eq := rfl }
  unfold Cursor.start
  dsimp only
  rw [Cursor.arrive_rest, Cursor.arrive_rest]
  dsimp only
  cases source with
  | nil =>
    have hnone : (none : Option Glyph) ≠ some (.char Cursor.byteOrderMark) :=
      (Option.some_ne_none _).symm
    rw [List.nil_append, List.head?_cons, List.head?_nil, if_neg (by decide), if_neg hnone]
    exact hfresh.arrive (.inr hnone)
  | cons g more =>
    rw [List.cons_append, List.head?_cons, List.head?_cons]
    by_cases hmark : g = .char Cursor.byteOrderMark
    · have hstays {c : Cursor} (hrest : c.rest.head? = some g) (hoffset : c.offset = 0) :
          c.arrive = c := by
        obtain ⟨rest, hrest⟩ := List.head?_eq_some_iff.1 hrest
        rw [Cursor.arrive, hrest, hmark]
        exact if_neg fun h => absurd (hoffset ▸ h.2) (Nat.lt_irrefl 0)
      rw [if_pos (congrArg some hmark), if_pos (congrArg some hmark), hstays rfl rfl,
        hstays rfl rfl]
      exact (hfresh.advance rfl).then (.of_eq rfl rfl rfl rfl) fun h =>
        (h.withLineStart _ _).abreast
    · rw [if_neg fun h => hmark (Option.some.inj h), if_neg fun h => hmark (Option.some.inj h)]
      exact hfresh.arrive (.inr fun h => hmark (Option.some.inj h))

end Inset

/-! ### Reading on -/

namespace Parse

/-- A token that is found within a limit is found within any larger one. -/
theorem nextWithin_mono {limit more : Nat} (hle : limit ≤ more) {r later : Reader}
    (h : nextWithin limit r = .ok () later) : nextWithin more r = .ok () later := by
  induction limit generalizing more r with
  | zero => cases h
  | succ limit ih =>
    obtain ⟨more, rfl⟩ := Nat.exists_eq_add_one.2 (Nat.lt_of_lt_of_le limit.succ_pos hle)
    rw [nextWithin_succ] at h ⊢
    split at h
    · next hkind =>
      rw [if_pos hkind]
      obtain ⟨first, mid, hfirst, h⟩ := bind_run_eq_ok.1 h
      obtain ⟨last, end_, hlast, h⟩ := bind_run_eq_ok.1 h
      rw [bind_run_ok hfirst, bind_run_ok hlast]
      exact ih (Nat.le_of_succ_le_succ hle) h
    · next hkind =>
      rw [if_neg hkind]
      exact h

/-- What was found wrong before the next token is known behind it. -/
theorem errors_of_next {r later : Reader} (h : next r = .ok () later)
    (herrors : later.errors = []) (htaken : r.cursor.taken = 0) (hlined : r.cursor.Lined) :
    r.cursor.errors = [] := by
  have hmoved : (r.moveTo r.cursor.scan.1).errors = [] := by
    rw [next_run, Reader.bound, nextWithin_succ] at h
    split at h
    · obtain ⟨first, mid, hfirst, h⟩ := bind_run_eq_ok.1 h
      cases line_stays hfirst
      obtain ⟨last, mid, hlast, h⟩ := bind_run_eq_ok.1 h
      cases line_stays hlast
      obtain ⟨_, kept, hkept, h⟩ := bind_run_eq_ok.1 h
      cases hkept
      have hsteps := SteppedTo.nextWithin (r.cursor.bound + 1)
        ((r.moveTo r.cursor.scan.1).keepComment
          ⟨r.cursor.scan.2.pos, r.cursor.scan.2.literal⟩ first last)
      rw [h] at hsteps
      have hgrow : (r.moveTo r.cursor.scan.1).errors <+: later.errors :=
        (show Reader.Steps _ later from hsteps).errors_grow
      rw [herrors] at hgrow
      exact List.prefix_nil.1 hgrow
    · cases h
      exact herrors
  have hnew := Reader.newErrors_eq_nil hmoved
  rw [Cursor.newErrors, Cursor.scan_taken_eq hlined, htaken, List.drop_zero] at hnew
  exact List.prefix_nil.1 (hnew ▸ r.cursor.reaches_scan.errors_grow)

end Parse

/-! ### The first source -/

namespace Grammar

variable {i : Inset} {base : Cursor} {r₁ r₂ last : Reader} {deep₁ : Nested} {depth limit : Nat}
  {list read : List Stmt}

/-- Round by round, a file goes along with what is read of the first source, with nothing found
wrong, until that is used up. Then it goes on with the next source, the statements of the first one
before it. -/
theorem fileFrom_passes (hafter : i.after ≠ [])
    (hdeep : deep₁.Agrees (i.simulation base) (.ofDepth depth)) (h : i.Goes base r₁ r₂)
    {fileLimit : Nat}
    (hrun : fileFrom (.ofDepth depth) limit fileLimit list r₂ = .ok read last)
    (herrors : last.errors = []) :
    ∃ w used, i.Passes base w last ∧ ∀ n f,
      fileFrom deep₁ (n + used) f (shiftStmts i.gap list) r₁ =
        fileFrom deep₁ n f (shiftStmts i.gap read).reverse w := by
  induction limit generalizing list r₁ r₂ with
  | zero => cases hrun
  | succ limit ih =>
    have hbuilt := Nested.built_ofDepth depth
    have hnone : r₂.errors = [] := errors_of_built (fileFrom_built hbuilt _ _ _) hrun herrors
    have hfull : r₂.isFull = false := by
      unfold Reader.isFull
      rw [hnone]
      cases r₂.maxErrors <;> rfl
    have hbrace : r₂.token.kind ≠ .rbrace := fun hkind =>
      errors_of_rbrace hbuilt hfull hkind h.inSource hrun herrors
    have hat : AtStmt r₂ := ⟨hfull, hbrace, h.more hafter⟩
    have hagreed : (i.simulation base).Agreed .edge
        (Simulation.Round.map (shiftStmts i.gap ·) (shiftStmts i.gap ·)) (fun _ => True)
        (stmtsRound deep₁ false (shiftStmts i.gap list) r₁)
        (stmtsRound (.ofDepth depth) false list r₂) := by
      have hround : (i.simulation base).Agrees (fun _ => True) .edge _ _ _ _ :=
        stmtsRound_agrees (i.lawful base) hdeep false (.inr settled_nil) list
      simp only [List.append_nil, List.reverse_nil, List.nil_append] at hround
      exact hround.agreed h trivial
    rw [fileFrom_succ] at hrun
    obtain ⟨result, mid, hround₂, hrest⟩ := bind_run_eq_ok.1 hrun
    -- A round that is not the last one only adds to the list.
    obtain ⟨more, rfl⟩ : ∃ more, result = .again more := by
      rw [stmtsRound_run hat] at hround₂
      obtain ⟨found, tried, -, hround₂⟩ := bind_run_eq_ok.1 hround₂
      cases found with
      | some s =>
        obtain ⟨more, kept, -, hround₂⟩ := bind_run_eq_ok.1 hround₂
        cases hround₂
        exact ⟨more, rfl⟩
      | none =>
        obtain ⟨bad, kept, -, hround₂⟩ := bind_run_eq_ok.1 hround₂
        cases hround₂
        exact ⟨_, rfl⟩
    rw [hround₂] at hagreed
    generalize hround₁ : stmtsRound deep₁ false (shiftStmts i.gap list) r₁ = result₁ at hagreed
    have hstep {w : Reader} (hok : result₁ = .ok (.again (shiftStmts i.gap more)) w) (n f : Nat) :
        fileFrom deep₁ (n + 1) f (shiftStmts i.gap list) r₁ =
          fileFrom deep₁ n f (shiftStmts i.gap more) w := by
      rw [fileFrom_succ, bind_run_ok (hround₁.trans hok)]
    cases hagreed with
    | @ok _ w _ _ hrel =>
      obtain ⟨w', used, hpasses, hruns⟩ := ih hrel hrest
      refine ⟨w', used + 1, hpasses, fun n f => ?_⟩
      rw [← Nat.add_assoc, hstep rfl, hruns]
    | @edge _ w _ _ _ hpasses =>
      cases limit with
      | zero => cases hrest
      | succ limit =>
        cases (fileFrom_eof hpasses.isUsed.kind_eq _ _ _ _).symm.trans hrest
        refine ⟨w, 1, hpasses, fun n f => ?_⟩
        rw [hstep rfl, shiftStmts_eq_map, shiftStmts_eq_map, List.map_reverse, List.reverse_reverse]
    | beyond hE => cases hE
    | lost hlost =>
      exact absurd (errors_of_built (fileFrom_built hbuilt _ _ _) hrest herrors) hlost.errors_ne

end Grammar

/-- A text with a line break and another text behind it, which are added to a set as one. They are
read as plain code. -/
structure JoinedSource where
  set : FileSet
  name : String
  options : ParseOptions
  isCode : options.scan.IsCode
  first : String
  rest : String
  head_ne : rest.toList.head? ≠ some Cursor.byteOrderMark

namespace JoinedSource

variable (j : JoinedSource)

/-- Both texts. -/
def text : String := j.first ++ "\n" ++ j.rest

/-- The reader before the first token of a text. -/
def reader (text : String) : Reader := j.set.reader j.name (Glyph.ofText text) j.options

/-- Where the rest begins. -/
def gap : Nat := j.first.utf8ByteSize + 1

/-- The lines before the rest. -/
def lines : Nat := j.first.toList.count '\n' + 1

theorem glyphs_text :
    Glyph.ofText j.text = Glyph.ofText j.first ++ .char '\n' :: Glyph.ofText j.rest := by
  simp [text, Glyph.ofText]

theorem isFit_rest : ∀ g ∈ (Glyph.ofText j.rest).head?, g.IsFit := by
  intro g hg
  rw [Glyph.ofText, List.head?_map] at hg
  obtain ⟨ch, hch, rfl⟩ := Option.map_eq_some_iff.1 hg
  exact ⟨ch, rfl, fun hmark => j.head_ne (hmark ▸ hch)⟩

/-- The first text, with the other one behind it. -/
def inset : Inset := .leading (Glyph.ofText j.first) (Glyph.ofText j.rest) j.isFit_rest

/-- A text is at hand from its start on. -/
theorem ready_reader (text : String) : (j.reader text).Ready (Glyph.ofText text) := by
  refine SourceFile.ready_reader (Cursor.sound_start rfl rfl fun _ g hg => ?_) _
  obtain ⟨ch, -, rfl⟩ := List.mem_map.1 hg
  exact ⟨ch, rfl⟩

theorem inSource_reader (text : String) : (j.reader text).InSource (Glyph.ofText text) :=
  ⟨Cursor.inSource_start rfl rfl, Cursor.poolPlaced_start _ _ _, Nat.le_refl _⟩

theorem name_reader (text : String) : (j.reader text).cursor.file.name = j.name :=
  (Cursor.reaches_start _ _ _).name_eq

theorem options_reader (text : String) : (j.reader text).cursor.options = j.options.scan :=
  Cursor.start_options _ _ _

/-- Before the first token of the first text nothing is found wrong, and both readers are at the
start. -/
theorem level_reader {t : Token} (herrors : (j.reader j.first).cursor.errors = [])
    (hlast : (j.reader j.first).cursor.lastKind? = some .semicolon) :
    j.inset.Beside (j.reader j.text).cursor (j.reader j.first).cursor ∧
      j.inset.Level (j.reader j.first).cursor t (j.reader j.text) (j.reader j.first) := by
  have hbeside : j.inset.Beside (j.reader j.text).cursor (j.reader j.first).cursor := by
    have habreast : j.inset.Abreast
        (Cursor.start (j.set.newFile j.name (Glyph.ofText j.text)) j.options.scan
          (Glyph.ofText j.first ++ .char '\n' :: Glyph.ofText j.rest))
        (j.reader j.first).cursor :=
      Inset.leading_start j.isCode (congrArg _ j.glyphs_text) rfl rfl rfl rfl
    rw [← j.glyphs_text] at habreast
    exact habreast.resolve_left fun hspoiled => hspoiled.2 herrors
  have hready := j.ready_reader j.text
  rw [glyphs_text] at hready
  exact ⟨hbeside,
    { errors_eq := rfl
      maxErrors_eq := rfl
      along := hbeside.toAlong
      options_eq := rfl
      name_eq := rfl
      inSource := j.inSource_reader j.first
      clean := fun _ => ⟨hready, rfl, herrors, Cursor.closes_of_lastKind hlast t⟩ }⟩

/-! ### The rest -/

/-- The reader stands where the rest begins, with nothing found wrong up to there. -/
structure AtRest (b : Reader) : Prop where
  inSource : b.cursor.InSource (Glyph.ofText j.text)
  isCode : b.cursor.IsCode
  rest_eq : b.cursor.rest = Glyph.ofText j.rest
  pending_eq : b.cursor.pending = false
  taken_le : b.cursor.taken ≤ b.cursor.errors.length
  newErrors_eq : b.cursor.newErrors = []
  options_eq : b.cursor.options = j.options.scan
  name_eq : b.cursor.file.name = j.name
  errors_eq : b.errors = []
  maxErrors_eq : b.maxErrors = j.options.maxErrors

variable {j} {b w r last : Reader} {more : List Stmt} {limit depth n f : Nat}

/-- The first token of the rest is the one that is found where the rest begins. -/
theorem AtRest.next (h : j.AtRest b) (hnext : nextWithin limit b = .ok () w)
    (hne : Glyph.ofText j.rest ≠ []) (hrun : Parse.next (j.reader j.rest) = .ok () r) :
    (Inset.trailing (Glyph.ofText j.first) (Glyph.ofText j.rest) hne).Goes
      (j.reader j.rest).cursor w r := by
  let i := Inset.trailing (Glyph.ofText j.first) (Glyph.ofText j.rest) hne
  have hbeside : i.Beside b.cursor (j.reader j.rest).cursor := by
    have hstart : i.Beside b.cursor (Cursor.start (j.set.newFile j.name (Glyph.ofText j.rest))
        b.cursor.options (Glyph.ofText j.rest)) :=
      Inset.trailing_start hne j.isFit_rest (j.glyphs_text ▸ h.inSource) h.isCode h.rest_eq
        h.pending_eq h.taken_le h.newErrors_eq rfl rfl h.name_eq.symm
    rw [h.options_eq] at hstart
    exact hstart
  have hlevel : i.Level (j.reader j.rest).cursor b.cursor.endOfFile b (j.reader j.rest) :=
    { errors_eq := h.errors_eq
      maxErrors_eq := h.maxErrors_eq
      along := hbeside.toAlong
      options_eq := rfl
      name_eq := rfl
      inSource := j.inSource_reader j.rest
      clean := absurd rfl }
  let more := limit + b.bound + (j.reader j.rest).bound
  have hweight : b.cursor.weight < more := by
    have := b.cursor_weight_lt_bound
    omega
  have hagreed : (i.simulation (j.reader j.rest).cursor).Agreed .inside id (fun _ => True)
      (nextWithin more b) (nextWithin (j.reader j.rest).bound (j.reader j.rest)) :=
    hlevel.nextWithin_agreed hbeside (.inr nofun) (Nat.le_add_left _ _) hweight
  have hlong : nextWithin more b = .ok () w := nextWithin_mono (by omega) hnext
  rw [hlong, ← next_run, hrun] at hagreed
  cases hagreed with
  | ok _ hgoes => exact hgoes
  | edge hE => cases hE
  | beyond hE => cases hE
  | lost hlost => exact absurd rfl hlost.after_ne

/-- The rest is read as it is read alone, with the statements of the first text before it. -/
theorem AtRest.fileFrom (h : j.AtRest b) (before : List Stmt) (hnext : nextWithin limit b = .ok () w)
    (hrest : Parse.source (j.reader j.rest) = .ok more r)
    (hdepth : (j.reader j.rest).bound ≤ depth) (hn : (j.reader j.rest).bound ≤ n)
    (hf : (j.reader j.rest).bound ≤ f) :
    ∃ last, Grammar.fileFrom (.ofDepth depth) n f before w =
        .ok (before.reverse ++ shiftStmts j.gap more) last ∧
      last.errors = r.errors.map (·.shift j.gap j.lines) := by
  by_cases hne : Glyph.ofText j.rest = []
  · -- Nothing is left to be read.
    have hend : Parse.next b = .ok () { b with
        cursor := b.cursor.takeErrors, token := b.cursor.endOfFile, commentEnd := none } := by
      rw [Reader.next_of_scan (h.isCode.scan_end (h.rest_eq.trans hne) h.pending_eq) nofun,
        Reader.moveTo_of_newErrors h.newErrors_eq]
    have hlong := nextWithin_mono (Nat.le_add_right limit b.bound) hnext
    cases hlong.symm.trans (nextWithin_mono (Nat.le_add_left b.bound limit) hend)
    obtain ⟨last, hnothing, hnone⟩ := PragmaSource.source_nil j.set j.name j.options
    rw [reader, hne, hnothing] at hrest
    cases hrest
    obtain ⟨n, rfl⟩ := Nat.exists_eq_add_one.2 (Nat.lt_of_lt_of_le (Nat.succ_pos _) hn)
    have hstop {r : Reader} (hkind : r.token.kind = .eof) :
        Grammar.fileFrom (.ofDepth depth) (n + 1) f before r =
          .ok (before.reverse ++ shiftStmts j.gap []) r := by
      rw [Grammar.fileFrom_eof hkind, shiftStmts, List.append_nil]
    exact ⟨_, hstop rfl, by rw [hnone]; exact h.errors_eq⟩
  · obtain ⟨_, r₁, hnext₁, hfile⟩ := bind_run_eq_ok.1 hrest
    rw [get_bind, Grammar.file_run] at hfile
    let i := Inset.trailing (Glyph.ofText j.first) (Glyph.ofText j.rest) hne
    have hgoes : i.Goes (j.reader j.rest).cursor w r₁ := h.next hnext hne hnext₁
    have hbound : r₁.bound ≤ (j.reader j.rest).bound := by
      have hleads := next_accounts.run (j.inSource_reader j.rest)
      rw [hnext₁] at hleads
      obtain ⟨read, hread⟩ := hleads.1.steps.reaches
      have hpool : (j.reader j.rest).cursor.pool = [] := Cursor.start_pool _ _ _
      unfold Reader.bound Cursor.bound
      rw [hgoes.along.isCode₂.pool_eq, hpool, hread.rest_eq, List.length_append]
      omega
    have hS := i.lawful (j.reader j.rest).cursor
    have hagrees : (i.simulation (j.reader j.rest).cursor).Agrees (fun _ => True) .inside
        (Grammar.fileFrom (.ofDepth depth) n f before) _ _ _ :=
      Grammar.fileFrom_agrees hS (fun _ hused => hused.after_ne rfl)
        (Nested.agrees_ofDepth hS (Nat.le_trans hbound hdepth)) (.inl trivial)
        (Nat.le_trans hbound hn) (Nat.le_trans (Nat.sub_le _ 1) (Nat.le_trans hbound hf))
    have hagreed := hagrees.agreed hgoes trivial
    rw [hfile] at hagreed
    generalize hfile₁ : Grammar.fileFrom (.ofDepth depth) n f before w = result at hagreed
    have hgap : i.gap = j.gap := by
      rw [Inset.gap, gap, ← Glyph.widths_ofText]
      exact Glyph.widths_append _ _
    have hlines : i.lines = j.lines := by
      rw [lines, ← Glyph.count_ofText]
      exact List.count_append
    cases hagreed with
    | ok _ hlast => exact ⟨_, hgap ▸ rfl, hgap ▸ hlines ▸ hlast.errors_eq⟩
    | edge hE => cases hE
    | beyond hE => cases hE
    | lost hlost => exact absurd rfl hlost.after_ne

/-! ### Both texts -/

/-- What the readers are at the edge of the first text, the rest is read from. -/
theorem atRest_of_passes {l : Reader} (h : j.inset.Passes (j.reader j.first).cursor w l)
    (hmax : l.maxErrors = j.options.maxErrors) :
    ∃ b limit, j.AtRest b ∧ nextWithin limit b = .ok () w := by
  obtain ⟨b, c₂, limit, hnext, hbehind, hnew, hoptions, hname, hnone, hlimit⟩ := h.behind
  exact ⟨b, limit,
    { inSource := j.glyphs_text ▸ hbehind.inWhole
      isCode := hbehind.isCode₁
      rest_eq := hbehind.rest₁_eq
      pending_eq := hbehind.pending₁_eq
      taken_le := hbehind.taken_le₁
      newErrors_eq := by rw [hbehind.newErrors_eq, hnew, List.map_nil]
      options_eq := hoptions.trans (j.options_reader _)
      name_eq := hname.trans (j.name_reader _)
      errors_eq := hnone
      maxErrors_eq := hlimit.trans hmax }, hnext⟩

/-- A first text with nothing wrong in it is read as it is alone, up to where the rest begins. -/
theorem source_first (hfirst : Parse.source (j.reader j.first) = .ok more last)
    (herrors : last.errors = [])
    (hlast : (j.reader j.first).cursor.lastKind? = some .semicolon) :
    ∃ w b limit w' used, Parse.next (j.reader j.text) = .ok () w ∧
      (j.reader j.rest).bound ≤ w.bound ∧ j.AtRest b ∧ nextWithin limit b = .ok () w' ∧
      ∀ n f, Grammar.fileFrom (.ofDepth w.bound) (n + used) f [] w =
        Grammar.fileFrom (.ofDepth w.bound) n f (shiftStmts 0 more).reverse w' := by
  have hmax : last.maxErrors = j.options.maxErrors := by
    have hsteps := Parse.source_built.steps (j.reader j.first)
    rw [hfirst] at hsteps
    exact (show Reader.Steps _ last from hsteps).maxErrors_eq
  obtain ⟨_, l, hnext, hfile⟩ := bind_run_eq_ok.1 hfirst
  rw [get_bind, Grammar.file_run] at hfile
  have hnone := Grammar.errors_of_built (Grammar.fileFrom_built (Nested.built_ofDepth _) _ _ _)
    hfile herrors
  have hlined : (j.set.newFile j.name (Glyph.ofText j.first)).Lined := rfl
  have hfound := errors_of_next hnext hnone (Cursor.start_taken _ _ _)
    (Cursor.lined_start hlined _ _)
  obtain ⟨hbeside, hlevel⟩ := j.level_reader (t := (j.reader j.first).cursor.endOfFile) hfound hlast
  have hpool (text : String) : (j.reader text).cursor.pool = [] := Cursor.start_pool _ _ _
  have hlonger : (j.reader j.first).bound ≤ (j.reader j.text).bound := by
    unfold Reader.bound Cursor.bound
    rw [hbeside.rest_eq, List.length_append, hpool, hpool]
    omega
  have hagreed := hlevel.nextWithin_agreed (E := .inside) hbeside (.inr nofun) hlonger
    (j.reader j.text).cursor_weight_lt_bound
  rw [← next_run, ← next_run, hnext] at hagreed
  generalize hnext' : Parse.next (j.reader j.text) = result at hagreed
  cases hagreed with
  | @ok _ w _ _ hgoes =>
    have hS := j.inset.lawful (j.reader j.first).cursor
    obtain ⟨w', used, hpasses, hruns⟩ := Grammar.fileFrom_passes (i := j.inset) nofun
      (Nested.agrees_ofDepth hS hgoes.bound_le) hgoes hfile herrors
    obtain ⟨b, limit, hat, hlimit⟩ := atRest_of_passes hpasses hmax
    refine ⟨w, b, limit, w', used, rfl, ?_, hat, hlimit, hruns⟩
    have hrest : (Glyph.ofText j.rest).length ≤ w.cursor.rest.length := by
      rcases hgoes.cursors with hbeside | ⟨-, hbehind⟩
      · rw [hbeside.rest_eq, List.length_append]
        exact Nat.le_add_left_of_le (Nat.le_succ _)
      · rw [hbehind.rest₁_eq]
        exact Nat.le_refl _
    have hstart : (j.reader j.rest).cursor.rest = Glyph.ofText j.rest :=
      congrArg (·.rest) (Cursor.start_fit j.isFit_rest)
    unfold Reader.bound Cursor.bound
    rw [hpool, hgoes.along.isCode₁.pool_eq, hstart]
    omega
  | edge hE => cases hE
  | beyond hE => cases hE
  | lost hlost => exact absurd hnone hlost.errors_ne

/-- Both texts are read as each of them is alone. -/
theorem source_joined (hfirst : Parse.source (j.reader j.first) = .ok more last)
    (herrors : last.errors = [])
    (hlast : (j.reader j.first).cursor.lastKind? = some .semicolon) {rest : List Stmt}
    (hrest : Parse.source (j.reader j.rest) = .ok rest r) :
    ∃ whole, Parse.source (j.reader j.text) =
        .ok (shiftStmts 0 more ++ shiftStmts j.gap rest) whole ∧
      whole.errors = r.errors.map (·.shift j.gap j.lines) := by
  obtain ⟨w, b, _, w', used, hnext, hbound, hat, hnext', hruns⟩ :=
    source_first hfirst herrors hlast
  let limit := (j.reader j.rest).bound + w.bound
  have hlimit : (j.reader j.rest).bound ≤ limit := Nat.le_add_right _ _
  obtain ⟨whole, hwhole, hwrong⟩ :=
    hat.fileFrom (shiftStmts 0 more).reverse hnext' hrest hbound hlimit hlimit
  rw [List.reverse_reverse, ← hruns] at hwhole
  obtain ⟨stmts, end_, hrun⟩ := FileSet.source_text j.set j.name j.text j.options
  have hsource : Parse.source (j.reader j.text) =
      Grammar.fileFrom (.ofDepth w.bound) w.bound (w.bound - 1) [] w := by
    unfold Parse.source
    rw [bind_run_ok hnext, get_bind, Grammar.file_run]
  have hmore : Grammar.fileFrom (.ofDepth w.bound) (limit + used) limit [] w = .ok stmts end_ :=
    Grammar.fileFrom_mono (by omega) (by omega) (hsource.symm.trans hrun)
  cases hmore.symm.trans hwhole
  exact ⟨_, hrun, hwrong⟩

end JoinedSource

namespace FileSet

/-- A text of plain code with nothing wrong in it, whose last token is a semicolon, comments aside,
leaves nothing to the text behind it. With a line break in between, both are read as each of them is
alone: the statements are those of the first text and those of the rest, further on; and what is
wrong is what is wrong with the rest, further on, whatever that is. -/
theorem parse_joined {set later : FileSet} {name first rest : String} {options : ParseOptions}
    {parsed : Parsed} (hmixed : options.scan.mixed = false) (hpragma : options.scan.noPragma = true)
    (hparsed : set.parse name (Glyph.ofBytes (utf8 first)) options = .ok (parsed, later))
    (herrors : parsed.errors = [])
    (hlast : (Cursor.start (set.newFile name (Glyph.ofBytes (utf8 first))) options.scan
      (Glyph.ofBytes (utf8 first))).lastKind? = some .semicolon)
    (hrest : rest.toList.head? ≠ some Cursor.byteOrderMark) :
    ∃ whole alone wholeSet aloneSet,
      set.parse name (Glyph.ofBytes (utf8 (first ++ "\n" ++ rest))) options =
        .ok (whole, wholeSet) ∧
      set.parse name (Glyph.ofBytes (utf8 rest)) options = .ok (alone, aloneSet) ∧
      whole.document.stmts = parsed.document.stmts ++
        shiftStmts (first.utf8ByteSize + 1) alone.document.stmts ∧
      whole.errors = alone.errors.map
        (·.shift (first.utf8ByteSize + 1) (first.toList.count '\n' + 1)) := by
  let j : JoinedSource :=
    { set, name, options, isCode := ⟨hmixed, hpragma⟩, first, rest, head_ne := hrest }
  have hglyphs (text : String) : Glyph.ofBytes (utf8 text) = Glyph.ofText text :=
    Glyph.ofBytes_toUTF8 text
  rw [hglyphs] at hparsed hlast
  rw [hglyphs, hglyphs]
  obtain ⟨stmts, last, hfirst, rfl⟩ := parse_eq_ok_iff_source.1 ⟨later, hparsed⟩
  obtain ⟨more, r, hmore⟩ := source_text set name rest options
  obtain ⟨end_, hwhole, hwrong⟩ := JoinedSource.source_joined (j := j) hfirst
    (Diagnostic.sort_eq_nil.1 herrors) hlast hmore
  obtain ⟨wholeSet, hwholeSet⟩ := parse_eq_ok_iff_source.2 ⟨_, end_, hwhole, rfl⟩
  obtain ⟨aloneSet, haloneSet⟩ := parse_eq_ok_iff_source.2 ⟨more, r, hmore, rfl⟩
  refine ⟨_, _, wholeSet, aloneSet, hwholeSet, haloneSet, ?_, ?_⟩
  · change shiftStmts set.base (shiftStmts 0 stmts ++ shiftStmts j.gap more) =
      shiftStmts set.base stmts ++ shiftStmts j.gap (shiftStmts set.base more)
    rw [shiftStmts_append, shiftStmts_shift, Nat.zero_add, shiftStmts_shift, shiftStmts_shift,
      Nat.add_comm]
  · change Diagnostic.sort end_.errors = (Diagnostic.sort r.errors).map _
    rw [hwrong, Diagnostic.sort_shift]
    rfl

/-- An unfinished comment, and an operand that is missing, behind a block. -/
theorem parse_joined_block :
    let first := "if a \x7b\n  b = \"é\"\n\x7d // c"
    let rest := "c := )\n/* d"
    let options : ParseOptions := { scan := { noPragma := true }, maxErrors := 0 }
    ∃ parsed later,
      FileSet.parse {} "main" (Glyph.ofBytes (utf8 first)) options = .ok (parsed, later) ∧
      parsed.errors = [] ∧
      (Cursor.start (newFile {} "main" (Glyph.ofBytes (utf8 first))) options.scan
        (Glyph.ofBytes (utf8 first))).lastKind? = some .semicolon ∧
      ∃ whole alone wholeSet aloneSet,
        FileSet.parse {} "main" (Glyph.ofBytes (utf8 (first ++ "\n" ++ rest))) options =
          .ok (whole, wholeSet) ∧
        FileSet.parse {} "main" (Glyph.ofBytes (utf8 rest)) options = .ok (alone, aloneSet) ∧
        whole.document.stmts = parsed.document.stmts ++
          shiftStmts (first.utf8ByteSize + 1) alone.document.stmts ∧
        whole.errors = alone.errors.map
          (·.shift (first.utf8ByteSize + 1) (first.toList.count '\n' + 1)) := by
  intro first rest options
  have hrun : (FileSet.parse {} "main" (Glyph.ofBytes (utf8 first)) options).toOption.map
      (·.1.errors) = some [] := by
    decide +kernel
  have hlast : (Cursor.start (newFile {} "main" (Glyph.ofBytes (utf8 first))) options.scan
      (Glyph.ofBytes (utf8 first))).lastKind? = some .semicolon := by
    decide +kernel
  cases hparsed : FileSet.parse {} "main" (Glyph.ofBytes (utf8 first)) options with
  | error fault =>
    rw [hparsed] at hrun
    cases hrun
  | ok read =>
    rw [hparsed] at hrun
    have herrors := Option.some.inj hrun
    exact ⟨read.1, read.2, rfl, herrors, hlast,
      parse_joined rfl rfl hparsed herrors hlast (by decide)⟩

end FileSet

end TemplateScript
