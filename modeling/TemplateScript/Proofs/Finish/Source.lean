import TemplateScript.Proofs.Cursor.Fidelity
import TemplateScript.Proofs.Finish.Document

/-!
# Sources that are parsed

Parsing comes to an end whatever the source is, and has then read all of it, unless there were
enough diagnostics before. Nothing is looked up that is not there: a place outside the source would
be a fault, and so would be a search that goes on for longer than tokens are left.
-/

namespace TemplateScript

open Parse

/-! ### Depth -/

namespace Nested

variable {source : List Glyph} {sure : Prop}

/-- Where no token is left, no phrase is nested. -/
theorem fault_finishes {α : Type} {near moved : Bool} {seen : Token → Prop} {promise : α → Prop}
    {goes : α → Bool} (f : Fault) (h : (moved || near) = true) :
    Parse.Finishes ⟨source, sure, 0, near⟩ moved seen (fault f : Parse α) promise goes := by
  intro o r hfollows hr _ hsure
  have hweight : o.weight + near.toNat ≤ 0 := (hr hsure).2
  cases moved with
  | true => exact absurd hfollows.weight_lt (by omega)
  | false =>
    rw [Bool.false_or] at h
    rw [h, Bool.toNat_true] at hweight
    omega

theorem finishes_none : none.Finishes source sure 0 where
  expr := fault_finishes _
  binary _ := fault_finishes _
  unary := fault_finishes _
  stmts := fault_finishes _
  ifStmt := fault_finishes _

/-- Once a token has been taken, phrases may nest one deeper than is asked of them. -/
theorem deeper {α : Type} {depth : Nat} {near moved : Bool} {seen : Token → Prop} {p : Parse α}
    {promise : α → Prop} {goes further : α → Bool} (h : (moved || near) = true)
    (hp : Parse.Finishes ⟨source, sure, depth, false⟩ false anyToken p promise goes)
    (hfurther : ∀ a, further a = true → moved = true ∨ goes a = true) :
    Parse.Finishes ⟨source, sure, depth + 1, near⟩ moved seen p promise further := by
  refine .fresh goes (fun r _ hr => ?_) hfurther
  have hrun := hp.run (r := r) fun hsure => ⟨(hr hsure).1, ?_⟩
  · exact hrun
  · have hweight := (hr hsure).2
    rw [h, Bool.toNat_true] at hweight
    exact Nat.le_of_succ_le_succ hweight

/-- Phrases that nest as deep as tokens are left come to an end. -/
theorem finishes_ofDepth (depth : Nat) : (ofDepth depth).Finishes source sure depth := by
  induction depth with
  | zero => exact finishes_none
  | succ depth ih =>
    exact {
      expr := fun h => deeper h (Grammar.expr_finishes ih) fun _ _ => .inr rfl
      binary := fun least h => deeper h (Grammar.binary_finishes ih least) fun _ _ => .inr rfl
      unary := fun h => deeper h (Grammar.unary_finishes ih) fun _ _ => .inr rfl
      stmts := fun h => deeper h (Grammar.stmts_finishes ih true) fun _ => .inl
      ifStmt := fun h => deeper h (Grammar.ifStmt_finishes ih) fun _ _ => .inr rfl }

end Nested

namespace Parse

variable {α β σ : Type}

/-! ### Giving up -/

/-- The phrase is never given up. -/
def Persists (p : Parse α) : Prop := ∀ r later, p r ≠ .error .bail later

namespace Persists

theorem of_ok {p : Parse α} (h : ∀ r, ∃ a later, p r = .ok a later) : p.Persists := by
  intro r later hbail
  obtain ⟨a, mid, hok⟩ := h r
  cases hok.symm.trans hbail

theorem pure (a : α) : (pure a : Parse α).Persists := .of_ok fun r => ⟨a, r, rfl⟩

theorem bind {p : Parse α} {q : α → Parse β} (hp : p.Persists) (hq : ∀ a, (q a).Persists) :
    (p >>= q).Persists := by
  intro r later h
  rw [bind_run] at h
  cases hpr : p r with
  | ok a mid =>
    rw [hpr] at h
    exact hq a mid later h
  | error e mid =>
    rw [hpr] at h
    cases e with
    | bail => exact hp r mid hpr
    | fault f => cases h

theorem get : (get : Parse Reader).Persists := .of_ok fun r => ⟨r, r, rfl⟩

theorem fault (f : Fault) : (Parse.fault f : Parse α).Persists := by
  intro r later h
  cases h

theorem token : token.Persists := .of_ok fun r => ⟨r.token, r, rfl⟩

theorem kind : kind.Persists := .of_ok fun r => ⟨r.token.kind, r, rfl⟩

theorem pos : pos.Persists := .of_ok fun r => ⟨r.token.pos, r, rfl⟩

theorem isFull : isFull.Persists := .of_ok fun r => ⟨r.isFull, r, rfl⟩

theorem attempt (p : Parse α) : (attempt p).Persists := by
  intro r later h
  unfold Parse.attempt at h
  split at h <;> cases h

theorem loop {round : σ → Parse (Round σ α)} (hround : ∀ s, (round s).Persists) (s : σ) :
    (loop s round).Persists := by
  refine get.bind fun r => ?_
  induction r.bound generalizing s with
  | zero => exact fault _
  | succ limit ih =>
    refine (hround s).bind fun result => ?_
    cases result with
    | again s' => exact ih s'
    | done a => exact pure a

theorem errorAt (offset : Nat) (cause : Cause) : (errorAt offset cause).Persists := by
  refine bind (get.bind fun r => ?_) fun place => .of_ok fun r => ⟨_, _, rfl⟩
  dsimp only
  split
  · exact pure _
  · exact fault _

theorem next : next.Persists := by
  intro r later h
  rcases nextWithin_run [] False r.bound r nofun with
    ⟨_, _, hrun, -⟩ | ⟨-, _, _, hrun⟩
  · cases hrun.symm.trans h
  · cases hrun.symm.trans h

theorem accept (wanted : Token.Kind) : (accept wanted).Persists := by
  refine kind.bind fun kind => ?_
  split
  · exact next.bind fun _ => pure _
  · exact pure _

end Persists

/-! ### Where loops end -/

/-- What holds behind the last round of a loop holds behind the loop. -/
theorem loop_lands {round : σ → Parse (Round σ α)} (lands : Reader → Prop)
    (hround : ∀ s a r later, round s r = .ok (.done a) later → lands later) {s : σ} {a : α}
    {r later : Reader} (h : loop s round r = .ok a later) : lands later := by
  unfold loop at h
  rw [get_bind] at h
  generalize r.bound = limit at h
  induction limit generalizing s r with
  | zero => cases h
  | succ limit ih =>
    unfold rounds at h
    obtain ⟨result, mid, hresult, hlast⟩ := bind_run_eq_ok.1 h
    cases result with
    | again s' => exact ih hlast
    | done b =>
      cases hlast
      exact hround s _ r _ hresult

end Parse

namespace Grammar

variable {deep : Nested} {r later : Reader}

theorem resync_persists : resync.Persists := by
  unfold resync
  refine Persists.pos.bind fun start => .loop (fun depth => ?_) 0
  refine Persists.token.bind fun t => Persists.isFull.bind fun full => ?_
  split
  · exact .pure _
  split
  · exact .pure _
  split
  · exact Persists.next.bind fun _ => .pure _
  split
  · exact Persists.next.bind fun _ => .pure _
  split
  · split
    · exact .pure _
    · exact Persists.next.bind fun _ => .pure _
  split
  · exact .pure _
  · exact Persists.next.bind fun _ => .pure _

theorem skipStmt_persists (first : Token) : (skipStmt first).Persists := by
  unfold skipStmt
  refine resync_persists.bind fun _ => Persists.token.bind fun t => ?_
  dsimp only
  split
  · exact Persists.next.bind fun _ => Persists.pos.bind fun _ => .pure _
  · exact Persists.pos.bind fun _ => .pure _

theorem addStmt_persists (list : List Stmt) (s : Stmt) : (addStmt list s).Persists := by
  unfold addStmt
  split
  · refine Persists.get.bind fun r => ?_
    split
    · exact .pure _
    · exact .pure _
  · exact .pure _

theorem stmtsRound_persists (deep : Nested) (inBlock : Bool) (list : List Stmt) :
    (stmtsRound deep inBlock list).Persists := by
  refine (Persists.kind.bind fun _ => Persists.isFull.bind fun _ => .pure _).bind fun atEnd => ?_
  split
  · exact .pure _
  · refine Persists.token.bind fun first => (Persists.attempt _).bind fun read => ?_
    cases read with
    | some s => exact (addStmt_persists list s).bind fun _ => .pure _
    | none => exact (skipStmt_persists first).bind fun _ => .pure _

theorem file_persists (deep : Nested) : (file deep).Persists := by
  refine .loop (fun list => (Persists.loop (stmtsRound_persists deep false) []).bind fun more =>
    Persists.pos.bind fun pos => Persists.isFull.bind fun full =>
      Persists.kind.bind fun kind => ?_) []
  split
  · exact .pure _
  · exact (Persists.errorAt _ _).bind fun _ => Persists.next.bind fun _ =>
      (Persists.accept _).bind fun _ => .pure _

/-- A list of statements ends before a closing brace or at the end of the file, unless there are
enough diagnostics. -/
theorem stmts_lands {list : List Stmt} (h : stmts deep false r = .ok list later) :
    later.isFull = true ∨ later.token.kind = .rbrace ∨ later.token.kind = .eof := by
  refine loop_lands (fun later => later.isFull = true ∨ later.token.kind = .rbrace ∨
    later.token.kind = .eof) (fun list a r later h => ?_) h
  let atEnd := r.isFull || r.token.kind = .rbrace || r.token.kind = .eof ||
    (false && r.token.kind = .elseWord)
  change (if atEnd = true then _ else _ : Parse _) r = _ at h
  split at h
  · next hend =>
    cases h
    simpa [atEnd, or_assoc] using hend
  · rw [token_bind] at h
    obtain ⟨read, mid, -, h⟩ := bind_run_eq_ok.1 h
    cases read with
    | some s =>
      obtain ⟨_, _, -, h⟩ := bind_run_eq_ok.1 h
      cases h
    | none =>
      obtain ⟨_, _, -, h⟩ := bind_run_eq_ok.1 h
      cases h

/-- A file ends where its source does, unless there are enough diagnostics. -/
theorem file_lands {list : List Stmt} (h : file deep r = .ok list later) :
    later.isFull = true ∨ later.token.kind = .eof := by
  refine loop_lands (fun later => later.isFull = true ∨ later.token.kind = .eof)
    (fun list a r later h => ?_) h
  obtain ⟨more, mid, hmore, h⟩ := bind_run_eq_ok.1 h
  rw [pos_bind, isFull_bind, kind_bind] at h
  have hlands := stmts_lands hmore
  split at h
  · next hend =>
    cases h
    rcases hlands with hfull | hbrace | heof
    · exact .inl hfull
    · rw [hbrace] at hend
      exact .inl (by simpa using hend)
    · exact .inr heof
  · obtain ⟨_, _, -, h⟩ := bind_run_eq_ok.1 h
    obtain ⟨_, _, -, h⟩ := bind_run_eq_ok.1 h
    obtain ⟨_, _, -, h⟩ := bind_run_eq_ok.1 h
    cases h

/-- Every round of a list of statements but the last takes a token, whatever the reader. -/
theorem stmtsRound_takes {depth : Nat} {inBlock : Bool} {list list' : List Stmt} {r later : Reader}
    (h : stmtsRound (Nested.ofDepth depth) inBlock list r = .ok (.again list') later) :
    ∃ tokens, tokens ≠ [] ∧ r.Takes tokens later := by
  have hround := (stmtsRound_finishes (m := ⟨[], False, depth, false⟩)
    (Nested.finishes_ofDepth depth) inBlock list).run (r := r) nofun
  rw [h] at hround
  obtain ⟨⟨tokens, htakes, hmoved⟩, -⟩ := hround
  exact ⟨tokens, (hmoved rfl).1, htakes⟩

end Grammar

/-! ### Whole sources -/

/-- A source is parsed, the tokens taken from its cursor and kept in sight. -/
theorem Parse.source_finishes {source : List Glyph} {r : Reader} (hr : r.Ready source) :
    ∃ stmts later tokens, Parse.source r = .ok stmts later ∧ later.Ready source ∧
      r.Takes tokens later ∧ tokens ≠ [] ∧ (later.isFull = true ∨ later.token.kind = .eof) := by
  rcases nextWithin_run source True r.bound r fun _ => ⟨hr, r.cursor_weight_lt_bound⟩ with
    ⟨first, tokens, hnext, htokens, htakes, hfirst⟩ | ⟨hnot, -⟩
  · have hsource : Parse.source r = Grammar.file (Nested.ofDepth first.bound) first := by
      unfold Parse.source
      rw [bind_run_ok ((next_run r).trans hnext), get_bind]
    have hfinishes : Finishes ⟨source, True, first.bound, false⟩ false anyToken
        (Grammar.file (Nested.ofDepth first.bound)) (fun _ => True) fun _ => false :=
      Grammar.file_finishes (Nested.finishes_ofDepth first.bound)
    have hrun := hfinishes.run (r := first) fun _ =>
      ⟨hfirst trivial, Nat.le_of_lt first.weight_lt_bound⟩
    rw [hsource]
    cases hfile : Grammar.file (Nested.ofDepth first.bound) first with
    | ok list later =>
      rw [hfile] at hrun
      obtain ⟨⟨more, hmore, -⟩, hlater⟩ := hrun
      exact ⟨list, later, tokens ++ more, rfl, (hlater trivial).1, htakes.trans hmore,
        List.append_ne_nil_of_left_ne_nil htokens _, Grammar.file_lands hfile⟩
    | error e later =>
      rw [hfile] at hrun
      cases e with
      | bail => exact absurd hfile (Grammar.file_persists _ first later)
      | fault f => exact absurd trivial hrun
  · exact absurd trivial hnot

theorem SourceFile.ready_reader {source : List Glyph} {cursor : Cursor} (h : cursor.Sound source)
    (maxErrors : Nat) : (reader cursor maxErrors).Ready source :=
  ⟨h, h.inSource.offset_le, fun _ hd => absurd hd List.not_mem_nil⟩

/-- The cursor at the start of a source hands out only what is in it. -/
theorem Cursor.sound_bytes {bytes : List UInt8} {options : ScanOptions}
    (hbytes : (∃ text, bytes = utf8 text) ∨ options.comments = false) {file : SourceFile}
    (hsize : file.size = bytes.length) (hlines : file.lines = [0]) :
    (start file options (Glyph.ofBytes bytes)).Sound (Glyph.ofBytes bytes) := by
  refine sound_start (hsize.trans (Glyph.widths_ofBytes bytes).symm) hlines fun hon g hg => ?_
  rcases hbytes with ⟨text, rfl⟩ | hoff
  · have hglyphs : Glyph.ofBytes (utf8 text) = Glyph.ofText text := Glyph.ofBytes_toUTF8 text
    rw [hglyphs] at hg
    obtain ⟨ch, -, rfl⟩ := List.mem_map.1 hg
    exact ⟨ch, rfl⟩
  · rw [hoff] at hon
    cases hon

/-- A text is read to its end, or up to the last diagnostic that may be recorded, and so is every
source if comments are no tokens. -/
theorem SourceFile.source_lands {bytes : List UInt8} {options : ParseOptions}
    (hbytes : (∃ text, bytes = utf8 text) ∨ options.scan.comments = false) {file : SourceFile}
    (hsize : file.size = bytes.length) (hlines : file.lines = [0]) :
    ∃ stmts r, Parse.source (reader (Cursor.start file options.scan (Glyph.ofBytes bytes))
        options.maxErrors) = .ok stmts r ∧ (r.isFull = true ∨ r.token.kind = .eof) := by
  have hready := ready_reader (Cursor.sound_bytes hbytes hsize hlines) options.maxErrors
  obtain ⟨stmts, r, tokens, hrun, -, -, -, hlands⟩ := source_finishes hready
  exact ⟨stmts, r, hrun, hlands⟩

theorem SourceFile.parseLocal_of_source {f : SourceFile} {glyphs : List Glyph}
    {options : ParseOptions} {cursor : Cursor} {stmts : List Stmt} {r : Reader}
    (hstart : Cursor.start? f options.scan glyphs = .ok cursor)
    (hrun : Parse.source (reader cursor options.maxErrors) = .ok stmts r) :
    f.parseLocal glyphs options =
      .ok ⟨⟨stmts, r.comments⟩, Diagnostic.sort r.errors, r.cursor.file⟩ := by
  simp only [parseLocal, hstart, hrun, bind, Except.bind]
  rfl

/-- Every text is parsed, and so is every source if comments are no tokens. Nothing is looked up
outside the source, which would be a fault; nothing is left of the source behind the last token
unless diagnostics broke off the reading; and no round of a list of statements but the last one goes
by without a token. -/
theorem FileSet.parse_finishes {bytes : List UInt8} {options : ParseOptions}
    (hbytes : (∃ text, bytes = utf8 text) ∨ options.scan.comments = false) (set : FileSet)
    (name : String) :
    (∃ cursor stmts r later,
      Cursor.start? { name, base := set.base, size := bytes.length } options.scan
        (Glyph.ofBytes bytes) = .ok cursor ∧
      Parse.source (SourceFile.reader cursor options.maxErrors) = .ok stmts r ∧
      set.parse name (Glyph.ofBytes bytes) options =
        .ok (⟨Document.shift set.base ⟨stmts, r.comments⟩, Diagnostic.sort r.errors, r.cursor.file⟩,
          later) ∧
      (r.isFull = true ∨ r.token.kind = .eof ∧ r.cursor.rest = []) ∧
      (∀ d ∈ r.errors, d.place.offset ≤ bytes.length) ∧
      ∀ e ∈ r.cursor.errors, e.place.offset ≤ bytes.length) ∧
    (∀ deep inBlock, Grammar.stmts deep inBlock = loop [] (Grammar.stmtsRound deep inBlock)) ∧
    ∀ depth inBlock list list' r later,
      Grammar.stmtsRound (Nested.ofDepth depth) inBlock list r = .ok (.again list') later →
        ∃ tokens, tokens ≠ [] ∧ Reader.Takes r tokens later := by
  refine ⟨?_, Grammar.stmts_eq, fun _ _ _ _ _ _ h => Grammar.stmtsRound_takes h⟩
  let file : SourceFile := { name, base := set.base, size := bytes.length }
  let cursor := Cursor.start file options.scan (Glyph.ofBytes bytes)
  have hsize : file.size = Glyph.widths (Glyph.ofBytes bytes) := (Glyph.widths_ofBytes bytes).symm
  have hstart : Cursor.start? file options.scan (Glyph.ofBytes bytes) = .ok cursor := if_pos hsize
  have hsound : cursor.Sound (Glyph.ofBytes bytes) := Cursor.sound_bytes hbytes rfl rfl
  have hwidths : Glyph.widths (Glyph.ofBytes bytes) = bytes.length := Glyph.widths_ofBytes bytes
  obtain ⟨stmts, r, tokens, hrun, hready, htakes, htokens, hlands⟩ :=
    source_finishes (SourceFile.ready_reader hsound options.maxErrors)
  obtain ⟨later, hparse⟩ : ∃ later, set.parse name (Glyph.ofBytes bytes) options =
      .ok (⟨Document.shift set.base ⟨stmts, r.comments⟩, Diagnostic.sort r.errors, r.cursor.file⟩,
        later) := by
    have hlocal := SourceFile.parseLocal_of_source hstart hrun
    unfold FileSet.parse FileSet.add
    rw [hwidths, Option.getD_none, if_neg (Nat.lt_irrefl _)]
    change ∃ later, (file.parse (Glyph.ofBytes bytes) options >>= _) = _
    unfold SourceFile.parse
    rw [hlocal]
    exact ⟨_, rfl⟩
  refine ⟨cursor, stmts, r, later, hstart, hrun, hparse, ?_, ?_, ?_⟩
  · exact hlands.imp_right fun heof => ⟨heof, htakes.rest_eq hsound.inner htokens heof⟩
  · exact hwidths ▸ hready.errors_le
  · exact hwidths ▸ hready.cursor.errors_le

/-- A text with nothing right in it, and bytes that are no text. -/
theorem FileSet.parse_finishes_malformed :
    (∃ parsed, FileSet.parse {} "main" (Glyph.ofBytes (utf8 "if x := \x7b \x7d \x7d /* é"))
      { scan := { comments := true }, maxErrors := 0 } = .ok parsed) ∧
    ∃ parsed, FileSet.parse {} "main" (Glyph.ofBytes [0x7B, 0xFF, 0x29]) {} = .ok parsed := by
  constructor
  · obtain ⟨⟨_, _, _, _, -, -, hparse, -⟩, -⟩ :=
      FileSet.parse_finishes (.inl ⟨_, rfl⟩) {} "main"
    exact ⟨_, hparse⟩
  · obtain ⟨⟨_, _, _, _, -, -, hparse, -⟩, -⟩ :=
      @FileSet.parse_finishes [0x7B, 0xFF, 0x29] {} (.inr rfl) {} "main"
    exact ⟨_, hparse⟩

end TemplateScript
