import TemplateScript.Proofs.Agree.Pooled
import TemplateScript.Proofs.Agree.Pragma
import TemplateScript.Proofs.Finish.Source
import TemplateScript.Proofs.Grammar.Tracked

/-!
# Pragma lines count as a whole

The options of a pragma line are collected while its entries are read, and are set behind the last
of them. So a line that is given up sets nothing. Of a line that is read to its end, every option is
decided by the last entry with a value that suits it. An entry with another value is recorded as
wrong and decides nothing, and neither does one with an unknown key. A delimiter that is decided to
be empty stays as it was.

All tokens of a pragma line wait for the reader once the first of them has been handed out, and no
phrase for an expression uses the token that ends the line. So the line is a track, along which the
options stay as they were, and a value in it is read or given up in the line. Only statements in
braces could set options, and no brace opens there.
-/

namespace TemplateScript

open Parse Track

/-! ### Pragma lines as tracks -/

/-- The end of a pragma line, what is behind it, and the options in force before it. -/
structure LineEnd where
  options : ScanOptions
  closing : Token
  behind : List Token
  kind_eq : closing.kind = .pragmaEnd

namespace LineEnd

variable {line : LineEnd} {t : Token} {tokens later : List Token}

/-- The tokens are the last ones of the line and those behind it. No brace opens in the line. -/
inductive Holds (line : LineEnd) : List Token → Prop
  | closing : line.Holds (line.closing :: line.behind)
  | token {t : Token} {rest : List Token} (hbrace : t.kind ≠ .lbrace) (hend : t.kind ≠ .pragmaEnd)
    (hrest : line.Holds rest) : line.Holds (t :: rest)

theorem Holds.of_append {inner : List Token}
    (h : ∀ t ∈ inner, t.kind ≠ .lbrace ∧ t.kind ≠ .pragmaEnd) :
    line.Holds (inner ++ line.closing :: line.behind) := by
  induction inner with
  | nil => exact .closing
  | cons t rest ih =>
    obtain ⟨ht, hrest⟩ := List.forall_mem_cons.1 h
    exact .token ht.1 ht.2 (ih hrest)

theorem Holds.exists_cons (h : line.Holds tokens) : ∃ t rest, tokens = t :: rest := by
  cases h with
  | closing => exact ⟨_, _, rfl⟩
  | token => exact ⟨_, _, rfl⟩

theorem Holds.kind_ne_lbrace (h : line.Holds (t :: later)) : t.kind ≠ .lbrace := by
  cases h with
  | closing =>
    rw [line.kind_eq]
    decide
  | token hbrace => exact hbrace

/-- Behind every token but the one that ends the line, the line goes on. -/
theorem Holds.rest (h : line.Holds (t :: later)) (hend : t.kind ≠ .pragmaEnd) :
    line.Holds later := by
  cases h with
  | closing => exact absurd line.kind_eq hend
  | token _ _ hrest => exact hrest

end LineEnd

namespace Reader

variable {line : LineEnd} {r : Reader}

/-- The tokens that wait are the last ones of the line. -/
structure AwaitsLine (line : LineEnd) (r : Reader) : Prop where
  options_eq : r.cursor.options = line.options
  pool : line.Holds r.cursor.pool

/-- The reader is in the line, with one of its tokens in hand. -/
structure InLine (line : LineEnd) (r : Reader) : Prop where
  options_eq : r.cursor.options = line.options
  tokens : line.Holds (r.token :: r.cursor.pool)

theorem InLine.awaits (h : r.InLine line) (hend : r.token.kind ≠ .pragmaEnd) :
    r.AwaitsLine line :=
  ⟨h.options_eq, h.tokens.rest hend⟩

theorem InLine.record (h : r.InLine line) (d : Diagnostic) : (r.record d).InLine line := by
  refine ⟨?_, ?_⟩
  · rw [record_cursor]
    exact h.options_eq
  · rw [record_token, record_cursor]
    exact h.tokens

/-- A token that waits is the next one, and then the others wait. -/
theorem AwaitsLine.scan (h : r.AwaitsLine line) :
    line.Holds (r.cursor.scan.2 :: r.cursor.scan.1.pool) ∧
      (r.moveTo r.cursor.scan.1).cursor.options = line.options ∧
      (r.moveTo r.cursor.scan.1).cursor.pool = r.cursor.scan.1.pool := by
  obtain ⟨t, rest, hpool⟩ := h.pool.exists_cons
  have hscan : r.cursor.scan = ({ r.cursor with pool := rest }, t) := by
    unfold Cursor.scan
    rw [hpool]
  rw [moveTo_cursor, hscan]
  exact ⟨hpool ▸ h.pool, h.options_eq, rfl⟩

end Reader

namespace Reader

variable {line : LineEnd} {r : Reader}

/-- The tokens that wait are taken one by one, however many of them are comments. -/
theorem AwaitsLine.nextWithin_arrives (limit : Nat) {r : Reader} (hr : r.AwaitsLine line) :
    Arrives (fun _ : Unit => InLine line) () (nextWithin limit r) := by
  induction limit generalizing r with
  | zero => trivial
  | succ limit ih =>
    obtain ⟨htokens, hoptions, hpool⟩ := hr.scan
    rw [nextWithin_succ]
    split
    · next hcomment =>
      have hrest := htokens.rest fun h => absurd (hcomment.symm.trans h) (by decide)
      exact .line_bind fun _ => .line_bind fun _ => ih ⟨hoptions, hpool ▸ hrest⟩
    · exact ⟨hoptions, hpool ▸ htokens⟩

theorem InLine.next_arrives (hr : r.InLine line) (hend : r.token.kind ≠ .pragmaEnd) :
    Arrives (fun _ : Unit => InLine line) () (next r) :=
  (hr.awaits hend).nextWithin_arrives r.bound

end Reader

/-- A pragma line as a track. It does not matter where on the line the reader is. -/
def LineEnd.track (line : LineEnd) : Track Unit where
  On _ r := r.InLine line
  inside _ s := s
  record hr _ := hr.record _
  kind_ne_lbrace hr := hr.tokens.kind_ne_lbrace
  next hr hkind := hr.next_arrives fun hend => hkind (hend ▸ by decide)
  next_opening hr hkind := hr.next_arrives fun hend => by
    rw [hend] at hkind
    cases hkind
  next_closing hr hkind hcloser := hr.next_arrives fun hend =>
    absurd (hkind ▸ hcloser) (hend ▸ by decide)
  next_semicolon hr hkind := hr.next_arrives fun hend =>
    absurd (hkind.symm.trans hend) (by decide)

namespace Track.Leads

variable {α β : Type} {line : LineEnd} {t : Token} {p : Parse α}

/-- In a pragma line, what was given up is left in the line as well. -/
theorem attempt (hp : line.track.Stays t () p) : line.track.Stays t () (attempt p) := by
  intro r hr ht
  have hrun := hp r hr ht
  unfold Parse.attempt
  cases hpr : p r with
  | ok a mid =>
    rw [hpr] at hrun
    exact hrun
  | error e mid =>
    rw [hpr] at hrun
    cases e with
    | bail => exact hrun.elim fun _ hmid => hmid
    | fault f => trivial

/-- Every token of the line but its last one may be used. -/
theorem next_inner_bind {q : Unit → Parse β} (hend : t.kind ≠ .pragmaEnd)
    (h : ∀ u, line.track.Stays u () (q ())) : line.track.Stays t () (Parse.next >>= q) :=
  next_bind_of (fun _ hr ht => Reader.InLine.next_arrives hr (ht ▸ hend)) h

end Track.Leads

/-! ### Settings -/

namespace Grammar

/-- What entries of a pragma line say of one option: the last setting that one of them makes. -/
def lastSetting {α : Type} (setting? : String → Option Expr → Option α)
    (entries : List (KeyValue Expr)) : Option α :=
  (entries.filterMap fun entry =>
    entry.key.ident?.bind fun key => setting? key.name entry.value).getLast?

/-- The setting that an entry with the given key makes, if its value suits it. -/
def settingOf {α : Type} (key : String) (value? : Option Expr → Option α) (name : String)
    (value : Option Expr) : Option α :=
  if name = key then value? value else none

/-- Two keys turn the reading of templates on and off, and they mean the opposite. -/
def mixedSetting (name : String) (value : Option Expr) : Option Bool :=
  (settingOf "mixed" switch? name value).or
    (settingOf "no_mixed" (fun value => (switch? value).map (!·)) name value)

/-- What the entries of a pragma line decide. -/
def decided (entries : List (KeyValue Expr)) : PragmaOptions where
  mixed := lastSetting mixedSetting entries
  opening := lastSetting (settingOf "mixed_start" text?) entries
  closing := lastSetting (settingOf "mixed_end" text?) entries
  floatsAsDecimal := lastSetting (settingOf "float_as_decimal" switch?) entries
  charAsString := lastSetting (settingOf "char_as_string" switch?) entries
  valueSugar := lastSetting (settingOf "mixed_expr_as_value" switch?) entries

theorem lastSetting_append {α : Type} (setting? : String → Option Expr → Option α)
    (entries : List (KeyValue Expr)) (key : Ident) (value : Option Expr) :
    lastSetting setting? (entries ++ [⟨.ident key, value⟩]) =
      (setting? key.name value).or (lastSetting setting? entries) := by
  unfold lastSetting
  rw [List.filterMap_append, List.getLast?_append]
  congr 1
  cases h : setting? key.name value with
  | none => simp [Expr.ident?, h]
  | some a => simp [Expr.ident?, h]

/-- One more entry decides what it sets, and leaves everything if its value does not suit its key.
-/
theorem decided_append (entries : List (KeyValue Expr)) (key : Ident) (value : Option Expr) :
    decided (entries ++ [⟨.ident key, value⟩]) =
      (setOption? (decided entries) key.name value).getD (decided entries) := by
  have hother {α : Type} {name : String} {value? : Option Expr → Option α}
      (h : key.name ≠ name) : settingOf name value? key.name value = none := if_neg h
  simp only [decided, lastSetting_append]
  unfold setOption?
  split
  case h_3 heq | h_4 heq =>
    cases hvalue : text? value <;> simp [mixedSetting, settingOf, heq, hvalue]
  case h_8 hmixed hnoMixed hopening hclosing hfloats hchars hsugar =>
    simp [mixedSetting, hother hmixed, hother hnoMixed, hother hopening, hother hclosing,
      hother hfloats, hother hchars, hother hsugar]
  all_goals
    next heq => cases hvalue : switch? value <;> simp [mixedSetting, settingOf, heq, hvalue]

end Grammar

/-- Setting the options of a pragma line changes those that it decides, and no others. -/
theorem Cursor.apply_options (c : Cursor) (set : PragmaOptions) :
    (c.apply set).options = c.options.after set := by
  have hmixed (c : Cursor) (on : Bool) :
      (c.setMixed on).options = { c.options with mixed := on } := by
    unfold setMixed
    split
    · next hon =>
      subst hon
      rfl
    · rfl
  obtain ⟨mixed, opening, closing, floats, chars, sugar⟩ := set
  cases mixed <;> cases floats <;> cases chars <;> cases sugar <;>
    simp [Cursor.apply, hmixed, ScanOptions.after, setDelimiters, setFloatsAsDecimal,
      setCharAsString, setValueSugar]

namespace Parse

variable {α β σ : Type} {line : LineEnd} {t : Token} {promise : α → Prop}

/-! ### Giving up the line -/

/-- What came of a phrase that may give up the whole line: a reader in the line, with what was
promised, or one that has the options that it had. -/
def Sets (line : LineEnd) (promise : α → Prop) : EStateM.Result Halt Reader α → Prop
  | .ok a later => later.InLine line ∧ promise a
  | .error .bail later => later.cursor.options = line.options
  | .error (.fault _) _ => True

theorem Arrives.sets {result : EStateM.Result Halt Reader α}
    (h : Arrives line.track.On () result) :
    Sets line (fun _ => True) result := by
  cases result with
  | ok a later => exact ⟨h, trivial⟩
  | error e later =>
    cases e with
    | bail => exact h.elim fun _ hlater => Reader.InLine.options_eq hlater
    | fault f => trivial

theorem Sets.bind {p : Parse α} {q : α → Parse β} {last : β → Prop} {r : Reader}
    (hp : Sets line promise (p r))
    (hq : ∀ a (later : Reader), later.InLine line → promise a → Sets line last (q a later)) :
    Sets line last ((p >>= q) r) := by
  rw [bind_run]
  cases hpr : p r with
  | ok a mid =>
    rw [hpr] at hp
    exact hq a mid hp.1 hp.2
  | error e mid =>
    rw [hpr] at hp
    cases e with
    | bail => exact hp
    | fault f => trivial

/-- What every round of a loop keeps is there in the last one. -/
theorem Sets.rounds {round : σ → Parse (Round σ α)} {kept : σ → Prop}
    (hround : ∀ s (r : Reader), r.InLine line → kept s → Sets line (fun
      | .again s => kept s
      | .done a => promise a) (round s r)) (limit : Nat) {s : σ} {r : Reader}
    (hr : r.InLine line) (hs : kept s) : Sets line promise (Parse.rounds round limit s r) := by
  induction limit generalizing s r with
  | zero => trivial
  | succ limit ih =>
    unfold Parse.rounds
    refine (hround s r hr hs).bind fun result later hlater hresult => ?_
    cases result with
    | again s' => exact ih hlater hresult
    | done a => exact ⟨hlater, hresult⟩

theorem Sets.loop {round : σ → Parse (Round σ α)} {kept : σ → Prop}
    (hround : ∀ s (r : Reader), r.InLine line → kept s → Sets line (fun
      | .again s => kept s
      | .done a => promise a) (round s r)) {s : σ} {r : Reader} (hr : r.InLine line)
    (hs : kept s) : Sets line promise (Parse.loop s round r) := by
  unfold Parse.loop
  rw [get_bind]
  exact .rounds hround r.bound hr hs

/-- A token that is read changes no options. -/
theorem nextWithin_options {limit : Nat} {r later : Reader} {a : Unit}
    (h : nextWithin limit r = .ok a later) : later.cursor.options = r.cursor.options := by
  induction limit generalizing r with
  | zero => cases h
  | succ limit ih =>
    have hmoved : (r.moveTo r.cursor.scan.1).cursor.options = r.cursor.options := by
      rw [Reader.moveTo_cursor]
      exact (Cursor.reads_scan r.cursor).options_eq
    rw [nextWithin_succ] at h
    split at h
    · obtain ⟨first, mid, hfirst, h⟩ := bind_run_eq_ok.1 h
      obtain ⟨last, mid', hlast, h⟩ := bind_run_eq_ok.1 h
      obtain rfl := line_stays hfirst
      obtain rfl := line_stays hlast
      exact (ih h).trans hmoved
    · cases h
      exact hmoved

theorem next_options {r later : Reader} {a : Unit} (h : next r = .ok a later) :
    later.cursor.options = r.cursor.options :=
  nextWithin_options ((next_run r).symm.trans h)

/-- What is skipped of a line that is given up, and the token that ends it, change no options. -/
theorem abandonPragma_sets {r : Reader} (hr : r.InLine line) :
    Sets line promise ((Grammar.abandonPragma : Parse α) r) := by
  have hskip : line.track.Stays r.token () (loop () fun _ => do
      if ← Grammar.atPragmaEnd then return Round.done ()
      else
        next
        return Round.again ()) := by
    refine .loop (fun _ u => ?_) _
    unfold Grammar.atPragmaEnd
    rw [bind_assoc]
    refine .kind_bind ?_
    rw [pure_bind]
    split
    · exact .pure _
    · next hend => exact .next_inner_bind (fun hkind => hend (by simp [hkind])) fun _ => .pure _
  refine (hskip r hr rfl).sets.bind fun _ later hlater _ => ?_
  unfold accept
  rw [bind_assoc, kind_bind]
  split
  · rw [bind_assoc, bind_run]
    cases hnext : next later with
    | ok _ last => exact (next_options hnext).trans hlater.options_eq
    | error e last =>
      cases e with
      | bail => exact (Persists.next _ _ hnext).elim
      | fault f => trivial
  · exact hlater.options_eq

/-- A phrase that stays in the line gives up the whole line if it is given up. -/
theorem inPragma_sets {p : Parse α} {r : Reader} (hp : line.track.Stays r.token () p)
    (hr : r.InLine line) : Sets line (fun _ => True) (Grammar.inPragma p r) := by
  refine (hp.attempt r hr rfl).sets.bind fun read later hlater _ => ?_
  cases read with
  | some a => exact ⟨hlater, trivial⟩
  | none => exact abandonPragma_sets hlater

end Parse

namespace Grammar

variable {line : LineEnd} {deep : Nested} {r later : Reader}

/-! ### Entries -/

theorem pragmaKey_stays {t : Token} : line.track.Stays t () pragmaKey := by
  unfold pragmaKey
  refine .token_bind ?_
  split
  · next hkind =>
    refine .next_inner_bind (fun hend => ?_) fun _ => .pure _
    rw [hend] at hkind
    cases hkind
  · exact .failExpected _

/-- The options that were collected are those that the entries decide. -/
abbrev PragmaLine.IsDecided (read : PragmaLine) : Prop := read.options = decided read.entries

theorem pragmaEntry_decided (hdeep : deep.Stays line.track) {read : PragmaLine}
    (hread : read.IsDecided) (hr : r.InLine line) :
    Sets line PragmaLine.IsDecided (pragmaEntry deep read r) := by
  have haccept {later : Reader} (h : later.InLine line) :
      Sets line (fun _ => True) (accept .assign later) :=
    (Leads.accept (by decide) later h rfl).sets
  -- what an entry decides, whatever its value is
  have hadd (key : Ident) (value : Option Expr) {later : Reader} (hlater : later.InLine line)
      {added : Parse PragmaLine}
      (hsome : ∀ options, setOption? read.options key.name value = some options →
        added = pure ⟨read.entries ++ [⟨.ident key, value⟩], options⟩)
      (hnone : setOption? read.options key.name value = none → added = do
        errorAt key.pos (.invalidPragma ("bad value for '" ++ key.name ++ "'"))
        return ⟨read.entries ++ [⟨.ident key, value⟩], read.options⟩) :
      Sets line PragmaLine.IsDecided (added later) := by
    have hdecided := decided_append read.entries key value
    rw [← show read.options = _ from hread] at hdecided
    cases hset : setOption? read.options key.name value with
    | some options =>
      rw [hset] at hdecided
      rw [hsome options hset]
      exact ⟨hlater, hdecided.symm⟩
    | none =>
      rw [hset] at hdecided
      rw [hnone hset]
      have herror : line.track.Stays later.token () (errorAt key.pos
          (.invalidPragma ("bad value for '" ++ key.name ++ "'"))) := .errorAt _ nofun
      exact (herror later hlater rfl).sets.bind fun _ _ h _ => ⟨h, hdecided.symm⟩
  unfold pragmaEntry
  refine (inPragma_sets pragmaKey_stays hr).bind fun key later hlater _ =>
    (haccept hlater).bind fun given later hlater _ => ?_
  dsimp only
  cases given with
  | false =>
    rw [if_neg Bool.false_ne_true, pure_bind]
    exact hadd key none hlater (fun options h => by rw [h]) fun h => by rw [h]
  | true =>
    rw [if_pos rfl, map_eq_pure_bind, bind_assoc]
    refine (inPragma_sets (unary_stays hdeep) hlater).bind fun value later hlater _ => ?_
    rw [pure_bind]
    exact hadd key (some value) hlater (fun options h => by rw [h]) fun h => by rw [h]

theorem pragmaEntries_decided (hdeep : deep.Stays line.track) (hr : r.InLine line) :
    Sets line PragmaLine.IsDecided (pragmaEntries deep r) := by
  have hnone : PragmaLine.IsDecided {} := rfl
  unfold pragmaEntries
  refine .loop (fun read r hr hread => ?_) hr hnone
  unfold atPragmaEnd
  rw [bind_assoc, kind_bind, pure_bind]
  split
  · exact ⟨hr, hread⟩
  · refine (pragmaEntry_decided hdeep hread hr).bind fun read later hlater hread =>
      (Leads.accept (by decide) later hlater rfl).sets.bind fun more later hlater _ => ?_
    split
    · exact ⟨hlater, hread⟩
    · exact ⟨hlater, hread⟩

/-! ### The line -/

theorem next_pragmaEntries_decided (hdeep : deep.Stays line.track) (hr : r.AwaitsLine line) :
    Sets line PragmaLine.IsDecided ((next >>= fun _ => pragmaEntries deep) r) := by
  have hnext : Arrives line.track.On () (next r) := hr.nextWithin_arrives r.bound
  exact hnext.sets.bind fun _ _ hfirst _ => pragmaEntries_decided hdeep hfirst

/-- A line that is given up sets nothing. -/
theorem pragma_options_of_bail (hdeep : deep.Stays line.track) (hr : r.AwaitsLine line)
    (h : Grammar.pragma deep r = .error .bail later) : later.cursor.options = line.options := by
  have hentries := next_pragmaEntries_decided hdeep hr
  unfold Grammar.pragma at h
  rw [pos_bind, ← bind_assoc, bind_run] at h
  cases hrun : (next >>= fun _ => pragmaEntries deep) r with
  | error e mid =>
    rw [hrun] at hentries h
    cases h
    exact hentries
  | ok read mid =>
    rw [hrun] at hentries h
    dsimp only at h
    rw [pos_bind, kind_bind] at h
    split at h
    · -- behind the entries nothing is given up, only the end of the line is used
      exact ((Persists.next.bind fun _ => .pure _) _ _ h).elim
    · have hfail : Sets line (fun _ => True)
          (inPragma (failExpected "end of pragma" : Parse Stmt) mid) :=
        inPragma_sets (.failExpected _) hentries.1
      rw [h] at hfail
      exact hfail

/-- Of a line that is read, the entries decide all options that are set. -/
theorem pragma_options_of_ok {s : Stmt} (hdeep : deep.Stays line.track) (hr : r.AwaitsLine line)
    (h : Grammar.pragma deep r = .ok s later) :
    ∃ entries last, s = .pragma r.token.pos entries (decided entries) last ∧
      later.cursor.options = line.options.after (decided entries) := by
  obtain ⟨read, mid, hrun, hkind, hnext, rfl⟩ := pragma_eq_ok h
  have hentries := next_pragmaEntries_decided hdeep hr
  rw [hrun] at hentries
  obtain ⟨hmid, hdecided⟩ := hentries
  refine ⟨read.entries, mid.token.pos, by rw [hdecided], ?_⟩
  rw [next_options hnext, Cursor.apply_options, hmid.options_eq, hdecided]

/-- A pragma line counts as a whole or not at all, whatever the reader did before and whatever is
behind the line, if no brace opens in it. If it is given up, all options are what they were. If it
is read, the options change as its entries decide: an option that none of them sets keeps its value,
and so does a delimiter that is set to an empty text. A reader of a source either reads the line or
gives it up. -/
theorem pragma_whole {run behind : List Token} {closing : Token}
    (hpool : r.cursor.pool = run ++ closing :: behind) (hclosing : closing.kind = .pragmaEnd)
    (hrun : ∀ t ∈ run, t.kind ≠ .lbrace ∧ t.kind ≠ .pragmaEnd) (depth : Nat) :
    (∀ later, Grammar.pragma (Nested.ofDepth depth) r = .error .bail later →
      later.cursor.options = r.cursor.options) ∧
    (∀ s later, Grammar.pragma (Nested.ofDepth depth) r = .ok s later →
      ∃ entries last, s = .pragma r.token.pos entries (decided entries) last ∧
        later.cursor.options = r.cursor.options.after (decided entries)) ∧
    (∀ source, r.Ready source → r.token.kind = .pragmaStart → r.weight ≤ depth →
      (∃ later, Grammar.pragma (Nested.ofDepth depth) r = .error .bail later) ∨
        ∃ s later, Grammar.pragma (Nested.ofDepth depth) r = .ok s later) := by
  let line : LineEnd := ⟨r.cursor.options, closing, behind, hclosing⟩
  have hawaits : r.AwaitsLine line := ⟨rfl, hpool ▸ .of_append hrun⟩
  have hdeep := Nested.stays_ofDepth line.track depth
  refine ⟨fun later => pragma_options_of_bail hdeep hawaits, fun s later =>
    pragma_options_of_ok hdeep hawaits, fun source hready hkind hweight => ?_⟩
  have hfinishes : Finishes ⟨source, True, depth, false⟩ false (· = r.token)
      (Grammar.pragma (Nested.ofDepth depth)) (fun _ => True) fun _ => true :=
    pragma_finishes (Nested.finishes_ofDepth depth) (hkind ▸ nofun)
  have hcame := hfinishes r r (.refl r) (fun _ => ⟨hready, hweight⟩) rfl
  cases hpragma : Grammar.pragma (Nested.ofDepth depth) r with
  | ok s later => exact .inr ⟨s, later, rfl⟩
  | error e later =>
    rw [hpragma] at hcame
    cases e with
    | bail => exact .inl ⟨later, rfl⟩
    | fault f => exact absurd trivial hcame

/-- The reader that has the first token of a text in hand. -/
def firstReader (text : String) : Reader :=
  let glyphs := Glyph.ofText text
  let file : SourceFile := { name := "test", base := 1, size := Glyph.widths glyphs }
  let start := SourceFile.reader (Cursor.start file {} glyphs) 10
  match next start with
  | .ok _ r => r
  | .error _ r => r

/-- Of a line with a wrong value and a right one, the right one counts. -/
theorem pragma_whole_charAsString :
    let r := firstReader "# gad: mixed=1, char_as_string\nx"
    let run : List Token := [⟨.ident, "mixed", 7, {}⟩, ⟨.assign, "", 12, {}⟩, ⟨.int, "1", 13, {}⟩,
      ⟨.comma, "", 14, {}⟩, ⟨.ident, "char_as_string", 16, {}⟩]
    let closing : Token := ⟨.pragmaEnd, "", 30, {}⟩
    r.cursor.pool = run ++ [closing] ∧ closing.kind = .pragmaEnd ∧
      (∀ t ∈ run, t.kind ≠ .lbrace ∧ t.kind ≠ .pragmaEnd) ∧
      ∃ s later entries last, Grammar.pragma (Nested.ofDepth 9) r = .ok s later ∧
        s = .pragma 0 entries (decided entries) last ∧
        later.cursor.options = ({} : ScanOptions).after (decided entries) ∧
        later.cursor.options = { charAsString := true } := by
  intro r run closing
  have hpool : r.cursor.pool = run ++ [closing] := by decide +kernel
  have hrun : ∀ t ∈ run, t.kind ≠ .lbrace ∧ t.kind ≠ .pragmaEnd := by decide
  have hstart : r.token.pos = 0 ∧ r.cursor.options = {} := by decide +kernel
  have hoptions : (match Grammar.pragma (Nested.ofDepth 9) r with
      | .ok _ later => some later.cursor.options
      | .error _ _ => none) = some { charAsString := true } := by
    decide +kernel
  refine ⟨hpool, rfl, hrun, ?_⟩
  cases hpragma : Grammar.pragma (Nested.ofDepth 9) r with
  | error e later =>
    rw [hpragma] at hoptions
    cases hoptions
  | ok s later =>
    rw [hpragma] at hoptions
    obtain ⟨entries, last, hs, hafter⟩ := (pragma_whole hpool rfl hrun 9).2.1 s later hpragma
    rw [hstart.1] at hs
    rw [hstart.2] at hafter
    exact ⟨s, later, entries, last, rfl, hs, hafter, Option.some.inj hoptions⟩

/-- An entry that sets a delimiter to an empty text has an effect: the delimiter stays as it was
before the line, and is not what an earlier entry sets. -/
theorem pragma_emptyDelimiter :
    let opening (text : String) : Option String :=
      match Grammar.pragma (Nested.ofDepth 9) (firstReader text) with
      | .ok _ later => some later.cursor.options.delimiters.opening
      | .error _ _ => none
    opening "# gad: mixed_start=\"<<\", mixed_start=\"\"\n" = some "#\x7b" ∧
      opening "# gad: mixed_start=\"<<\"\n" = some "<<" := by
  decide +kernel

end Grammar

end TemplateScript
