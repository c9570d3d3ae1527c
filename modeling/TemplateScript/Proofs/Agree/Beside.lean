import TemplateScript.Proofs.Agree.Pooled
import TemplateScript.Proofs.Agree.Shift
import TemplateScript.Proofs.Cursor.Onward
import TemplateScript.Proofs.Cursor.Quiet
import TemplateScript.Proofs.Grammar.Take

/-!
# Readers side by side

One reader reads a source of plain code, another reads it inside a longer one. They have the same
token in hand and have found the same wrong, as long as the cursors stay side by side. Where a line
break follows the source, its last token is a semicolon, and nothing is wrong with it, the second
reader comes to the end of the file when the first one takes the first token behind the line break.
-/

namespace TemplateScript

open Parse

/-! ### Tokens of plain code -/

namespace Cursor

variable {c : Cursor} {t : Token} {limit : Nat}

/-- The kind of the last token before the end of the file, comments aside. -/
def lastKind? (c : Cursor) : Option Token.Kind :=
  (c.scanAll.2.filter (·.kind ≠ .comment)).dropLast.getLast?.map (·.kind)

/-- The last token before the end of the file, comments aside, is a semicolon, where a token has
been read before the cursor. -/
inductive Closes : Token → Cursor → Prop
  | last {t : Token} {c : Cursor} (hend : c.scan.2.kind = .eof) (hkind : t.kind = .semicolon) :
    Closes t c
  | comment {t : Token} {c : Cursor} (hcomment : c.scan.2.kind = .comment)
    (hrest : Closes t c.scan.1) : Closes t c
  | more {t : Token} {c : Cursor} (hmore : c.scan.2.kind ≠ .eof ∧ c.scan.2.kind ≠ .comment)
    (hrest : Closes c.scan.2 c.scan.1) : Closes t c

theorem Closes.behindComment (h : Closes t c) (hkind : c.scan.2.kind = .comment) :
    Closes t c.scan.1 := by
  cases h with
  | last hend => exact absurd (hkind.symm.trans hend) (by decide)
  | comment _ hrest => exact hrest
  | more hmore => exact absurd hkind hmore.2

theorem Closes.next (h : Closes t c) (hend : c.scan.2.kind ≠ .eof)
    (hcomment : c.scan.2.kind ≠ .comment) : Closes c.scan.2 c.scan.1 := by
  cases h with
  | last hkind => exact absurd hkind hend
  | comment hkind => exact absurd hkind hcomment
  | more _ hrest => exact hrest

theorem Closes.kind_eq (h : Closes t c) (hend : c.scan.2.kind = .eof) : t.kind = .semicolon := by
  cases h with
  | last _ hkind => exact hkind
  | comment hcomment => exact absurd (hcomment.symm.trans hend) (by decide)
  | more hmore => exact absurd hend hmore.1

theorem exists_eof_scanToEnd (hlimit : c.weight < limit) :
    ∃ e ∈ (scanToEnd limit c).2, e.kind = .eof := by
  induction limit generalizing c with
  | zero => exact absurd hlimit (Nat.not_lt_zero _)
  | succ limit ih =>
    rw [scanToEnd]
    dsimp only
    by_cases hkind : c.scan.2.kind = .eof
    · rw [if_pos hkind]
      exact ⟨_, List.mem_singleton_self _, hkind⟩
    · have hlighter := scan_weight_lt c hkind
      obtain ⟨e, he, heof⟩ := ih (show c.scan.1.weight < limit by omega)
      rw [if_neg hkind]
      exact ⟨e, List.mem_cons_of_mem _ he, heof⟩

private theorem getLast?_dropLast_cons {α : Type} (a : α) {list : List α}
    (h : list.dropLast ≠ []) : (a :: list).dropLast.getLast? = list.dropLast.getLast? := by
  have hlist : list ≠ [] := fun hnil => h (by rw [hnil, List.dropLast_nil])
  obtain ⟨b, rest, hinit⟩ := List.exists_cons_of_ne_nil h
  rw [List.dropLast_cons_of_ne_nil hlist, hinit, List.getLast?_cons_cons]

/-- The last token is told of all tokens at once. -/
theorem closes_of_scanToEnd (hlimit : c.weight < limit)
    (h : (t :: (scanToEnd limit c).2.filter (·.kind ≠ .comment)).dropLast.getLast?.map (·.kind) =
      some .semicolon) : Closes t c := by
  induction limit generalizing c t with
  | zero => exact absurd hlimit (Nat.not_lt_zero _)
  | succ limit ih =>
    rw [scanToEnd] at h
    dsimp only at h
    by_cases hend : c.scan.2.kind = .eof
    · rw [if_pos hend, List.filter_cons_of_pos (by simp [hend])] at h
      exact .last hend (Option.some.inj h)
    rw [if_neg hend] at h
    have hlighter := scan_weight_lt c hend
    have hless : c.scan.1.weight < limit := by omega
    by_cases hcomment : c.scan.2.kind = .comment
    · rw [List.filter_cons_of_neg (by simp [hcomment])] at h
      exact .comment hcomment (ih hless h)
    · rw [List.filter_cons_of_pos (by simpa using hcomment)] at h
      obtain ⟨e, he, heof⟩ := exists_eof_scanToEnd hless
      have hmem : e ∈ (scanToEnd limit c.scan.1).2.filter (·.kind ≠ .comment) :=
        List.mem_filter.2 ⟨he, by simp [heof]⟩
      rw [getLast?_dropLast_cons t] at h
      · exact .more ⟨hend, hcomment⟩ (ih hless h)
      · obtain ⟨b, rest, hrest⟩ := List.exists_cons_of_ne_nil (List.ne_nil_of_mem hmem)
        rw [hrest]
        simp

theorem closes_of_lastKind (h : c.lastKind? = some .semicolon) (t : Token) : Closes t c := by
  refine closes_of_scanToEnd c.weight_lt_bound ?_
  rw [getLast?_dropLast_cons t]
  · exact h
  · intro hnil
    rw [lastKind?, scanAll, hnil] at h
    cases h

/-- What is no lexeme is a comment or the end of the file. -/
theorem code_outer (c : Cursor) (hoptions : c.options.IsCode)
    (houter : c.code.2.1.kind.isOuter = true) :
    c.code.2.1.kind = .comment ∨ c.code.2.1.kind = .eof := by
  fun_induction code c with
  | case1 c start last token h =>
    rw [codeEnd?_eq ((skipBlanks_options c).symm ▸ hoptions)] at h
    cases h
  | case2 c start _ head h =>
    rw [pragmaLine?_eq ((skipBlanks_options c).symm ▸ hoptions)] at h
    cases h
  | case3 | case5 | case8 => cases houter
  | case4 => exact .inr rfl
  | case6 c start => exact .inl (comment_kind start)
  | case7 c start _ _ g rest hrest hcomment hpending hcomments ih =>
    exact ih ((comment_options start).trans (skipBlanks_options c) ▸ hoptions) houter
  | case9 c start _ _ g => exact absurd ((lexeme_isOuter start g).symm.trans houter) (by simp)

theorem IsCode.scan_isPlain (h : c.IsCode) : c.scan.2.IsPlain c.scan.1.offset := by
  rw [h.scan_eq]
  exact (code_isPlain c h.toIsCode).2

theorem IsCode.scan_kind_ne (h : c.IsCode) : c.scan.2.kind ≠ .pragmaEnd := by
  rw [h.scan_eq]
  intro hkind
  have houter := code_outer c h.toIsCode
  rw [show c.code.2.1.kind = _ from hkind] at houter
  rcases houter rfl with hkind | hkind <;> cases hkind

theorem IsCode.scan_hasText (h : c.IsCode) : c.scan.2.HasText := by
  refine (Cursor.scan_hasText (fun t ht => ?_)).1
  rw [h.pool_eq] at ht
  exact absurd ht List.not_mem_nil

theorem InSource.lined {source : List Glyph} (h : c.InSource source) : c.Lined := by
  obtain ⟨read, -, -, hfile⟩ := h
  unfold Lined SourceFile.Lined
  rw [hfile.lines_eq]
  rfl

theorem Reaches.name_eq {later : Cursor} (h : c.Reaches later) :
    later.file.name = c.file.name := by
  obtain ⟨read, hread⟩ := h
  rw [hread.file_eq]
  generalize Glyph.breakEnds c.offset read = starts
  generalize c.file = f
  induction starts generalizing f with
  | nil => rfl
  | cons start rest ih => exact (ih _).trans (SourceFile.addLine_name ..)

theorem scan_taken_eq (h : c.Lined) : c.scan.1.taken = c.taken :=
  congrArg (·.1.taken) (scan_taken h c.taken)

end Cursor

namespace Inset

variable {i : Inset} {base c₁ c₂ : Cursor} {r₁ r₂ later : Reader} {t t' : Token}

/-! ### Cursors -/

namespace SameToken

variable {t₁ t₂ : Token}

theorem kind_eq (h : i.SameToken t₁ t₂) : t₁.kind = t₂.kind := by
  rw [show t₁ = t₂.shift i.gap from h]
  rfl

theorem literal_eq (h : i.SameToken t₁ t₂) : t₁.literal = t₂.literal := by
  rw [show t₁ = t₂.shift i.gap from h]
  rfl

theorem pos_eq (h : i.SameToken t₁ t₂) : t₁.pos = t₂.pos + i.gap := by
  rw [show t₁ = t₂.shift i.gap from h]
  rfl

end SameToken

theorem Along.takeErrors (h : i.Along c₁ c₂) : i.Along c₁.takeErrors c₂.takeErrors :=
  { h with
    inWhole := h.inWhole.reaches (.of_eq rfl rfl rfl rfl)
    inSource := h.inSource.reaches (.of_eq rfl rfl rfl rfl)
    isCode₁ := { h.isCode₁ with }
    isCode₂ := { h.isCode₂ with }
    taken_le₁ := Nat.le_refl _
    taken_le₂ := Nat.le_refl _
    newErrors_eq := by simp [Cursor.newErrors, Cursor.takeErrors] }

theorem Beside.takeErrors (h : i.Beside c₁ c₂) : i.Beside c₁.takeErrors c₂.takeErrors :=
  { h.toAlong.takeErrors with
    rest_eq := h.rest_eq
    pending_eq := h.pending_eq }

theorem Behind.takeErrors (h : i.Behind c₁ c₂) : i.Behind c₁.takeErrors c₂.takeErrors :=
  { h.toAlong.takeErrors with
    after_ne := h.after_ne
    rest₁_eq := h.rest₁_eq
    rest₂_eq := h.rest₂_eq
    pending₁_eq := h.pending₁_eq
    pending₂_eq := h.pending₂_eq }

theorem Behind.offset_le (h : i.Behind c₁ c₂) : c₂.offset + i.gap ≤ c₁.offset := by
  obtain ⟨g, rest, hafter⟩ := List.exists_cons_of_ne_nil h.after_ne
  obtain ⟨read₁, hread₁, hoffset₁, -⟩ := h.inWhole
  have hle := Cursor.InSource.offset_le h.inSource
  have hwidths := i.widths_whole
  have hrest := h.rest₁_eq
  rw [hafter, List.tail_cons] at hrest
  rw [hread₁, hrest, hafter, Glyph.widths_append, ← hoffset₁, Glyph.widths] at hwidths
  omega

/-! ### Readers -/

/-- Nothing is wrong with what has been read, and what has yet to be read closes what a token has
begun. -/
structure Clean (i : Inset) (t : Token) (r₁ r₂ : Reader) : Prop where
  ready : r₁.Ready i.whole
  errors_eq : r₂.errors = []
  found_eq : r₂.cursor.errors = []
  closes : Cursor.Closes t r₂.cursor

/-- Both readers have found the same, in a file and with options that stay those of a cursor. A
token has been read before the cursors. -/
structure Level (i : Inset) (base : Cursor) (t : Token) (r₁ r₂ : Reader) : Prop
    extends Reader.SameErrors i.gap i.lines r₁ r₂ where
  along : i.Along r₁.cursor r₂.cursor
  options_eq : r₂.cursor.options = base.options
  name_eq : r₂.cursor.file.name = base.file.name
  inSource : r₂.InSource i.source
  clean : i.after ≠ [] → i.Clean t r₁ r₂

/-- Both readers have the same token in hand, and the cursors are side by side; or the token is a
semicolon, and it was the last one. -/
structure Goes (i : Inset) (base : Cursor) (r₁ r₂ : Reader) : Prop
    extends i.Level base r₂.token r₁ r₂ where
  cursors : i.Beside r₁.cursor r₂.cursor ∨
    r₂.token.kind = .semicolon ∧ i.Behind r₁.cursor r₂.cursor
  token_eq : i.SameToken r₁.token r₂.token
  hasText : r₂.token.HasText
  isPlain : r₂.token.IsPlain r₂.cursor.offset
  kind_ne : r₂.token.kind ≠ .pragmaEnd
  more : i.after ≠ [] → r₂.token.kind ≠ .eof

/-- The source has come to its end, and the longer one goes on. -/
structure IsUsed (i : Inset) (r : Reader) : Prop where
  after_ne : i.after ≠ []
  kind_eq : r.token.kind = .eof
  inSource : r.InSource i.source

/-- The second reader has come to the end of the file, and the first one has taken a token from a
cursor behind the line break. -/
structure Passes (i : Inset) (base : Cursor) (r₁ r₂ : Reader) : Prop where
  isUsed : i.IsUsed r₂
  behind : ∃ (b : Reader) (c₂ : Cursor) (limit : Nat), nextWithin limit b = .ok () r₁ ∧
    i.Behind b.cursor c₂ ∧ c₂.newErrors = [] ∧ b.cursor.options = base.options ∧
    b.cursor.file.name = base.file.name ∧ b.errors = [] ∧ b.maxErrors = r₂.maxErrors

/-- Something is wrong with the source, and the longer one goes on. -/
structure Stops (i : Inset) (r : Reader) : Prop where
  after_ne : i.after ≠ []
  inSource : r.InSource i.source
  errors_ne : r.errors ≠ []

/-- The readers of a source and of one that it stands in. -/
def simulation (i : Inset) (base : Cursor) : Simulation where
  gap := i.gap
  source := i.source
  plain := True
  rel := i.Goes base
  edge := i.Passes base
  spent := i.IsUsed
  lost := i.Stops
  passed r offset := offset < r.cursor.offset

/-! ### Readers that stop -/

theorem Stops.leads (h : i.Stops r₂) (k : r₂.Leads i.source later) : i.Stops later :=
  ⟨h.after_ne, k.inSource, k.errors h.errors_ne⟩

theorem Stops.lost {α : Type} (h : i.Stops r₂) {promise : α → Prop}
    {result : EStateM.Result Halt Reader α} (k : Accounted i.source r₂ promise result) :
    (i.simulation base).Lost result := by
  cases result with
  | ok a later => exact h.leads k.1
  | error e later =>
    cases e with
    | bail => exact h.leads k.1
    | fault f => trivial

/-- A token with which something is wrong is the end of it, whatever is done with the token. -/
theorem stops_next (hafter : i.after ≠ []) (hr : r₂.InSource i.source)
    (herrors : (r₂.moveTo r₂.cursor.scan.1).errors ≠ []) (limit : Nat) :
    (i.simulation base).Lost (nextWithin (limit + 1) r₂) := by
  have hmoved : i.Stops (r₂.moveTo r₂.cursor.scan.1) :=
    ⟨hafter, Reader.Steps.refl.move.inSource hr, herrors⟩
  rw [nextWithin_succ]
  split
  · have hmore : Accounts i.source True
        (do
          let first ← line r₂.cursor.scan.2.pos
          let last ← line (r₂.cursor.scan.2.pos + r₂.cursor.scan.2.literal.utf8ByteSize)
          modify (·.keepComment ⟨r₂.cursor.scan.2.pos, r₂.cursor.scan.2.literal⟩ first last)
          nextWithin limit) fun _ => True :=
      (line_accounts _).seq fun _ => (line_accounts _).seq fun _ =>
        (keepComment_accounts _ _ _).seq fun _ => nextWithin_accounts limit
    exact hmoved.lost (hmore.run hmoved.inSource)
  · exact ⟨hafter, Reader.Steps.refl.take.inSource hr, herrors⟩

/-! ### Taking a token -/

namespace Level

/-- If nothing comes of a token, nothing is wrong with it. -/
theorem scan_errors (h : i.Level base t r₁ r₂) (hafter : i.after ≠ [])
    (herrors : (r₂.moveTo r₂.cursor.scan.1).errors = []) :
    r₂.cursor.scan.1.errors = [] ∧ r₂.cursor.scan.1.taken = 0 := by
  have hzero : r₂.cursor.scan.1.taken = 0 := by
    have htaken := h.along.taken_le₂
    rw [(h.clean hafter).found_eq] at htaken
    rw [Cursor.scan_taken_eq h.along.inSource.lined]
    exact Nat.le_zero.1 htaken
  have hnew := Reader.newErrors_eq_nil herrors
  rw [Cursor.newErrors, hzero, List.drop_zero] at hnew
  exact ⟨hnew, hzero⟩

/-- Both readers move past a token that both cursors have read. -/
theorem move (h : i.Level base t r₁ r₂) (hscan : i.Along r₁.cursor.scan.1 r₂.cursor.scan.1)
    (hclean : i.after ≠ [] → (r₂.moveTo r₂.cursor.scan.1).errors = [] ∧
      Cursor.Closes t' r₂.cursor.scan.1) :
    i.Level base t' (r₁.moveTo r₁.cursor.scan.1) (r₂.moveTo r₂.cursor.scan.1) where
  toSameErrors := h.toSameErrors.moveTo hscan.newErrors_eq
  along := by
    rw [Reader.moveTo_cursor, Reader.moveTo_cursor]
    exact hscan.takeErrors
  options_eq := by
    rw [Reader.moveTo_cursor]
    exact (Cursor.reads_scan _).options_eq.trans h.options_eq
  name_eq := by
    rw [Reader.moveTo_cursor]
    exact (Cursor.reaches_scan _).name_eq.trans h.name_eq
  inSource := Reader.Steps.refl.move.inSource h.inSource
  clean hafter := by
    obtain ⟨herrors, hcloses⟩ := hclean hafter
    have hready := (h.clean hafter).ready
    obtain ⟨hfound, htaken⟩ := h.scan_errors hafter herrors
    have hcursor : (r₂.moveTo r₂.cursor.scan.1).cursor = r₂.cursor.scan.1 :=
      (Reader.moveTo_cursor _ _).trans (Reader.takeErrors_of_errors hfound htaken)
    refine ⟨hready.moveTo hready.cursor.scan, herrors, ?_, ?_⟩
    · rw [hcursor]
      exact hfound
    · rw [hcursor]
      exact hcloses

/-- Both readers take the token. -/
theorem take (h : i.Level base t r₁ r₂)
    (hmove : i.Level base r₂.cursor.scan.2 (r₁.moveTo r₁.cursor.scan.1)
      (r₂.moveTo r₂.cursor.scan.1))
    (htoken : i.SameToken r₁.cursor.scan.2 r₂.cursor.scan.2)
    (hmore : i.after ≠ [] → r₂.cursor.scan.2.kind ≠ .eof)
    (hcursors : i.Beside r₁.cursor.scan.1 r₂.cursor.scan.1 ∨
      r₂.cursor.scan.2.kind = .semicolon ∧ i.Behind r₁.cursor.scan.1 r₂.cursor.scan.1) :
    i.Goes base { r₁.moveTo r₁.cursor.scan.1 with token := r₁.cursor.scan.2, commentEnd := none }
      { r₂.moveTo r₂.cursor.scan.1 with token := r₂.cursor.scan.2, commentEnd := none } where
  errors_eq := hmove.errors_eq
  maxErrors_eq := hmove.maxErrors_eq
  along := hmove.along
  options_eq := hmove.options_eq
  name_eq := hmove.name_eq
  inSource := Reader.Steps.refl.take.inSource h.inSource
  clean hafter :=
    have hclean := hmove.clean hafter
    ⟨⟨hclean.ready.cursor, (h.clean hafter).ready.cursor.token_le, hclean.ready.errors_le⟩,
      hclean.errors_eq, hclean.found_eq, hclean.closes⟩
  cursors := by
    dsimp only
    rw [Reader.moveTo_cursor, Reader.moveTo_cursor]
    exact hcursors.imp Beside.takeErrors fun hlast => ⟨hlast.1, hlast.2.takeErrors⟩
  token_eq := htoken
  hasText := h.along.isCode₂.scan_hasText
  isPlain := by
    dsimp only
    rw [Reader.moveTo_cursor]
    exact h.along.isCode₂.scan_isPlain
  kind_ne := h.along.isCode₂.scan_kind_ne
  more := hmore

/-- The second reader takes the end of the file, and the first one a token behind the line break. -/
theorem pass (h : i.Level base t r₁ r₂) {b : Cursor} (hbehind : i.Behind b r₂.cursor.scan.1)
    (hread : r₁.cursor.scan = b.scan) (hkind : r₂.cursor.scan.2.kind = .eof)
    (herrors : (r₂.moveTo r₂.cursor.scan.1).errors = []) {limit₁ : Nat}
    (hweight : r₁.cursor.weight < limit₁) (limit₂ : Nat) :
    (i.simulation base).Agreed .edge id (fun _ => True) (nextWithin limit₁ r₁)
      (nextWithin (limit₂ + 1) r₂) := by
  have hclean := h.clean hbehind.after_ne
  have hrun₂ : nextWithin (limit₂ + 1) r₂ = .ok () { r₂.moveTo r₂.cursor.scan.1 with
      token := r₂.cursor.scan.2, commentEnd := none } := by
    rw [nextWithin_succ, if_neg (by rw [hkind]; decide)]
    rfl
  rcases nextWithin_run i.whole True limit₁ r₁ fun _ => ⟨hclean.ready, hweight⟩ with
    ⟨later, -, hrun₁, -⟩ | ⟨hnot, -⟩
  · have hb : nextWithin limit₁ { r₁ with cursor := b } = .ok () later := by
      obtain ⟨limit, rfl⟩ := Nat.exists_eq_add_one.2 (Nat.zero_lt_of_lt hweight)
      rw [← hrun₁, nextWithin_succ, nextWithin_succ, hread]
      rfl
    have hoptions : b.options = base.options := hbehind.options_eq.trans
      ((Cursor.reads_scan _).options_eq.trans h.options_eq)
    have hname : b.file.name = base.file.name := hbehind.name_eq.trans
      ((Cursor.reaches_scan _).name_eq.trans h.name_eq)
    have hnone : r₁.errors = [] := by rw [h.errors_eq, hclean.errors_eq, List.map_nil]
    have hmax : (r₂.moveTo r₂.cursor.scan.1).maxErrors = r₂.maxErrors :=
      Reader.Steps.refl.move.maxErrors_eq
    rw [hrun₁, hrun₂]
    refine .edge (a := ()) rfl trivial ⟨⟨hbehind.after_ne, hkind, ?_⟩, ?_⟩
    · exact Reader.Steps.refl.take.inSource h.inSource
    · exact ⟨_, _, _, hb, hbehind, Reader.newErrors_eq_nil herrors, hoptions, hname,
        hnone, h.maxErrors_eq.trans hmax.symm⟩
  · exact absurd trivial hnot

theorem size_le (h : i.Level base t r₁ r₂) :
    r₂.cursor.file.size + i.gap ≤ r₁.cursor.file.size := by
  rw [h.along.inWhole.size_eq, h.along.inSource.size_eq, i.widths_whole]
  omega

/-- The line of an offset is looked up in both files, or not in the second one. -/
theorem line_cases (h : i.Level base t r₁ r₂) (offset : Nat) :
    (∃ l₁ l₂, line (offset + i.gap) r₁ = .ok l₁ r₁ ∧ line offset r₂ = .ok l₂ r₂) ∨
      ∃ f, line offset r₂ = .error (.fault f) r₂ := by
  have hsize := h.size_le
  by_cases hoffset : offset ≤ r₂.cursor.file.size
  · exact .inl ⟨_, _, line_run (by omega), line_run hoffset⟩
  · exact .inr ⟨_, line_run_fault hoffset⟩

/-- Comments do not count. -/
theorem keepComment (h : i.Level base t r₁ r₂) (comment₁ comment₂ : Comment)
    (first₁ last₁ first₂ last₂ : Nat) :
    i.Level base t (r₁.keepComment comment₁ first₁ last₁) (r₂.keepComment comment₂ first₂ last₂) where
  errors_eq := h.errors_eq
  maxErrors_eq := h.maxErrors_eq
  along := h.along
  options_eq := h.options_eq
  name_eq := h.name_eq
  inSource := (Reader.Steps.refl.keepComment ..).inSource h.inSource
  clean hafter :=
    have hclean := h.clean hafter
    ⟨⟨hclean.ready.cursor, hclean.ready.token_le, hclean.ready.errors_le⟩, hclean.errors_eq,
      hclean.found_eq, hclean.closes⟩

/-- A comment is kept by both readers before they read on, or the second one fails. -/
theorem keepComment_agreed {E : Ending} (h : i.Level base t r₁ r₂) (first last : Nat)
    (comment₁ comment₂ : Comment) {p₁ p₂ : Parse Unit}
    (hp : ∀ first₁ last₁ first₂ last₂, (i.simulation base).Agreed E id (fun _ => True)
      (p₁ (r₁.keepComment comment₁ first₁ last₁)) (p₂ (r₂.keepComment comment₂ first₂ last₂))) :
    (i.simulation base).Agreed E id (fun _ => True)
      ((do
        let first ← line (first + i.gap)
        let last ← line (last + i.gap)
        modify (·.keepComment comment₁ first last)
        p₁ : Parse Unit) r₁)
      ((do
        let first ← line first
        let last ← line last
        modify (·.keepComment comment₂ first last)
        p₂ : Parse Unit) r₂) := by
  rcases h.line_cases first with ⟨first₁, first₂, hfirst₁, hfirst₂⟩ | ⟨f, hfault⟩
  · rw [bind_run_ok hfirst₁, bind_run_ok hfirst₂]
    rcases h.line_cases last with ⟨last₁, last₂, hlast₁, hlast₂⟩ | ⟨f, hfault⟩
    · rw [bind_run_ok hlast₁, bind_run_ok hlast₂]
      exact hp first₁ last₁ first₂ last₂
    · rw [bind_run_error hfault]
      exact .lost trivial
  · rw [bind_run_error hfault]
    exact .lost trivial

/-- The next token that is no comment is the same one, or the source has come to its end. That can
only be behind a semicolon. -/
theorem nextWithin_agreed {E : Ending} (h : i.Level base t r₁ r₂)
    (hbeside : i.Beside r₁.cursor r₂.cursor) (hE : E = .edge ∨ t.kind ≠ .semicolon)
    {limit₁ limit₂ : Nat} (hlimit : limit₂ ≤ limit₁) (hweight : r₁.cursor.weight < limit₁) :
    (i.simulation base).Agreed E id (fun _ => True) (nextWithin limit₁ r₁)
      (nextWithin limit₂ r₂) := by
  induction limit₂ generalizing r₁ r₂ limit₁ with
  | zero => exact .lost trivial
  | succ limit₂ ih =>
    obtain ⟨limit, rfl⟩ := Nat.exists_eq_add_one.2 (Nat.lt_of_lt_of_le limit₂.succ_pos hlimit)
    by_cases hwrong : i.after ≠ [] ∧ (r₂.moveTo r₂.cursor.scan.1).errors ≠ []
    · exact .lost (stops_next hwrong.1 h.inSource hwrong.2 limit₂)
    have hright (hafter : i.after ≠ []) : (r₂.moveTo r₂.cursor.scan.1).errors = [] :=
      not_not.1 fun hne => hwrong ⟨hafter, hne⟩
    have hstep := hbeside.scan_onward
    generalize hread₂ : r₂.cursor.scan = read₂ at hstep
    cases hstep with
    | spoiled hspoiled =>
      subst hread₂
      exact absurd (h.scan_errors hspoiled.1 (hright hspoiled.1)).1 hspoiled.2
    | same hcursor htoken hend =>
      subst hread₂
      have hkinds := htoken.kind_eq
      rw [nextWithin_succ, nextWithin_succ, hkinds]
      by_cases hkind : r₂.cursor.scan.2.kind = .comment
      · have hmove := h.move hcursor.toAlong fun hafter =>
          ⟨hright hafter, (h.clean hafter).closes.behindComment hkind⟩
        rw [if_pos hkind, if_pos hkind, htoken.pos_eq, htoken.literal_eq, Nat.add_right_comm]
        refine hmove.keepComment_agreed _ _ _ _ fun first₁ last₁ first₂ last₂ =>
          ih (hmove.keepComment ..) ?_ (Nat.le_of_succ_le_succ hlimit) ?_
        · change i.Beside (r₁.moveTo _).cursor (r₂.moveTo _).cursor
          rw [Reader.moveTo_cursor, Reader.moveTo_cursor]
          exact hcursor.takeErrors
        · have hlighter := Cursor.scan_weight_lt r₁.cursor (by rw [hkinds, hkind]; decide)
          have hsettle := Cursor.settle_weight_le r₁.cursor.scan.1 .takeErrors
          change (r₁.moveTo _).cursor.weight < limit
          rw [Reader.moveTo_cursor]
          exact Nat.lt_of_lt_of_le (Nat.lt_of_le_of_lt hsettle hlighter)
            (Nat.le_of_lt_succ hweight)
      · have hmove := h.move hcursor.toAlong fun hafter =>
          ⟨hright hafter, (h.clean hafter).closes.next (hend hafter) hkind⟩
        rw [if_neg hkind, if_neg hkind]
        exact .ok (a := ()) trivial (h.take hmove htoken hend (.inl hcursor))
    | last hcursor htoken hkind =>
      subst hread₂
      have hend : r₂.cursor.scan.2.kind ≠ .eof := by rw [hkind]; decide
      have hcomment : r₂.cursor.scan.2.kind ≠ .comment := by rw [hkind]; decide
      have hmove := h.move hcursor.toAlong fun hafter =>
        ⟨hright hafter, (h.clean hafter).closes.next hend hcomment⟩
      rw [nextWithin_succ, nextWithin_succ, htoken.kind_eq, if_neg hcomment, if_neg hcomment]
      exact .ok (a := ()) trivial (h.take hmove htoken (fun _ => hend) (.inr ⟨hkind, hcursor⟩))
    | past hcursor hread hkind =>
      subst hread₂
      have hclosed := (h.clean hcursor.after_ne).closes.kind_eq hkind
      rw [hE.resolve_right (not_not.2 hclosed)]
      exact h.pass hcursor hread hkind (hright hcursor.after_ne) hweight limit₂

end Level

/-! ### Laws -/

namespace Goes

theorem offset_le (h : i.Goes base r₁ r₂) : r₂.cursor.offset + i.gap ≤ r₁.cursor.offset :=
  h.cursors.elim (fun hbeside => Nat.le_of_eq hbeside.offset_eq.symm) fun hlast => hlast.2.offset_le

theorem bound_le (h : i.Goes base r₁ r₂) : r₂.bound ≤ r₁.bound := by
  have hrest : r₂.cursor.rest.length ≤ r₁.cursor.rest.length := by
    rcases h.cursors with hbeside | ⟨-, hbehind⟩
    · rw [hbeside.rest_eq, List.length_append]
      exact Nat.le_add_right ..
    · rw [hbehind.rest₂_eq]
      exact Nat.zero_le _
  unfold Reader.bound Cursor.bound
  rw [h.along.isCode₁.pool_eq, h.along.isCode₂.pool_eq]
  omega

/-- Up to the second cursor, lines are numbered in both files as in the sources. -/
theorem place_line (h : i.Goes base r₁ r₂) {offset : Nat} (hoffset : offset < r₂.cursor.offset) :
    (r₁.cursor.file.place (offset + i.gap)).line =
      (r₂.cursor.file.place offset).line + i.lines := by
  have hle := h.offset_le
  have hsource := Cursor.InSource.offset_le h.along.inSource
  rw [h.along.inWhole.place_line (by omega), h.along.inSource.place_line (Nat.le_of_lt hoffset),
    i.lineOf_whole (by omega)]

theorem next_agreed (h : i.Goes base r₁ r₂) :
    (i.simulation base).Agreed .edge id (fun _ => True) (next r₁) (next r₂) := by
  rw [next_run, next_run]
  rcases h.cursors with hbeside | ⟨-, hbehind⟩
  · exact h.nextWithin_agreed hbeside (.inl rfl) h.bound_le r₁.cursor_weight_lt_bound
  · have hscan := hbehind.scan₂
    have hclean := h.clean hbehind.after_ne
    have hnew : r₂.cursor.newErrors = [] := by
      rw [Cursor.newErrors, hclean.found_eq, List.drop_nil]
    refine h.pass (b := r₁.cursor) ?_ rfl ?_ ?_ r₁.cursor_weight_lt_bound _
    · rwa [hscan]
    · rw [hscan]
      rfl
    · rw [hscan, Reader.moveTo_of_newErrors hnew]
      exact hclean.errors_eq

theorem next_agreed_inside (h : i.Goes base r₁ r₂) (hkind : r₂.token.kind ≠ .semicolon) :
    (i.simulation base).Agreed .inside id (fun _ => True) (next r₁) (next r₂) :=
  h.nextWithin_agreed (h.cursors.resolve_right fun hlast => hkind hlast.1) (.inr hkind) h.bound_le
    r₁.cursor_weight_lt_bound

/-- What is found wrong with the source is found wrong with the longer one, if that ends with it. -/
theorem record (h : i.Goes base r₁ r₂) (hafter : i.after = []) (offset : Nat) (cause : Cause) :
    i.Goes base (r₁.record ⟨r₁.cursor.file.place (offset + i.gap), cause⟩)
      (r₂.record ⟨r₂.cursor.file.place offset, cause⟩) := by
  have hbeside := h.cursors.resolve_right fun hlast => hlast.2.after_ne hafter
  have hrest : r₁.cursor.rest = r₂.cursor.rest := by
    rw [hbeside.rest_eq, hafter, List.append_nil]
  have herrors := h.toSameErrors.record ⟨r₂.cursor.file.place offset, cause⟩
  rw [Diagnostic.shift, ← place_shift hafter h.along.inWhole h.along.inSource hrest
    h.along.name_eq offset] at herrors
  refine ⟨⟨herrors, ?_, ?_, ?_, (Reader.Steps.refl.record _).inSource h.inSource, absurd hafter⟩,
    ?_, ?_, ?_, ?_, ?_, absurd hafter⟩
  · rw [Reader.record_cursor, Reader.record_cursor]
    exact h.along
  · rw [Reader.record_cursor]
    exact h.options_eq
  · rw [Reader.record_cursor]
    exact h.name_eq
  · rw [Reader.record_cursor, Reader.record_cursor]
    exact .inl hbeside
  · rw [Reader.record_token, Reader.record_token]
    exact h.token_eq
  · rw [Reader.record_token]
    exact h.hasText
  · rw [Reader.record_token, Reader.record_cursor]
    exact h.isPlain
  · rw [Reader.record_token]
    exact h.kind_ne

theorem errorAt_agreed (h : i.Goes base r₁ r₂) (offset : Nat) (cause : Cause) :
    (i.simulation base).Agreed .inside id (fun _ => True) (errorAt (offset + i.gap) cause r₁)
      (errorAt offset cause r₂) := by
  unfold errorAt
  by_cases hoffset : offset ≤ r₂.cursor.file.size
  · have hoffset₁ : offset + i.gap ≤ r₁.cursor.file.size :=
      Nat.le_trans (Nat.add_le_add_right hoffset _) h.size_le
    rw [bind_run_ok (place_run hoffset₁), bind_run_ok (place_run hoffset)]
    by_cases hafter : i.after = []
    · exact .ok (a := ()) trivial (h.record hafter offset cause)
    · exact .lost ⟨hafter, (Reader.Steps.refl.record _).inSource h.inSource,
        Reader.record_errors_ne _ _⟩
  · rw [bind_run_error (place_run_fault hoffset)]
    exact .lost trivial

end Goes

theorem lawful (i : Inset) (base : Cursor) : (i.simulation base).Lawful where
  token_eq h := h.token_eq
  isFull_eq h := h.isFull_eq
  options_eq {_ r₂} h := ⟨r₂.cursor.options.comments, h.along.options_eq⟩
  bound_le h := h.bound_le
  inSource h := h.inSource
  isCode _ h := h.isPlain.kind_ne
  agreed_apply _ h hkind := absurd hkind h.kind_ne
  isWritten h := h.hasText
  isMarked h hkind := by
    refine (h.isPlain.pos_lt.resolve_left ?_).resolve_left ?_
    · rcases hkind with hkind | hkind <;> simp [hkind]
    · rcases hkind with hkind | hkind <;> simp [hkind]
  passed_mono hpassed hle := Nat.lt_of_lt_of_le hpassed hle
  size_le h := h.size_le
  line_iff {r₁ r₂ o o'} h ho ho' := by
    change (r₁.cursor.file.place (o + i.gap)).line = (r₁.cursor.file.place (o' + i.gap)).line ↔ _
    rw [h.place_line ho, h.place_line ho']
    exact Nat.add_right_cancel_iff
  agreed_next h := h.next_agreed
  agreed_next_inside h hkind := h.next_agreed_inside hkind
  agreed_errorAt offset cause h := h.errorAt_agreed offset cause
  endless h herrors hused := herrors (h.clean hused.after_ne).errors_eq
  keeps_of h r hr := hr.lost (h r hr.inSource)
  edge_spent h := h.isUsed
  edge_plain _ := trivial
  spent_eof h := h.kind_eq
  spent_inSource h := h.inSource
  lost_of_errors h hsource herrors := ⟨h.after_ne, hsource, herrors⟩

end Inset

end TemplateScript
