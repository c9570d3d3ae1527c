import TemplateScript.Proofs.Cursor.Calls
import TemplateScript.Proofs.Cursor.Onward
import TemplateScript.Proofs.Cursor.Report
import TemplateScript.Proofs.Cursor.Shift
import TemplateScript.Proofs.Text.Glyph

/-!
# A line break at the end

A source and the same source with a line break behind it have the same tokens, up to the end of the
file. What looks beyond the last glyph cannot tell the end from a line break, but for the texts that
only their closing mark ends: raw strings, heredocs and block comments that are left open go on into
the line break.
-/

namespace TemplateScript

/-- A text that only its closing mark ends was left open. -/
def ScanCause.isOpenEnded : ScanCause → Bool
  | .unterminatedRawString | .unterminatedHeredoc | .unterminatedComment => true
  | _ => false

namespace Cursor

variable {after : List Glyph} {c₁ c₂ d₁ d₂ : Cursor}

/-- The cursors are at one point, which more glyphs follow for the one than for the other. Nothing
that reading depends on tells them apart but those. -/
def Trails (after : List Glyph) (c₁ c₂ : Cursor) : Prop :=
  ∃ file errors taken, c₁ = { c₂ with rest := c₂.rest ++ after, file, errors, taken }

/-- A text was left open that could go on into what follows. -/
def LeftOpen (after : List Glyph) (c : Cursor) : Prop :=
  after ≠ [] ∧ ∃ e ∈ c.errors, e.cause.isOpenEnded = true

theorem LeftOpen.reaches {c later : Cursor} (h : c.LeftOpen after) (k : c.Reaches later) :
    later.LeftOpen after := by
  obtain ⟨hafter, e, he, hcause⟩ := h
  exact ⟨hafter, e, k.errors_grow.subset he, hcause⟩

theorem LeftOpen.report (hafter : after ≠ []) (c : Cursor) (offset : Nat) {cause : ScanCause}
    (hcause : cause.isOpenEnded = true) : (c.report offset cause).LeftOpen after :=
  ⟨hafter, ⟨_, cause⟩, List.mem_append_right _ List.mem_cons_self, hcause⟩

/-- Two readings end at one point with the same result. -/
def ReadAlike {α : Type} (after : List Glyph) (read₁ read₂ : Cursor × α) : Prop :=
  Trails after read₁.1 read₂.1 ∧ read₁.2 = read₂.2

namespace Trails

theorem rest_eq (h : Trails after c₁ c₂) : c₁.rest = c₂.rest ++ after := by
  obtain ⟨file, errors, taken, rfl⟩ := h
  rfl

theorem offset_eq (h : Trails after c₁ c₂) : c₁.offset = c₂.offset := by
  obtain ⟨file, errors, taken, rfl⟩ := h
  rfl

theorem options_eq (h : Trails after c₁ c₂) : c₁.options = c₂.options := by
  obtain ⟨file, errors, taken, rfl⟩ := h
  rfl

theorem pending_eq (h : Trails after c₁ c₂) : c₁.pending = c₂.pending := by
  obtain ⟨file, errors, taken, rfl⟩ := h
  rfl

theorem pool_eq (h : Trails after c₁ c₂) : c₁.pool = c₂.pool := by
  obtain ⟨file, errors, taken, rfl⟩ := h
  rfl

theorem inText_eq (h : Trails after c₁ c₂) : c₁.inText = c₂.inText := by
  obtain ⟨file, errors, taken, rfl⟩ := h
  rfl

theorem head_eq (h : Trails after c₁ c₂) {g : Glyph} {rest : List Glyph}
    (hrest : c₂.rest = g :: rest) : c₁.rest = g :: (rest ++ after) := by
  rw [h.rest_eq, hrest, List.cons_append]

theorem withPending (h : Trails after c₁ c₂) (pending : Bool) :
    Trails after { c₁ with pending } { c₂ with pending } := by
  obtain ⟨file, errors, taken, rfl⟩ := h
  exact ⟨file, errors, taken, rfl⟩

theorem withPool (h : Trails after c₁ c₂) (pool : List Token) :
    Trails after { c₁ with pool } { c₂ with pool } := by
  obtain ⟨file, errors, taken, rfl⟩ := h
  exact ⟨file, errors, taken, rfl⟩

/-- What is reported on arriving does not count. -/
theorem arrive (h : Trails after c₁ c₂) : Trails after c₁.arrive c₂.arrive := by
  obtain ⟨file, errors, taken, rfl⟩ := h
  obtain ⟨errors₁, h₁⟩ := arrive_eq { c₂ with rest := c₂.rest ++ after, file, errors, taken }
  obtain ⟨errors₂, h₂⟩ := arrive_eq c₂
  rw [h₁, h₂]
  exact ⟨file, errors₁, taken, rfl⟩

/-- What is reported does not count. -/
theorem report (h : Trails after c₁ c₂) (offset₁ : Nat) (cause₁ : ScanCause) (offset₂ : Nat)
    (cause₂ : ScanCause) : Trails after (c₁.report offset₁ cause₁) (c₂.report offset₂ cause₂) := by
  obtain ⟨file, errors, taken, rfl⟩ := h
  exact ⟨_, _, _, rfl⟩

/-- The text between two points that both cursors have been at. -/
theorem textTo_eq (h : Trails after c₁ c₂) (k : Trails after d₁ d₂) :
    c₁.textTo d₁ = c₂.textTo d₂ := by
  unfold textTo
  rw [h.rest_eq, k.rest_eq, List.length_append, List.length_append, Nat.add_sub_add_right,
    List.take_append_of_le_length (Nat.sub_le _ _)]

/-! ### Moving -/

theorem advance (h : Trails after c₁ c₂) (hne : c₂.rest ≠ []) :
    Trails after c₁.advance c₂.advance := by
  obtain ⟨g, rest, hrest⟩ := List.exists_cons_of_ne_nil hne
  have hrest₁ := h.head_eq hrest
  unfold Cursor.advance
  rw [hrest₁, hrest]
  refine arrive ?_
  obtain ⟨file, errors, taken, rfl⟩ := h
  unfold Cursor.leave
  dsimp only
  split
  · exact ⟨_, _, _, rfl⟩
  · exact ⟨_, _, _, rfl⟩

theorem advanceBy (h : Trails after c₁ c₂) {n : Nat} (hn : n ≤ c₂.rest.length) :
    Trails after (c₁.advanceBy n) (c₂.advanceBy n) := by
  induction n generalizing c₁ c₂ with
  | zero => exact h
  | succ n ih =>
    have hpos : 0 < c₂.rest.length := Nat.lt_of_lt_of_le n.succ_pos hn
    refine ih (h.advance (List.ne_nil_of_length_pos hpos)) ?_
    rw [advance_rest, List.length_tail]
    omega

theorem mark (h : Trails after c₁ c₂) {kind : Token.Kind} (hkind : mark? c₂.rest = some kind) :
    ReadAlike after (c₁.mark kind) (c₂.mark kind) := by
  have hfound := List.find?_some hkind
  rw [Bool.and_eq_true] at hfound
  obtain ⟨file, errors, taken, hlast⟩ :=
    h.advanceBy (Glyph.length_of_startsWith_pos hfound.1).1
  unfold Cursor.mark
  rw [h.offset_eq, hlast]
  exact ⟨⟨file, errors, taken, rfl⟩, rfl⟩

theorem closing (h : Trails after c₁ c₂) {read₁ read₂ : Cursor × Token}
    (hread : ReadAlike after read₁ read₂) :
    ReadAlike after (c₁.closing read₁) (c₂.closing read₂) := by
  unfold Cursor.closing
  rw [hread.2, h.options_eq]
  exact ⟨hread.1.withPending _, rfl⟩

end Trails

section Reading

variable (hafter : ∀ g ∈ after.head?, g = .char '\n')

include hafter

namespace Trails

/-! ### Words and numbers -/

theorem wordRun_eq (h : Trails after c₁ c₂) : wordRun c₁.rest = wordRun c₂.rest := by
  rw [h.rest_eq]
  exact Glyph.countWhile_append hafter (by decide) c₂.rest

theorem word (h : Trails after c₁ c₂) : ReadAlike after c₁.word c₂.word := by
  have hlast := h.advanceBy (n := wordRun c₂.rest) (List.takeWhile_prefix _).length_le
  unfold Cursor.word
  rw [h.wordRun_eq hafter, h.offset_eq]
  dsimp only
  rw [h.textTo_eq hlast]
  exact ⟨hlast, rfl⟩

theorem numberBody_eq (h : Trails after c₁ c₂) : c₁.numberBody = c₂.numberBody := by
  unfold numberBody
  rw [h.options_eq, h.rest_eq, Number.body_append hafter]

theorem numberDigits (h : Trails after c₁ c₂) : Trails after c₁.numberDigits c₂.numberDigits := by
  have hdigits := h.advanceBy (Number.body_length_le _ c₂.rest : c₂.numberBody.length ≤ _)
  unfold Cursor.numberDigits
  rw [h.numberBody_eq hafter]
  dsimp only
  split
  · exact hdigits
  · exact hdigits.report _ _ _ _

theorem numberEnd (h : Trails after c₁ c₂) : ReadAlike after c₁.numberEnd c₂.numberEnd := by
  have hdigits := h.numberDigits hafter
  have hsuffix : Number.suffixKind? c₁.numberBody c₁.numberDigits.rest =
      Number.suffixKind? c₂.numberBody c₂.numberDigits.rest := by
    rw [h.numberBody_eq hafter, hdigits.rest_eq, Number.suffixKind?_append hafter]
  unfold Cursor.numberEnd
  rw [hsuffix]
  split
  · next kind hkind =>
    refine ⟨hdigits.advance fun hrest => ?_, rfl⟩
    rw [hrest] at hkind
    cases hkind
  · exact ⟨hdigits, congrArg Number.Body.kind (h.numberBody_eq hafter)⟩

theorem number (h : Trails after c₁ c₂) : ReadAlike after c₁.number c₂.number := by
  obtain ⟨hend, hkind⟩ := h.numberEnd hafter
  have hlast := hend.advanceBy (n := wordRun c₂.numberEnd.1.rest)
    (List.takeWhile_prefix _).length_le
  rw [number_eq, number_eq]
  dsimp only
  rw [hend.wordRun_eq hafter, h.offset_eq, hkind]
  split
  · rw [h.textTo_eq hend]
    exact ⟨hend, rfl⟩
  · rw [h.textTo_eq hlast]
    exact ⟨hlast.report _ _ _ _, rfl⟩

/-! ### Quoted tokens -/

/-- Neither the end of the source nor a line break is a digit. -/
theorem escapeDigits (h : Trails after c₁ c₂) {radix : Nat}
    (hradix : Text.digit? radix '\n' = none) (start count value : Nat) :
    ReadAlike after (Cursor.escapeDigits radix start count value c₁)
      (Cursor.escapeDigits radix start count value c₂) := by
  induction count generalizing value c₁ c₂ with
  | zero => exact ⟨h, rfl⟩
  | succ count ih =>
    rw [Cursor.escapeDigits, Cursor.escapeDigits]
    cases hrest : c₂.rest with
    | nil =>
      have hrest₁ : c₁.rest = after := by rw [h.rest_eq, hrest, List.nil_append]
      rw [hrest₁]
      cases after with
      | nil => exact ⟨h.report _ _ _ _, rfl⟩
      | cons g rest =>
        obtain rfl : g = .char '\n' := hafter g rfl
        dsimp only [Glyph.shown]
        rw [hradix]
        exact ⟨h.report _ _ _ _, rfl⟩
    | cons g rest =>
      rw [h.head_eq hrest]
      dsimp only
      cases Text.digit? radix g.shown with
      | none => exact ⟨h.report _ _ _ _, rfl⟩
      | some d => exact ih (h.advance (by simp [hrest])) _

/-- Neither the end of the source nor a line break is an escape. -/
theorem escape (h : Trails after c₁ c₂) (quote : Char) :
    ReadAlike after (c₁.escape quote) (c₂.escape quote) := by
  unfold Cursor.escape
  cases hrest : c₂.rest with
  | nil =>
    have hrest₁ : c₁.rest = after := by rw [h.rest_eq, hrest, List.nil_append]
    rw [hrest₁]
    cases after with
    | nil => exact ⟨h.report _ _ _ _, rfl⟩
    | cons g rest =>
      obtain rfl : g = .char '\n' := hafter g rfl
      exact ⟨h.report _ _ _ _, rfl⟩
  | cons g rest =>
    rw [h.head_eq hrest]
    have hnext := h.advance (by simp [hrest])
    dsimp only
    split
    · exact ⟨hnext, rfl⟩
    · split
      · exact ⟨h.report _ _ _ _, rfl⟩
      · next radix count hescape =>
        have hradix : Text.digit? radix '\n' = none := rfl
        have hstart : Trails after (if radix = 8 then c₁ else c₁.advance)
            (if radix = 8 then c₂ else c₂.advance) := by
          split
          · exact h
          · exact hnext
        obtain ⟨hlast, hvalue⟩ := hstart.escapeDigits hafter hradix c₂.offset count 0
        rw [h.offset_eq]
        generalize Cursor.escapeDigits radix c₂.offset count 0 _ = read₁ at hlast hvalue ⊢
        generalize Cursor.escapeDigits radix c₂.offset count 0 _ = read₂ at hlast hvalue ⊢
        obtain ⟨last₁, value₁⟩ := read₁
        obtain ⟨last₂, value₂⟩ := read₂
        obtain rfl : value₁ = value₂ := hvalue
        cases value₁ with
        | none => exact ⟨hlast, rfl⟩
        | some value =>
          dsimp only
          split
          · exact ⟨hlast.report _ _ _ _, rfl⟩
          · exact ⟨hlast, rfl⟩

theorem quotedRest (h : Trails after c₁ c₂) (start : Nat) (quote : Char) :
    Trails after (c₁.quotedRest start quote) (c₂.quotedRest start quote) := by
  fun_induction Cursor.quotedRest start quote c₂ generalizing c₁ with
  | case1 c₂ hrest =>
    have hrest₁ : c₁.rest = after := by rw [h.rest_eq, hrest, List.nil_append]
    rw [quotedRest_eq, hrest₁]
    cases after with
    | nil => exact h.report _ _ _ _
    | cons g rest =>
      obtain rfl : g = .char '\n' := hafter g rfl
      exact h.report _ _ _ _
  | case2 c₂ rest hrest =>
    rw [quotedRest_eq, h.head_eq hrest]
    exact h.report _ _ _ _
  | case3 c₂ rest hrest hbreak ih =>
    rw [quotedRest_eq, h.head_eq hrest]
    dsimp only
    rw [if_neg hbreak, if_pos rfl]
    exact ih ((h.advance (by simp [hrest])).escape hafter quote).1
  | case4 c₂ rest hrest hbreak hescape =>
    rw [quotedRest_eq, h.head_eq hrest]
    dsimp only
    rw [if_neg hbreak, if_neg hescape, if_pos rfl]
    exact h.advance (by simp [hrest])
  | case5 c₂ g rest hrest hbreak hescape hquote ih =>
    rw [quotedRest_eq, h.head_eq hrest]
    dsimp only
    rw [if_neg hbreak, if_neg hescape, if_neg hquote]
    exact ih (h.advance (by simp [hrest]))

theorem charRest (h : Trails after c₁ c₂) (start : Nat) (count : Option Nat) :
    ReadAlike after (c₁.charRest start count) (c₂.charRest start count) := by
  fun_induction Cursor.charRest start count c₂ generalizing c₁ with
  | case1 count c₂ hrest =>
    have hrest₁ : c₁.rest = after := by rw [h.rest_eq, hrest, List.nil_append]
    rw [charRest_eq, hrest₁]
    cases after with
    | nil => exact ⟨h.report _ _ _ _, rfl⟩
    | cons g rest =>
      obtain rfl : g = .char '\n' := hafter g rfl
      exact ⟨h.report _ _ _ _, rfl⟩
  | case2 count c₂ rest hrest =>
    rw [charRest_eq, h.head_eq hrest]
    exact ⟨h.report _ _ _ _, rfl⟩
  | case3 count c₂ rest hrest hbreak =>
    rw [charRest_eq, h.head_eq hrest]
    exact ⟨h.advance (by simp [hrest]), rfl⟩
  | case4 count c₂ rest step hrest hbreak hquote =>
    rename_i ih
    obtain ⟨hescape, hvalid⟩ := (h.advance (by simp [hrest])).escape hafter '\''
    rw [charRest_eq, h.head_eq hrest]
    dsimp only
    rw [if_neg hbreak, if_neg hquote, if_pos rfl, hvalid]
    exact ih hescape
  | case5 count c₂ g rest hrest hbreak hquote hescape ih =>
    rw [charRest_eq, h.head_eq hrest]
    dsimp only
    rw [if_neg hbreak, if_neg hquote, if_neg hescape]
    exact ih (h.advance (by simp [hrest]))

theorem quoted (h : Trails after c₁ c₂) (hne : c₂.rest ≠ []) (quote : Char) :
    ReadAlike after (c₁.quoted quote) (c₂.quoted quote) := by
  have hlast := (h.advance hne).quotedRest hafter c₂.offset quote
  unfold Cursor.quoted
  rw [h.offset_eq]
  dsimp only
  rw [h.textTo_eq hlast]
  exact ⟨hlast, rfl⟩

theorem char (h : Trails after c₁ c₂) (hne : c₂.rest ≠ []) :
    ReadAlike after c₁.char c₂.char := by
  unfold Cursor.char
  rw [h.options_eq]
  split
  · exact h.quoted hafter hne _
  · obtain ⟨hlast, hcount⟩ := (h.advance hne).charRest hafter c₂.offset (some 0)
    rw [h.offset_eq]
    dsimp only
    rw [hcount, h.textTo_eq hlast]
    split
    · exact ⟨hlast, rfl⟩
    · exact ⟨hlast.report _ _ _ _, rfl⟩

/-! ### Raw texts -/

/-- A fence has no line break in it, so none reaches beyond the end of the source. -/
theorem pastFence (h : Trails after c₁ c₂) (start fence : Nat) {cause : ScanCause}
    (hcause : cause.isOpenEnded = true) :
    (c₂.pastFence start fence cause).LeftOpen after ∨
      Trails after (c₁.pastFence start fence cause) (c₂.pastFence start fence cause) := by
  have hfence (g : Glyph) (rest : List Glyph) :
      (List.replicate fence fenceGlyph).isPrefixOf (g :: (rest ++ after)) =
        (List.replicate fence fenceGlyph).isPrefixOf (g :: rest) := by
    refine Glyph.isPrefixOf_append hafter (fun hmem => ?_) (g :: rest)
    exact absurd (List.eq_of_mem_replicate hmem) (by decide)
  have hstop := Glyph.stop_countUntil (List.replicate fence fenceGlyph).isPrefixOf c₂.rest
  have hle := Glyph.countUntil_le (List.replicate fence fenceGlyph).isPrefixOf c₂.rest
  have huntil :=
    Glyph.countUntil_append (List.replicate fence fenceGlyph).isPrefixOf hfence c₂.rest
  unfold Cursor.pastFence
  dsimp only
  by_cases hinside :
    Glyph.countUntil (List.replicate fence fenceGlyph).isPrefixOf c₂.rest < c₂.rest.length
  · have hlength := (List.isPrefixOf_iff_prefix.1 (hstop hinside)).length_le
    rw [List.length_replicate, List.length_drop] at hlength
    have hlt : Glyph.countUntil (List.replicate fence fenceGlyph).isPrefixOf c₂.rest <
        (c₂.rest ++ after).length := by
      rw [List.length_append]
      omega
    rw [h.rest_eq, huntil, if_pos hinside, if_pos hinside, if_pos hlt]
    exact .inr (h.advanceBy (by omega))
  · rw [h.rest_eq, huntil, if_neg hinside, if_neg hinside]
    by_cases hnone : after = []
    · subst hnone
      rw [List.append_nil, Glyph.countUntil, Nat.add_zero, if_neg (Nat.lt_irrefl _),
        Nat.le_antisymm hle (Nat.le_of_not_lt hinside)]
      exact .inr ((h.advanceBy (Nat.le_refl _)).report _ _ _ _)
    · exact .inl (.report hnone _ _ hcause)

theorem raw (h : Trails after c₁ c₂) :
    c₂.raw.1.LeftOpen after ∨ ReadAlike after c₁.raw c₂.raw := by
  have hfence : Glyph.countWhile (· = fenceGlyph) c₁.rest =
      Glyph.countWhile (· = fenceGlyph) c₂.rest := by
    rw [h.rest_eq]
    exact Glyph.countWhile_append hafter (by decide) c₂.rest
  have hopened := h.advanceBy (n := Glyph.countWhile (· = fenceGlyph) c₂.rest)
    (List.takeWhile_prefix _).length_le
  unfold Cursor.raw
  rw [hfence, h.offset_eq]
  generalize Glyph.countWhile (· = fenceGlyph) c₂.rest = fence at hopened
  dsimp only
  split
  · refine (hopened.pastFence hafter c₂.offset 1 rfl).imp_right fun hlast => ⟨hlast, ?_⟩
    dsimp only
    rw [h.textTo_eq hlast]
  · split
    · refine .inr ⟨hopened, ?_⟩
      dsimp only
      rw [h.textTo_eq hopened]
    · refine (hopened.pastFence hafter c₂.offset fence rfl).imp_right fun hlast => ⟨hlast, ?_⟩
      dsimp only
      rw [h.textTo_eq hlast]

/-! ### Lexemes -/

theorem lexeme (h : Trails after c₁ c₂) {g : Glyph} {rest : List Glyph}
    (hrest : c₂.rest = g :: rest) :
    (c₂.lexeme g).1.LeftOpen after ∨ ReadAlike after (c₁.lexeme g) (c₂.lexeme g) := by
  have hne : c₂.rest ≠ [] := by simp [hrest]
  have hword : c₁.atWord = c₂.atWord := by
    unfold atWord
    rw [h.rest_eq]
    exact Glyph.any_head?_append hafter (by decide) c₂.rest
  have hnumber : c₁.atNumber = c₂.atNumber := by
    unfold atNumber
    rw [h.head_eq hrest, hrest, List.drop_one, List.drop_one, List.tail_cons, List.tail_cons,
      Number.startsWithDigit_append hafter rest]
    rfl
  have hmark : mark? c₁.rest = mark? c₂.rest := by rw [h.rest_eq, mark?_append hafter]
  unfold Cursor.lexeme
  rw [hword, hnumber, hmark]
  split
  · exact .inr (h.closing (h.word hafter))
  · split
    · exact .inr (h.closing (h.number hafter))
    · split
      · exact .inr (h.closing (h.quoted hafter hne _))
      · split
        · exact .inr (h.closing (h.char hafter hne))
        · split
          · exact (h.raw hafter).imp id h.closing
          · cases hkind : mark? c₂.rest with
            | some kind => exact .inr (h.closing (h.mark hkind))
            | none =>
              refine .inr ⟨(h.advance hne).report _ _ _ _, ?_⟩
              dsimp only [stray]
              rw [h.offset_eq]

/-! ### Comments -/

theorem lineComment (h : Trails after c₁ c₂) (hmixed : c₂.options.mixed = false)
    (hne : c₂.rest ≠ []) : Trails after c₁.lineComment c₂.lineComment := by
  obtain ⟨g, rest, hrest⟩ := List.exists_cons_of_ne_nil hne
  have hdelimited {c : Cursor} (hc : c.options.mixed = false) : c.isDelimited = false := by
    unfold isDelimited
    rw [hc, Bool.false_and]
  have huntil : Glyph.countUntil (fun glyphs => glyphs.head? = some (.char '\n')) (rest ++ after) =
      Glyph.countUntil (fun glyphs => glyphs.head? = some (.char '\n')) rest := by
    have hnone :
        Glyph.countUntil (fun glyphs => glyphs.head? = some (.char '\n')) after = 0 := by
      cases after with
      | nil => rfl
      | cons g rest =>
        obtain rfl : g = .char '\n' := hafter g rfl
        rfl
    have hle := Glyph.countUntil_le (fun glyphs => glyphs.head? = some (.char '\n')) rest
    rw [Glyph.countUntil_append _ fun _ _ => rfl, hnone]
    split
    · rfl
    · omega
  unfold Cursor.lineComment
  rw [hdelimited (h.options_eq ▸ hmixed), hdelimited hmixed, h.head_eq hrest, hrest,
    List.tail_cons, List.tail_cons]
  simp only [Bool.false_and, Bool.or_false]
  rw [huntil]
  refine h.advanceBy ?_
  rw [hrest, List.length_cons]
  exact Nat.succ_le_succ (Glyph.countUntil_le _ _)

theorem blockComment (h : Trails after c₁ c₂) (hstarts : Glyph.startsWith c₂.rest "/*" = true) :
    c₂.blockComment.LeftOpen after ∨ Trails after c₁.blockComment c₂.blockComment := by
  have hlength : 2 ≤ c₂.rest.length := Glyph.length_of_startsWith hstarts
  have hstop (g : Glyph) (rest : List Glyph) :
      Glyph.startsWith (g :: (rest ++ after)) "*/" = Glyph.startsWith (g :: rest) "*/" := by
    rw [← List.cons_append, Glyph.startsWith_append hafter (by decide)]
  have huntil := Glyph.countUntil_append (Glyph.startsWith · "*/") hstop (c₂.rest.drop 2)
  have hle := Glyph.countUntil_le (Glyph.startsWith · "*/") (c₂.rest.drop 2)
  have hdelimiter := Glyph.stop_countUntil (Glyph.startsWith · "*/") (c₂.rest.drop 2)
  unfold Cursor.blockComment
  rw [h.rest_eq, List.drop_append_of_le_length hlength, huntil]
  generalize Glyph.countUntil (Glyph.startsWith · "*/") (c₂.rest.drop 2) = inside at hle hdelimiter
  dsimp only
  rw [List.length_drop] at hle hdelimiter ⊢
  by_cases hinside : inside < c₂.rest.length - 2
  · have htwo : 2 ≤ (c₂.rest.drop (inside + 2)).length := by
      have hlength : 2 ≤ ((c₂.rest.drop 2).drop inside).length :=
        Glyph.length_of_startsWith (hdelimiter hinside)
      rwa [List.drop_drop, Nat.add_comm 2] at hlength
    have hne : (c₂.advanceBy (inside + 2)).rest ≠ [] := by
      rw [advanceBy_rest]
      exact List.ne_nil_of_length_pos (Nat.lt_of_lt_of_le Nat.two_pos htwo)
    have hlast := h.advanceBy (n := inside + 2) (by omega)
    have hne₁ : (c₁.advanceBy (inside + 2)).rest ≠ [] := by
      rw [hlast.rest_eq]
      exact List.append_ne_nil_of_left_ne_nil hne _
    rw [if_pos hinside, if_neg hne, if_neg hne₁]
    exact .inr (hlast.advanceBy (by rwa [advanceBy_rest]))
  · have hnil : (c₂.advanceBy (inside + 2)).rest = [] := by
      rw [advanceBy_rest]
      exact List.drop_eq_nil_of_le (by omega)
    rw [if_neg hinside, if_pos hnil]
    by_cases hnone : after = []
    · have hinside : c₂.rest.length - 2 + Glyph.countUntil (Glyph.startsWith · "*/") after =
          inside := by
        rw [hnone, Glyph.countUntil]
        omega
      have hlast := h.advanceBy (n := inside + 2) (by omega)
      rw [hinside, if_pos (by rw [hlast.rest_eq, hnil, hnone]; rfl)]
      exact .inr (hlast.report _ _ _ _)
    · exact .inl (.report hnone _ _ rfl)

theorem atComment_eq (h : Trails after c₁ c₂) : c₁.atComment = c₂.atComment := by
  rw [atComment, atComment, h.rest_eq, startsLineComment_append hafter,
    Glyph.startsWith_append hafter (by decide)]

theorem comment (h : Trails after c₁ c₂) (hmixed : c₂.options.mixed = false)
    (hcomment : c₂.atComment = true) (hne : c₂.rest ≠ []) :
    c₂.comment.1.LeftOpen after ∨ ReadAlike after c₁.comment c₂.comment := by
  unfold Cursor.comment
  rw [h.rest_eq, startsLineComment_append hafter, h.offset_eq]
  dsimp only
  by_cases hline : startsLineComment c₂.rest = true
  · have hlast := h.lineComment hafter hmixed hne
    rw [if_pos hline, if_pos hline]
    refine .inr ⟨hlast, ?_⟩
    rw [h.textTo_eq hlast]
  · rw [if_neg hline, if_neg hline]
    refine (h.blockComment hafter ((Bool.or_eq_true_iff.1 hcomment).resolve_left hline)).imp_right
      fun hlast => ⟨hlast, ?_⟩
    dsimp only
    rw [h.textTo_eq hlast]

theorem commentEndsLine_eq (h : Trails after c₁ c₂) (hcomment : c₂.atComment = true) :
    commentEndsLine c₁.rest = commentEndsLine c₂.rest := by
  rw [h.rest_eq]
  by_cases hline : startsLineComment c₂.rest = true
  · have hline₁ := startsLineComment_append hafter c₂.rest
    rw [hline] at hline₁
    rw [commentEndsLine, commentEndsLine, if_pos hline, if_pos hline₁]
  · exact commentEndsLine_append hafter ((Bool.or_eq_true_iff.1 hcomment).resolve_left hline)

end Trails

end Reading

/-! ### Pragma lines -/

namespace Trails

theorem skipBlanks (h : Trails [] c₁ c₂) : Trails [] c₁.skipBlanks c₂.skipBlanks := by
  unfold Cursor.skipBlanks
  rw [h.pending_eq, h.rest_eq, List.append_nil]
  exact h.advanceBy (List.takeWhile_prefix _).length_le

/-- The body of a pragma line ends before the end of the source, whatever is behind that. -/
theorem bodyTokens (h : Trails [] c₁ c₂) (hmixed : c₂.options.mixed = false) :
    ReadAlike [] c₁.bodyTokens c₂.bodyTokens := by
  have hclosed {c : Cursor} : ¬ c.LeftOpen [] := fun hopen => hopen.1 rfl
  fun_induction Cursor.bodyTokens c₂ generalizing c₁ with
  | case1 c₂ hrest =>
    have hblanks := h.skipBlanks
    rw [bodyTokens_eq, hblanks.rest_eq, hrest]
    exact ⟨hblanks, rfl⟩
  | case2 c₂ g rest hrest hcomment ih =>
    have hblanks := h.skipBlanks
    have hmixed : c₂.skipBlanks.options.mixed = false := by rwa [skipBlanks_options]
    have hread := (hblanks.comment (by simp) hmixed hcomment (by simp [hrest])).resolve_left
      hclosed
    rw [bodyTokens_eq, hblanks.head_eq hrest]
    dsimp only
    rw [hblanks.atComment_eq (by simp), if_pos hcomment]
    exact ih hread.1 (by rwa [comment_options])
  | case3 c₂ g rest hrest hcomment more =>
    rename_i ih
    have hblanks := h.skipBlanks
    have hmixed : (c₂.skipBlanks.lexeme g).1.options.mixed = false := by
      rwa [(walks_lexeme c₂.skipBlanks g : Walks 0 _ _).options_eq, skipBlanks_options]
    have hread := (hblanks.lexeme (by simp) hrest).resolve_left hclosed
    obtain ⟨hlast, htokens⟩ := ih hread.1 hmixed
    rw [bodyTokens_eq, hblanks.head_eq hrest]
    dsimp only
    rw [hblanks.atComment_eq (by simp), if_neg hcomment, hread.2, htokens]
    exact ⟨hlast, rfl⟩

end Trails

/-! ### Code -/

/-- The cursor reads code, which pragma lines may be part of. -/
structure ReadsCode (c : Cursor) : Prop where
  mixed_eq : c.options.mixed = false
  inText_eq : c.inText = false

/-- Nothing is left to be found but the end of the file. -/
structure Spent (c : Cursor) : Prop extends c.ReadsCode where
  rest_eq : c.rest = []
  pending_eq : c.pending = false

/-- The cursors are at one point, before the end of the source or behind it. -/
def Level (c₁ c₂ : Cursor) : Prop :=
  Trails [.char '\n'] c₁ c₂ ∧ c₂.ReadsCode ∨ c₁.Spent ∧ c₂.Spent

/-- Two readings give the same tokens, but for where the file ends. -/
inductive CodeAlike : Cursor × Token × List Token → Cursor × Token × List Token → Prop
  | same {c₁ c₂ : Cursor} {token : Token} {more : List Token} (h : Level c₁ c₂) :
    CodeAlike (c₁, token, more) (c₂, token, more)
  | ended {c₁ c₂ : Cursor} (h : c₁.Spent ∧ c₂.Spent) (pos₁ pos₂ : Pos) :
    CodeAlike (c₁, ⟨.eof, "", pos₁, {}⟩, []) (c₂, ⟨.eof, "", pos₂, {}⟩, [])

namespace ReadsCode

theorem walks (h : c₁.ReadsCode) (k : c₁.Walks 0 c₂) : c₂.ReadsCode :=
  ⟨k.options_eq ▸ h.mixed_eq, k.inText_eq ▸ h.inText_eq⟩

theorem codeEnd?_eq (h : c₁.ReadsCode) : c₁.codeEnd? = none := by
  unfold codeEnd? isDelimited
  simp [h.mixed_eq]

end ReadsCode

theorem arrive_options (c : Cursor) : c.arrive.options = c.options := by
  obtain ⟨_, h⟩ := arrive_eq c
  rw [h]

namespace Spent

theorem skipBlanks_eq (h : c₁.Spent) : c₁.skipBlanks = c₁ := by
  unfold skipBlanks
  rw [h.rest_eq]
  rfl

theorem code_eq (h : c₁.Spent) : c₁.code = (c₁, c₁.endOfFile, []) := by
  have hpragma : c₁.pragmaLine? = none := by
    unfold pragmaLine?
    rw [h.rest_eq]
    exact ite_self _
  rw [Cursor.code_eq, h.skipBlanks_eq, h.codeEnd?_eq, hpragma, h.rest_eq, h.pending_eq]
  rfl

end Spent

theorem Trails.readsCode (h : Trails after c₁ c₂) (hcode : c₂.ReadsCode) : c₁.ReadsCode :=
  ⟨h.options_eq ▸ hcode.mixed_eq, h.inText_eq ▸ hcode.inText_eq⟩

/-- What is left to do once both sources are read. -/
theorem Level.spent (h : Trails [.char '\n'] c₁ c₂) (hcode : c₂.ReadsCode) (hrest : c₂.rest = []) :
    Spent { c₁.advance with pending := false } ∧ Spent { c₂ with pending := false } := by
  have hrest₁ : c₁.advance.rest = [] := by
    rw [advance_rest, h.rest_eq, hrest]
    rfl
  obtain ⟨hmixed, htext⟩ := (h.readsCode hcode).walks (.advance .refl)
  exact ⟨⟨⟨hmixed, htext⟩, hrest₁, rfl⟩, ⟨⟨hcode.mixed_eq, hcode.inText_eq⟩, hrest, rfl⟩⟩

namespace Trails

variable (h : Trails [.char '\n'] c₁ c₂) (hcode : c₂.ReadsCode)

include h hcode

/-- Blanks are skipped up to one point, or over the end of the source. -/
theorem skipBlanks_level : Level c₁.skipBlanks c₂.skipBlanks := by
  unfold Cursor.skipBlanks
  rw [h.rest_eq, h.pending_eq]
  generalize hp : (fun g : Glyph => g.isInlineSpace || (g = .char '\n' && !c₂.pending)) = p
  have hle : Glyph.countWhile p c₂.rest ≤ c₂.rest.length := (List.takeWhile_prefix p).length_le
  by_cases hover : Glyph.countWhile p c₂.rest = c₂.rest.length ∧ p (.char '\n') = true
  · have hcount : Glyph.countWhile p (c₂.rest ++ [.char '\n']) = c₂.rest.length + 1 := by
      unfold Glyph.countWhile at hover ⊢
      rw [List.takeWhile_append, if_pos hover.1, List.takeWhile_cons_of_pos hover.2]
      simp
    have hpending : c₂.pending = false := by
      have hbreak := hover.2
      rw [← hp] at hbreak
      simpa [Glyph.isInlineSpace] using hbreak
    rw [hcount, hover.1]
    refine .inr ⟨⟨(h.readsCode hcode).walks (walks_advanceBy _ _), ?_, ?_⟩,
      ⟨hcode.walks (walks_advanceBy _ _), ?_, ?_⟩⟩
    · rw [advanceBy_rest, h.rest_eq]
      exact List.drop_eq_nil_of_le (by simp)
    · rw [advanceBy_pending, h.pending_eq, hpending]
    · rw [advanceBy_rest, List.drop_length]
    · rw [advanceBy_pending, hpending]
  · have hcount : Glyph.countWhile p (c₂.rest ++ [.char '\n']) = Glyph.countWhile p c₂.rest := by
      unfold Glyph.countWhile at hover ⊢
      rw [List.takeWhile_append]
      split
      · next hinside =>
        rw [List.takeWhile_cons_of_neg fun hbreak => hover ⟨hinside, hbreak⟩, List.append_nil,
          hinside]
      · rfl
    rw [hcount]
    exact .inl ⟨h.advanceBy hle, hcode.walks (walks_advanceBy _ _)⟩

omit hcode in
theorem pragmaLine?_eq : c₁.pragmaLine? = c₂.pragmaLine? := by
  have hhead : pragmaHead? c₁.rest = pragmaHead? c₂.rest := by
    rw [h.rest_eq]
    exact pragmaHead?_append (by simp) c₂.rest
  obtain ⟨file, errors, taken, rfl⟩ := h
  unfold pragmaLine?
  rw [hhead]

omit hcode in
/-- The body of a pragma line ends where the source does, if not before. -/
theorem bodySize_eq {head : Nat} (hhead : head ≤ c₂.rest.length) :
    c₁.bodySize head = c₂.bodySize head := by
  have hle := Glyph.countUntil_le endsPragma (c₂.rest.drop head)
  unfold bodySize
  rw [h.rest_eq, List.drop_append_of_le_length hhead,
    Glyph.countUntil_append endsPragma (fun _ _ => rfl)]
  split
  · rfl
  · change _ + 0 = _
    omega

omit hcode in
theorem bodyStart {head : Nat} (hhead : head ≤ c₂.rest.length) :
    Trails [] (c₁.bodyStart head (c₁.bodySize head))
      (c₂.bodyStart head (c₂.bodySize head)) := by
  have hle : c₂.bodySize head ≤ (c₂.rest.drop head).length := Glyph.countUntil_le endsPragma _
  rw [h.bodySize_eq hhead]
  refine arrive ?_
  have hbody : ((c₁.rest.drop head).take (c₂.bodySize head)) =
      (c₂.rest.drop head).take (c₂.bodySize head) := by
    rw [h.rest_eq, List.drop_append_of_le_length hhead, List.take_append_of_le_length hle]
  have htake : c₁.rest.take head = c₂.rest.take head := by
    rw [h.rest_eq, List.take_append_of_le_length hhead]
  rw [hbody, htake]
  obtain ⟨file, errors, taken, rfl⟩ := h
  refine ⟨file, errors, taken, ?_⟩
  rw [List.append_nil]

theorem pragma_alike {head : Nat} (hhead : c₂.pragmaLine? = some head) :
    CodeAlike (c₁.pragma head) (c₂.pragma head) := by
  have hle : head ≤ c₂.rest.length := by
    unfold pragmaLine? at hhead
    split at hhead
    · cases hhead
    · exact (pragmaHead?_le hhead).2
  have hsize : head + c₂.bodySize head ≤ c₂.rest.length := by
    have := Glyph.countUntil_le endsPragma (c₂.rest.drop head)
    rw [List.length_drop] at this
    unfold bodySize
    omega
  have hmixed : (c₂.bodyStart head (c₂.bodySize head)).options.mixed = false := by
    unfold Cursor.bodyStart
    rw [arrive_options]
  obtain ⟨-, htokens⟩ := (h.bodyStart hle).bodyTokens hmixed
  have hlast : Trails [.char '\n'] (c₁.pragmaLast head) (c₂.pragmaLast head) := by
    unfold pragmaLast
    rw [h.bodySize_eq hle]
    refine advanceBy ?_ hsize
    obtain ⟨file, errors, taken, rfl⟩ := h
    exact ⟨file, _, taken, rfl⟩
  have hbody : ReadsCode { c₂ with errors := (c₂.pragmaBody head).1.errors } :=
    ⟨hcode.mixed_eq, hcode.inText_eq⟩
  have hreads : (c₂.pragmaLast head).ReadsCode := hbody.walks (walks_advanceBy _ _)
  have htake : c₁.rest.take head = c₂.rest.take head := by
    rw [h.rest_eq, List.take_append_of_le_length hle]
  rw [pragma_eq, pragma_eq, hlast.offset_eq, h.offset_eq, htake, pragmaBody, pragmaBody, htokens]
  refine .same ?_
  by_cases hrest : (c₂.pragmaLast head).rest = []
  · obtain ⟨hspent₁, hspent₂⟩ := Level.spent hlast hreads hrest
    have hstay : (c₂.pragmaLast head).advance = c₂.pragmaLast head := by
      unfold Cursor.advance
      rw [hrest]
    rw [hstay]
    exact .inr ⟨hspent₁, hspent₂⟩
  · exact .inl ⟨(hlast.advance hrest).withPending false,
      ⟨hreads.walks (.advance .refl) |>.mixed_eq, hreads.walks (.advance .refl) |>.inText_eq⟩⟩

/-- What code is found behind the blanks, given what is found behind a comment. -/
theorem behindBlanks_alike (hblanks₁ : c₁.skipBlanks = c₁) (hblanks₂ : c₂.skipBlanks = c₂)
    (hcomment : Trails [.char '\n'] c₁.comment.1 c₂.comment.1 → c₂.rest ≠ [] →
      c₂.comment.1.code.1.LeftOpen [.char '\n'] ∨ CodeAlike c₁.comment.1.code c₂.comment.1.code) :
    c₂.code.1.LeftOpen [.char '\n'] ∨ CodeAlike c₁.code c₂.code := by
  have hafter : ∀ g ∈ [Glyph.char '\n'].head?, g = .char '\n' := by simp
  have hinserted : c₁.insertedSemicolon = c₂.insertedSemicolon := by
    rw [insertedSemicolon, insertedSemicolon, h.offset_eq]
  rw [code_eq c₁, code_eq c₂, hblanks₁, hblanks₂, (h.readsCode hcode).codeEnd?_eq,
    hcode.codeEnd?_eq, h.pragmaLine?_eq, hinserted]
  dsimp only
  cases hhead : c₂.pragmaLine? with
  | some head => exact .inr (h.pragma_alike hcode hhead)
  | none =>
    dsimp only
    cases hrest : c₂.rest with
    | nil =>
      have hrest₁ : c₁.rest = [.char '\n'] := by rw [h.rest_eq, hrest, List.nil_append]
      have hpending : c₂.pending = true := by
        have hstop := skipBlanks_stops (c := c₁) (by rw [hblanks₁, hrest₁])
        rw [h.pending_eq] at hstop
        simpa [Glyph.isInlineSpace] using hstop
      have hline : ¬ c₁.atComment = true := by
        rw [h.atComment_eq hafter, atComment, hrest]
        decide
      rw [hrest₁]
      dsimp only
      rw [if_neg hline, if_pos rfl, if_pos hpending]
      refine .inr (.same (.inr ?_))
      simpa only [hrest] using Level.spent h hcode hrest
    | cons g rest =>
      have hne : c₂.rest ≠ [] := by simp [hrest]
      rw [h.head_eq hrest]
      dsimp only
      rw [← h.head_eq hrest, ← hrest, h.atComment_eq hafter, h.pending_eq,
        show c₁.options.comments = c₂.options.comments by rw [h.options_eq]]
      by_cases hat : c₂.atComment = true
      · rw [if_pos hat, if_pos hat, h.commentEndsLine_eq hafter hat]
        by_cases hends : (c₂.pending && commentEndsLine c₂.rest) = true
        · rw [if_pos hends, if_pos hends]
          exact .inr (.same (.inl ⟨h.withPending false, ⟨hcode.mixed_eq, hcode.inText_eq⟩⟩))
        rw [if_neg hends, if_neg hends]
        have hread := h.comment hafter hcode.mixed_eq hat hne
        by_cases hcomments : c₂.options.comments = true
        · rw [if_pos hcomments, if_pos hcomments]
          refine hread.imp_right fun hread => ?_
          rw [hread.2]
          exact .same (.inl ⟨hread.1, hcode.walks (walks_comment c₂)⟩)
        · rw [if_neg hcomments, if_neg hcomments]
          obtain hopen | hread := hread
          · exact .inl (hopen.reaches (code_reaches_placed _).1)
          · exact hcomment hread.1 hne
      rw [if_neg hat, if_neg hat]
      by_cases hg : g = .char '\n'
      · rw [if_pos hg, if_pos hg]
        have hreads := hcode.walks (.advance .refl)
        exact .inr (.same (.inl ⟨(h.advance hne).withPending false,
          ⟨hreads.mixed_eq, hreads.inText_eq⟩⟩))
      · rw [if_neg hg, if_neg hg]
        refine (h.lexeme hafter hrest).imp_right fun hread => ?_
        rw [hread.2]
        exact .same (.inl ⟨hread.1, hcode.walks (walks_lexeme c₂ g)⟩)

end Trails

/-- Blanks at the point where code is read make no difference. -/
theorem code_skipBlanks (c : Cursor) : c.skipBlanks.code = c.code := by
  rw [code_eq c.skipBlanks, code_eq c, skipBlanks_skipBlanks]

theorem Trails.code_alike (h : Trails [.char '\n'] c₁ c₂) (hcode : c₂.ReadsCode) :
    c₂.code.1.LeftOpen [.char '\n'] ∨ CodeAlike c₁.code c₂.code := by
  induction hn : c₂.rest.length using Nat.strongRecOn generalizing c₁ c₂ with
  | ind n ih =>
    rw [← code_skipBlanks c₁, ← code_skipBlanks c₂]
    obtain ⟨k, kcode⟩ | ⟨hspent₁, hspent₂⟩ := h.skipBlanks_level hcode
    · refine k.behindBlanks_alike kcode (skipBlanks_skipBlanks c₁) (skipBlanks_skipBlanks c₂)
        fun hnext hne => ih _ ?_ hnext (kcode.walks (walks_comment _)) rfl
      rw [← hn]
      exact Nat.lt_of_lt_of_le (comment_length_lt _ hne) (skipBlanks_length_le c₂)
    · rw [hspent₁.code_eq, hspent₂.code_eq]
      exact .inr (.ended ⟨hspent₁, hspent₂⟩ _ _)

/-! ### Token streams -/

theorem Level.readsCode (h : Level c₁ c₂) : c₂.ReadsCode :=
  h.elim (fun h => h.2) fun h => h.2.toReadsCode

theorem Level.withPool (h : Level c₁ c₂) (pool : List Token) :
    Level { c₁ with pool } { c₂ with pool } := by
  obtain ⟨h, hcode⟩ | ⟨h₁, h₂⟩ := h
  · exact .inl ⟨h.withPool pool, ⟨hcode.mixed_eq, hcode.inText_eq⟩⟩
  · exact .inr ⟨⟨⟨h₁.mixed_eq, h₁.inText_eq⟩, h₁.rest_eq, h₁.pending_eq⟩,
      ⟨⟨h₂.mixed_eq, h₂.inText_eq⟩, h₂.rest_eq, h₂.pending_eq⟩⟩

theorem Level.code_alike (h : Level c₁ c₂) :
    c₂.code.1.LeftOpen [.char '\n'] ∨ CodeAlike c₁.code c₂.code := by
  obtain ⟨h, hcode⟩ | ⟨h₁, h₂⟩ := h
  · exact h.code_alike hcode
  · rw [h₁.code_eq, h₂.code_eq]
    exact .inr (.ended ⟨h₁, h₂⟩ _ _)

/-- The next token of both sources is the same, or the end of both. -/
theorem Level.scan_cases (h : Level c₁ c₂) (hpool : c₁.pool = c₂.pool) :
    c₂.scan.1.LeftOpen [.char '\n'] ∨
      (Level c₁.scan.1 c₂.scan.1 ∧ c₁.scan.1.pool = c₂.scan.1.pool ∧ c₁.scan.2 = c₂.scan.2) ∨
      ∃ pos, c₂.scan.2.kind = .eof ∧ c₁.scan.2 = { c₂.scan.2 with pos } := by
  unfold scan
  rw [hpool]
  cases c₂.pool with
  | cons token pool => exact .inr (.inl ⟨h.withPool pool, rfl, rfl⟩)
  | nil =>
    have htext₁ : c₁.inText = false := by
      obtain ⟨h, hcode⟩ | ⟨h₁, -⟩ := h
      · exact (h.readsCode hcode).inText_eq
      · exact h₁.inText_eq
    have hcode := h.code_alike
    rw [htext₁, h.readsCode.inText_eq]
    dsimp only
    rw [if_neg Bool.false_ne_true, if_neg Bool.false_ne_true]
    generalize c₁.code = read₁ at hcode
    generalize c₂.code = read₂ at hcode
    obtain hopen | halike := hcode
    · exact .inl (hopen.reaches (.of_eq rfl rfl rfl rfl))
    · cases halike with
      | same hlevel => exact .inr (.inl ⟨hlevel.withPool _, rfl, rfl⟩)
      | ended _ pos₁ _ => exact .inr (.inr ⟨pos₁, rfl, rfl⟩)

/-- Both sources have the same tokens, with the end of the file behind them. -/
theorem Level.scanToEnd (h : Level c₁ c₂) (hpool : c₁.pool = c₂.pool) {limit₁ limit₂ : Nat}
    (hweight : c₂.weight < limit₂) (hlimit : limit₂ ≤ limit₁) :
    (scanToEnd limit₂ c₂).1.LeftOpen [.char '\n'] ∨
      ∃ tokens e pos, e.kind = .eof ∧ (∀ t ∈ tokens, t.kind ≠ .eof) ∧
        (scanToEnd limit₂ c₂).2 = tokens ++ [e] ∧
        (scanToEnd limit₁ c₁).2 = tokens ++ [{ e with pos }] := by
  induction limit₂ generalizing c₁ c₂ limit₁ with
  | zero => exact absurd hweight (Nat.not_lt_zero _)
  | succ limit₂ ih =>
    obtain ⟨limit₁, rfl⟩ : ∃ n, limit₁ = n + 1 := Nat.exists_eq_add_of_le' (by omega)
    have hlighter := scan_weight_lt c₂
    have hcases := h.scan_cases hpool
    rw [Cursor.scanToEnd, Cursor.scanToEnd]
    generalize c₁.scan = read₁ at hcases ⊢
    generalize c₂.scan = read₂ at hlighter hcases ⊢
    obtain ⟨d₁, token₁⟩ := read₁
    obtain ⟨d₂, token₂⟩ := read₂
    dsimp only at hlighter hcases ⊢
    obtain hopen | ⟨hlevel, hpool, rfl⟩ | ⟨pos, hkind, rfl⟩ := hcases
    · refine .inl ?_
      split
      · exact hopen
      · exact hopen.reaches (reaches_scanToEnd _ _)
    · by_cases hkind : token₁.kind = .eof
      · rw [if_pos hkind, if_pos hkind]
        exact .inr ⟨[], token₁, token₁.pos, hkind, List.forall_mem_nil _, rfl, rfl⟩
      · rw [if_neg hkind, if_neg hkind]
        have hweight : d₂.weight < limit₂ := by
          have := hlighter hkind
          omega
        refine (ih hlevel hpool hweight (Nat.le_of_succ_le_succ hlimit)).imp_right ?_
        rintro ⟨tokens, e, pos, he, hne, htokens₂, htokens₁⟩
        refine ⟨token₁ :: tokens, e, pos, he, List.forall_mem_cons.2 ⟨hkind, hne⟩, ?_, ?_⟩
        · rw [List.cons_append, ← htokens₂]
        · rw [List.cons_append, ← htokens₁]
    · rw [if_pos hkind, if_pos hkind]
      exact .inr ⟨[], token₂, pos, hkind, List.forall_mem_nil _, rfl, rfl⟩

/-- A byte order mark at the start is passed over in both sources. -/
theorem trails_start (file₁ file₂ : SourceFile) (options : ScanOptions) (glyphs : List Glyph) :
    Trails [.char '\n'] (start file₁ options (glyphs ++ [.char '\n']))
      (start file₂ options glyphs) := by
  have hfresh : Trails [.char '\n']
      { file := file₁, options, rest := glyphs ++ [.char '\n'], inText := options.mixed }
      { file := file₂, options, rest := glyphs, inText := options.mixed } :=
    ⟨file₁, [], 0, rfl⟩
  have harrive := hfresh.arrive
  unfold start
  dsimp only
  rw [arrive_rest, arrive_rest]
  dsimp only
  cases glyphs with
  | nil =>
    rw [if_neg (by decide), if_neg (by decide)]
    exact harrive
  | cons g rest =>
    rw [List.cons_append, List.head?_cons, List.head?_cons]
    split
    · obtain ⟨file, errors, taken, hadvance⟩ := harrive.advance (by rw [arrive_rest]; simp)
      rw [List.cons_append] at hadvance
      rw [hadvance]
      exact ⟨file, errors, taken, rfl⟩
    · exact harrive

/-- A line break at the end of a source of code, whatever its bytes, changes no token but where the
end of the file stands, unless a raw string, a heredoc or a comment was left open. -/
theorem scanAll_finalBreak (file : SourceFile) (options : ScanOptions) (bytes : List UInt8)
    (hsize : file.size = bytes.length) (hmixed : options.mixed = false) :
    ∃ c₁ c₂, start? { file with size := file.size + 1 } options
        (Glyph.ofBytes (bytes ++ [0x0A])) = .ok c₁ ∧
      start? file options (Glyph.ofBytes bytes) = .ok c₂ ∧
      ((∀ e ∈ c₂.scanAll.1.errors, e.cause ∉
          [.unterminatedRawString, .unterminatedHeredoc, .unterminatedComment]) →
        ∃ tokens e pos, e.kind = .eof ∧ (∀ t ∈ tokens, t.kind ≠ .eof) ∧
          c₂.scanAll.2 = tokens ++ [e] ∧ c₁.scanAll.2 = tokens ++ [{ e with pos }]) := by
  have hglyphs : Glyph.ofBytes (bytes ++ [0x0A]) = Glyph.ofBytes bytes ++ [.char '\n'] :=
    Glyph.ofBytes_break bytes []
  have hsize₁ : file.size + 1 = Glyph.widths (Glyph.ofBytes (bytes ++ [0x0A])) := by
    rw [Glyph.widths_ofBytes, List.length_append, hsize]
    rfl
  have hsize₂ : file.size = Glyph.widths (Glyph.ofBytes bytes) := by
    rw [Glyph.widths_ofBytes, hsize]
  refine ⟨_, _, if_pos hsize₁, if_pos hsize₂, fun hclosed => ?_⟩
  rw [hglyphs]
  generalize hc₁ : start _ options (Glyph.ofBytes bytes ++ [.char '\n']) = c₁
  generalize hc₂ : start file options (Glyph.ofBytes bytes) = c₂ at hclosed ⊢
  have htrails : Trails [.char '\n'] c₁ c₂ := by
    rw [← hc₁, ← hc₂]
    exact trails_start _ _ _ _
  have hcode : c₂.ReadsCode := by
    rw [← hc₂]
    exact ⟨by rw [start_options, hmixed], by rw [start_inText, hmixed]⟩
  have hlevel : Level c₁ c₂ := .inl ⟨htrails, hcode⟩
  have hbound : c₂.bound ≤ c₁.bound := by
    unfold bound
    rw [htrails.rest_eq, htrails.pool_eq, List.length_append]
    omega
  refine (hlevel.scanToEnd htrails.pool_eq (weight_lt_bound c₂) hbound).resolve_left ?_
  rintro ⟨-, e, he, hopen⟩
  refine hclosed e he ?_
  cases hcause : e.cause with
  | unterminatedRawString => decide
  | unterminatedHeredoc => decide
  | unterminatedComment => decide
  | _ =>
    rw [hcause] at hopen
    cases hopen

/-- A number that ends in a point and a comment that ends with a character broken off. -/
theorem scanAll_finalBreak_brokenOff : ∃ c₁ c₂,
    start? ⟨"main", 1, 10, [0]⟩ {}
      (Glyph.ofBytes ([0x78, 0x20, 0x31, 0x2E, 0x2F, 0x2F, 0x20, 0xE2, 0x82] ++ [0x0A])) = .ok c₁ ∧
    start? ⟨"main", 1, 9, [0]⟩ {}
      (Glyph.ofBytes [0x78, 0x20, 0x31, 0x2E, 0x2F, 0x2F, 0x20, 0xE2, 0x82]) = .ok c₂ ∧
    ∃ tokens e pos, e.kind = .eof ∧ (∀ t ∈ tokens, t.kind ≠ .eof) ∧
      c₂.scanAll.2 = tokens ++ [e] ∧ c₁.scanAll.2 = tokens ++ [{ e with pos }] := by
  obtain ⟨c₁, c₂, hc₁, hc₂, hscan⟩ := scanAll_finalBreak ⟨"main", 1, 9, [0]⟩ {}
    [0x78, 0x20, 0x31, 0x2E, 0x2F, 0x2F, 0x20, 0xE2, 0x82] (by decide) rfl
  refine ⟨c₁, c₂, hc₁, hc₂, hscan ?_⟩
  have hrun : ∀ e ∈ (start ⟨"main", 1, 9, [0]⟩ {}
      (Glyph.ofBytes [0x78, 0x20, 0x31, 0x2E, 0x2F, 0x2F, 0x20, 0xE2, 0x82])).scanAll.1.errors,
      e.cause ∉ [.unterminatedRawString, .unterminatedHeredoc, .unterminatedComment] := by
    decide +kernel
  unfold start? at hc₂
  split at hc₂
  · rwa [← Except.ok.inj hc₂]
  · cases hc₂

end Cursor

end TemplateScript
