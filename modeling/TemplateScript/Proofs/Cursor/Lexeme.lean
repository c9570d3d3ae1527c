import TemplateScript.Proofs.Cursor.Beside
import TemplateScript.Proofs.Cursor.Lookahead

/-!
# Lexemes side by side

Cursors that stand side by side read the same lexeme. Where one of them reaches the end of the inner
source and the other does not, either both stop there, or the lexeme is broken and the inner source
is spoiled.
-/

namespace TemplateScript

namespace Cursor

theorem quotedRest_eq (start : Nat) (quote : Char) (c : Cursor) :
    c.quotedRest start quote =
      match c.rest with
      | [] => c.report start .unterminatedString
      | g :: _ =>
        if g = .char '\n' then c.report start .unterminatedString
        else if g = .char '\\' then quotedRest start quote (c.advance.escape quote).1
        else if g = .char quote then c.advance
        else quotedRest start quote c.advance := by
  rw [quotedRest]
  split <;> rename_i h <;> rw [h]

theorem charRest_eq (start : Nat) (count : Option Nat) (c : Cursor) :
    c.charRest start count =
      match c.rest with
      | [] => (c.report start .unterminatedChar, none)
      | g :: _ =>
        if g = .char '\n' then (c.report start .unterminatedChar, none)
        else if g = .char '\'' then (c.advance, count)
        else if g = .char '\\' then
          charRest start (counted (c.advance.escape '\'').2 count) (c.advance.escape '\'').1
        else charRest start (counted true count) c.advance := by
  rw [charRest]
  split <;> rename_i h <;> rw [h]

end Cursor

namespace Inset

variable {i : Inset} {c₁ c₂ d₁ d₂ : Cursor}

/-- A token of the inner source, as the longer one has it. -/
def SameToken (i : Inset) (t₁ t₂ : Token) : Prop := t₁ = t₂.shift i.gap

theorem Abreast.alike {α β : Type} {same : α → β → Prop} {a : α} {b : β} (h : i.Abreast d₁ d₂)
    (hsame : i.Beside d₁ d₂ → same a b) : i.Alike same (d₁, a) (d₂, b) :=
  h.imp id fun k => ⟨k, hsame k⟩

theorem Alike.abreast {α β : Type} {same : α → β → Prop} {read₁ : Cursor × α} {read₂ : Cursor × β}
    (h : i.Alike same read₁ read₂) : i.Abreast read₁.1 read₂.1 :=
  h.imp id And.left

/-- What follows a reading, if the cursors still are side by side. -/
theorem Alike.then {α β : Type} {same : α → β → Prop} {read₁ : Cursor × α} {read₂ : Cursor × β}
    (h : i.Alike same read₁ read₂) (hreaches : read₂.1.Reaches d₂)
    (hnext : i.Beside read₁.1 read₂.1 → same read₁.2 read₂.2 → i.Abreast d₁ d₂) :
    i.Abreast d₁ d₂ :=
  h.elim (fun hspoiled => .inl (hspoiled.reaches hreaches)) fun k => hnext k.1 k.2

theorem Abreast.reads {α β : Type} {same : α → β → Prop} {read₁ : Cursor × α} {read₂ : Cursor × β}
    (h : i.Abreast c₁ c₂) (hreaches : c₂.Reaches read₂.1)
    (hnext : i.Beside c₁ c₂ → i.Alike same read₁ read₂) : i.Alike same read₁ read₂ :=
  h.elim (fun hspoiled => .inl (hspoiled.reaches hreaches)) hnext

theorem Alike.reads {α β γ δ : Type} {same : α → β → Prop} {same' : γ → δ → Prop}
    {read₁ : Cursor × α} {read₂ : Cursor × β} {next₁ : Cursor × γ} {next₂ : Cursor × δ}
    (h : i.Alike same read₁ read₂) (hreaches : read₂.1.Reaches next₂.1)
    (hnext : i.Beside read₁.1 read₂.1 → same read₁.2 read₂.2 → i.Alike same' next₁ next₂) :
    i.Alike same' next₁ next₂ :=
  h.elim (fun hspoiled => .inl (hspoiled.reaches hreaches)) fun k => hnext k.1 k.2

namespace Beside

theorem head_eq (h : i.Beside c₁ c₂) {g : Glyph} {rest : List Glyph} (hc₂ : c₂.rest = g :: rest) :
    c₁.rest = g :: (rest ++ i.after) := by
  rw [h.rest_eq, hc₂, List.cons_append]

/-! ### Words and marks -/

theorem wordRun_eq (h : i.Beside c₁ c₂) : Cursor.wordRun c₁.rest = Cursor.wordRun c₂.rest := by
  rw [h.rest_eq]
  exact Glyph.countWhile_append i.break_after (by decide) c₂.rest

theorem wordRun_abreast (h : i.Beside c₁ c₂) :
    i.Abreast (c₁.advanceBy (Cursor.wordRun c₂.rest)) (c₂.advanceBy (Cursor.wordRun c₂.rest)) :=
  h.advanceBy (List.takeWhile_prefix _).length_le

theorem word_alike (h : i.Beside c₁ c₂) : i.Alike i.SameToken c₁.word c₂.word := by
  unfold Cursor.word
  rw [h.wordRun_eq]
  refine h.wordRun_abreast.alike fun k => ?_
  rw [SameToken, h.textTo_eq k, h.offset_eq]
  rfl

theorem mark_alike (h : i.Beside c₁ c₂) {kind : Token.Kind}
    (hkind : Cursor.mark? c₂.rest = some kind) :
    i.Alike i.SameToken (c₁.mark kind) (c₂.mark kind) := by
  have hstarts : Glyph.startsWith c₂.rest kind.spelling = true := by
    have hfound := List.find?_some hkind
    rw [Bool.and_eq_true] at hfound
    exact hfound.1
  have hlength : kind.spelling.length ≤ c₂.rest.length := by
    have := Glyph.length_of_startsWith hstarts
    rwa [Glyph.ofText, List.length_map, String.length_toList] at this
  unfold Cursor.mark
  refine (h.advanceBy hlength).elim (fun hspoiled => .inl ⟨hspoiled.1, hspoiled.2⟩) fun k => ?_
  refine .inr ⟨k.withNesting _ _, ?_⟩
  rw [SameToken, h.offset_eq]
  rfl

/-! ### Numbers -/

theorem numberBody_eq (h : i.Beside c₁ c₂) : c₁.numberBody = c₂.numberBody := by
  unfold Cursor.numberBody
  rw [h.options_eq, h.rest_eq, Number.body_append i.break_after]

theorem numberDigits_abreast (h : i.Beside c₁ c₂) :
    i.Abreast c₁.numberDigits c₂.numberDigits := by
  have hlength : c₂.numberBody.length ≤ c₂.rest.length := Number.body_length_le _ _
  unfold Cursor.numberDigits
  rw [h.numberBody_eq]
  dsimp only
  split
  · exact h.advanceBy hlength
  · refine (h.advanceBy hlength).then (Cursor.reaches_report ..) fun k => ?_
    rw [h.textTo_eq k, h.offset_eq]
    exact k.report _ _

theorem numberEnd_alike (h : i.Beside c₁ c₂) :
    i.Alike (· = ·) c₁.numberEnd c₂.numberEnd := by
  refine h.numberDigits_abreast.reads (Cursor.numberDigits_reaches c₂) fun k => ?_
  have hsuffix : Number.suffixKind? c₁.numberBody c₁.numberDigits.rest =
      Number.suffixKind? c₂.numberBody c₂.numberDigits.rest := by
    rw [h.numberBody_eq, k.rest_eq, Number.suffixKind?_append i.break_after]
  unfold Cursor.numberEnd
  rw [hsuffix]
  split
  · next kind hkind =>
    obtain ⟨g, rest, hrest⟩ : ∃ g rest, c₂.numberDigits.rest = g :: rest := by
      cases hrest : c₂.numberDigits.rest with
      | nil =>
        rw [hrest] at hkind
        cases hkind
      | cons g rest => exact ⟨g, rest, rfl⟩
    exact (k.advance hrest).alike fun _ => rfl
  · exact .inr ⟨k, congrArg Number.Body.kind h.numberBody_eq⟩

theorem number_alike (h : i.Beside c₁ c₂) : i.Alike i.SameToken c₁.number c₂.number := by
  refine h.numberEnd_alike.reads (Cursor.numberEnd_reaches c₂) fun k hkind => ?_
  rw [Cursor.number_eq, Cursor.number_eq]
  dsimp only
  rw [k.wordRun_eq, h.offset_eq, hkind]
  split
  · refine .inr ⟨k, ?_⟩
    rw [SameToken, h.textTo_eq k]
    rfl
  · refine k.wordRun_abreast.reads (Cursor.reaches_report ..) fun k => ?_
    rw [h.textTo_eq k]
    exact (k.report _ _).alike fun _ => rfl

/-! ### Quoted tokens -/

theorem escapeDigits_alike (h : i.Beside c₁ c₂) (radix start count value : Nat) :
    i.Alike (· = ·) (Cursor.escapeDigits radix (start + i.gap) count value c₁)
      (Cursor.escapeDigits radix start count value c₂) := by
  induction count generalizing value c₁ c₂ with
  | zero => exact .inr ⟨h, rfl⟩
  | succ count ih =>
    rw [Cursor.escapeDigits, Cursor.escapeDigits]
    cases hc₂ : c₂.rest with
    | nil =>
      by_cases hafter : i.after = []
      · rw [h.rest_eq, hc₂, hafter]
        exact (h.report _ _).alike fun _ => rfl
      · exact .inl ⟨hafter, by simp [Cursor.report]⟩
    | cons g rest =>
      rw [h.head_eq hc₂]
      dsimp only
      cases Text.digit? radix g.shown with
      | none =>
        rw [h.offset_eq]
        exact (h.report _ _).alike fun _ => rfl
      | some d =>
        exact (h.advance hc₂).reads (Cursor.reaches_escapeDigits ..) fun k => ih k _

theorem escape_alike (h : i.Beside c₁ c₂) (quote : Char) :
    i.Alike (· = ·) (c₁.escape quote) (c₂.escape quote) := by
  unfold Cursor.escape
  cases hc₂ : c₂.rest with
  | nil =>
    by_cases hafter : i.after = []
    · rw [h.rest_eq, hc₂, hafter, h.offset_eq]
      exact (h.report _ _).alike fun _ => rfl
    · exact .inl ⟨hafter, by simp [Cursor.report]⟩
  | cons g rest =>
    rw [h.head_eq hc₂]
    dsimp only
    split
    · exact (h.advance hc₂).alike fun _ => rfl
    · split
      · rw [h.offset_eq]
        exact (h.report _ _).alike fun _ => rfl
      · next radix count _ =>
        have hstart : i.Abreast (if radix = 8 then c₁ else c₁.advance)
            (if radix = 8 then c₂ else c₂.advance) := by
          split
          · exact h.abreast
          · exact h.advance hc₂
        have hdigits : i.Alike (· = ·)
            (Cursor.escapeDigits radix (c₂.offset + i.gap) count 0
              (if radix = 8 then c₁ else c₁.advance))
            (Cursor.escapeDigits radix c₂.offset count 0 (if radix = 8 then c₂ else c₂.advance)) :=
          hstart.reads (Cursor.reaches_escapeDigits ..) fun k => k.escapeDigits_alike ..
        rw [h.offset_eq]
        generalize Cursor.escapeDigits radix (c₂.offset + i.gap) count 0 _ = read₁ at hdigits ⊢
        generalize Cursor.escapeDigits radix c₂.offset count 0 _ = read₂ at hdigits ⊢
        obtain ⟨last₁, value₁⟩ := read₁
        obtain ⟨last₂, value₂⟩ := read₂
        cases value₂ with
        | none =>
          refine hdigits.reads (.refl _) ?_
          rintro k rfl
          exact .inr ⟨k, rfl⟩
        | some value =>
          dsimp only
          by_cases hvalue :
            Cursor.escapeLimit count < value ∨ (0xD800 ≤ value ∧ value < 0xE000)
          · rw [if_pos hvalue]
            refine hdigits.reads (Cursor.reaches_report ..) ?_
            rintro k rfl
            dsimp only
            rw [if_pos hvalue]
            exact (k.report _ _).alike fun _ => rfl
          · rw [if_neg hvalue]
            refine hdigits.reads (.refl _) ?_
            rintro k rfl
            dsimp only
            rw [if_neg hvalue]
            exact .inr ⟨k, rfl⟩

theorem quotedRest_abreast (h : i.Beside c₁ c₂) (start : Nat) (quote : Char) :
    i.Abreast (c₁.quotedRest (start + i.gap) quote) (c₂.quotedRest start quote) := by
  fun_induction Cursor.quotedRest start quote c₂ generalizing c₁ with
  | case1 c₂ hc₂ =>
    by_cases hafter : i.after = []
    · rw [Cursor.quotedRest_eq, h.rest_eq, hc₂, hafter]
      exact h.report _ _
    · exact .inl ⟨hafter, by simp [Cursor.report]⟩
  | case2 c₂ rest hc₂ =>
    rw [Cursor.quotedRest_eq, h.head_eq hc₂]
    exact h.report _ _
  | case3 c₂ rest hc₂ hbreak ih =>
    rw [Cursor.quotedRest_eq, h.head_eq hc₂]
    dsimp only
    rw [if_neg hbreak, if_pos rfl]
    exact (h.advance hc₂).then ((Cursor.reaches_escape ..).trans (Cursor.reaches_quotedRest ..))
      fun k => (k.escape_alike quote).then (Cursor.reaches_quotedRest ..) fun k _ => ih k
  | case4 c₂ rest hc₂ hbreak hescape =>
    rw [Cursor.quotedRest_eq, h.head_eq hc₂]
    dsimp only
    rw [if_neg hbreak, if_neg hescape, if_pos rfl]
    exact h.advance hc₂
  | case5 c₂ g rest hc₂ hbreak hescape hquote ih =>
    rw [Cursor.quotedRest_eq, h.head_eq hc₂]
    dsimp only
    rw [if_neg hbreak, if_neg hescape, if_neg hquote]
    exact (h.advance hc₂).then (Cursor.reaches_quotedRest ..) fun k => ih k

theorem charRest_alike (h : i.Beside c₁ c₂) (start : Nat) (count : Option Nat) :
    i.Alike (· = ·) (c₁.charRest (start + i.gap) count) (c₂.charRest start count) := by
  fun_induction Cursor.charRest start count c₂ generalizing c₁ with
  | case1 count c₂ hc₂ =>
    by_cases hafter : i.after = []
    · rw [Cursor.charRest_eq, h.rest_eq, hc₂, hafter]
      exact (h.report _ _).alike fun _ => rfl
    · exact .inl ⟨hafter, by simp [Cursor.report]⟩
  | case2 count c₂ rest hc₂ =>
    rw [Cursor.charRest_eq, h.head_eq hc₂]
    exact (h.report _ _).alike fun _ => rfl
  | case3 count c₂ rest hc₂ hbreak =>
    rw [Cursor.charRest_eq, h.head_eq hc₂]
    exact (h.advance hc₂).alike fun _ => rfl
  | case4 count c₂ rest step hc₂ hbreak hquote =>
    rename_i ih
    rw [Cursor.charRest_eq, h.head_eq hc₂]
    refine (h.advance hc₂).reads ((Cursor.reaches_escape ..).trans (Cursor.reaches_charRest ..))
      fun k => (k.escape_alike '\'').reads (Cursor.reaches_charRest ..) fun k hvalid => ?_
    dsimp only
    rw [if_neg hbreak, if_neg hquote, if_pos rfl, hvalid]
    exact ih k
  | case5 count c₂ g rest hc₂ hbreak hquote hescape ih =>
    rw [Cursor.charRest_eq, h.head_eq hc₂]
    dsimp only
    rw [if_neg hbreak, if_neg hquote, if_neg hescape]
    exact (h.advance hc₂).reads (Cursor.reaches_charRest ..) fun k => ih k

theorem quoted_alike (h : i.Beside c₁ c₂) {g : Glyph} {rest : List Glyph}
    (hc₂ : c₂.rest = g :: rest) (quote : Char) :
    i.Alike i.SameToken (c₁.quoted quote) (c₂.quoted quote) := by
  unfold Cursor.quoted
  rw [h.offset_eq]
  refine (h.advance hc₂).reads (Cursor.reaches_quotedRest ..) fun k =>
    (k.quotedRest_abreast _ _).alike fun k => ?_
  rw [SameToken, h.textTo_eq k]
  rfl

theorem char_alike (h : i.Beside c₁ c₂) {g : Glyph} {rest : List Glyph}
    (hc₂ : c₂.rest = g :: rest) : i.Alike i.SameToken c₁.char c₂.char := by
  unfold Cursor.char
  rw [h.options_eq]
  split
  · exact h.quoted_alike hc₂ _
  · rw [h.offset_eq]
    have hread : i.Alike (· = ·) (c₁.advance.charRest (c₂.offset + i.gap) (some 0))
        (c₂.advance.charRest c₂.offset (some 0)) :=
      (h.advance hc₂).reads (Cursor.reaches_charRest ..) fun k => k.charRest_alike _ _
    generalize c₁.advance.charRest (c₂.offset + i.gap) (some 0) = read₁ at hread ⊢
    generalize c₂.advance.charRest c₂.offset (some 0) = read₂ at hread ⊢
    obtain ⟨last₁, count₁⟩ := read₁
    obtain ⟨last₂, count₂⟩ := read₂
    dsimp only
    by_cases hcount : count₂.all (· = 1) = true
    · rw [if_pos hcount]
      refine hread.reads (.refl _) ?_
      rintro k rfl
      rw [if_pos hcount]
      refine .inr ⟨k, ?_⟩
      rw [SameToken, h.textTo_eq k]
      rfl
    · rw [if_neg hcount]
      refine hread.reads (Cursor.reaches_report ..) ?_
      rintro k rfl
      rw [if_neg hcount, h.textTo_eq k]
      exact (k.report _ _).alike fun _ => rfl

/-! ### Raw texts -/

/-- A fence has no line break in it, so none reaches beyond the inner source. -/
theorem fence_append (fence : Nat) (g : Glyph) (rest : List Glyph) :
    (List.replicate fence Cursor.fenceGlyph).isPrefixOf (g :: (rest ++ i.after)) =
      (List.replicate fence Cursor.fenceGlyph).isPrefixOf (g :: rest) := by
  refine Glyph.isPrefixOf_append i.break_after (fun h => ?_) (g :: rest)
  exact absurd (List.eq_of_mem_replicate h) (by decide)

theorem pastFence_abreast (h : i.Beside c₁ c₂) (start : Nat) {fence : Nat} (cause : ScanCause) :
    i.Abreast (c₁.pastFence (start + i.gap) fence cause) (c₂.pastFence start fence cause) := by
  have hstop := Glyph.stop_countUntil (List.replicate fence Cursor.fenceGlyph).isPrefixOf c₂.rest
  have hle := Glyph.countUntil_le (List.replicate fence Cursor.fenceGlyph).isPrefixOf c₂.rest
  have huntil := Glyph.countUntil_append (List.replicate fence Cursor.fenceGlyph).isPrefixOf
    (fence_append (i := i) fence) c₂.rest
  unfold Cursor.pastFence
  rw [h.rest_eq, huntil]
  dsimp only
  by_cases hinside :
    Glyph.countUntil (List.replicate fence Cursor.fenceGlyph).isPrefixOf c₂.rest < c₂.rest.length
  · have hfence := (List.isPrefixOf_iff_prefix.1 (hstop hinside)).length_le
    rw [List.length_replicate, List.length_drop] at hfence
    have hlt : Glyph.countUntil (List.replicate fence Cursor.fenceGlyph).isPrefixOf c₂.rest <
        (c₂.rest ++ i.after).length := by
      rw [List.length_append]
      omega
    rw [if_pos hinside, if_pos hlt, if_pos hinside]
    exact h.advanceBy (by omega)
  · rw [if_neg hinside, if_neg hinside]
    by_cases hafter : i.after = []
    · rw [hafter, List.append_nil, Glyph.countUntil, Nat.add_zero, if_neg (Nat.lt_irrefl _)]
      rw [Nat.le_antisymm hle (Nat.le_of_not_lt hinside)]
      exact (h.advanceBy (Nat.le_refl _)).then (Cursor.reaches_report ..) fun k => k.report _ _
    · exact .inl ⟨hafter, by simp [Cursor.report]⟩

theorem raw_alike (h : i.Beside c₁ c₂) : i.Alike i.SameToken c₁.raw c₂.raw := by
  have hfence : Glyph.countWhile (· = Cursor.fenceGlyph) c₁.rest =
      Glyph.countWhile (· = Cursor.fenceGlyph) c₂.rest := by
    rw [h.rest_eq]
    exact Glyph.countWhile_append i.break_after (by decide) c₂.rest
  have hopened := h.advanceBy (n := Glyph.countWhile (· = Cursor.fenceGlyph) c₂.rest)
    (List.takeWhile_prefix _).length_le
  unfold Cursor.raw
  rw [hfence, h.offset_eq]
  generalize Glyph.countWhile (· = Cursor.fenceGlyph) c₂.rest = fence at hopened
  dsimp only
  split
  · refine hopened.reads (Cursor.reaches_pastFence ..) fun k =>
      (k.pastFence_abreast _ _).alike fun k => ?_
    rw [SameToken, h.textTo_eq k]
    rfl
  · split
    · refine hopened.alike fun k => ?_
      rw [SameToken, h.textTo_eq k]
      rfl
    · refine hopened.reads (Cursor.reaches_pastFence ..) fun k =>
        (k.pastFence_abreast _ _).alike fun k => ?_
      rw [SameToken, h.textTo_eq k]
      rfl

/-! ### Lexemes -/

theorem stray_alike (h : i.Beside c₁ c₂) {g : Glyph} {rest : List Glyph}
    (hc₂ : c₂.rest = g :: rest) : i.Alike i.SameToken (c₁.stray g) (c₂.stray g) := by
  unfold Cursor.stray
  rw [h.offset_eq]
  exact (h.advance hc₂).reads (Cursor.reaches_report ..) fun k => (k.report _ _).alike fun _ => rfl

theorem closing_alike (h : i.Beside c₁ c₂) {read₁ read₂ : Cursor × Token}
    (hread : i.Alike i.SameToken read₁ read₂) :
    i.Alike i.SameToken (c₁.closing read₁) (c₂.closing read₂) := by
  refine hread.reads (.of_eq rfl rfl rfl rfl) fun k htoken => .inr ⟨?_, htoken⟩
  have hkind : read₁.2.kind = read₂.2.kind := by
    rw [htoken]
    rfl
  unfold Cursor.closing
  rw [hkind, h.options_eq]
  exact k.withPending _

theorem lexeme_alike (h : i.Beside c₁ c₂) {g : Glyph} {rest : List Glyph}
    (hc₂ : c₂.rest = g :: rest) : i.Alike i.SameToken (c₁.lexeme g) (c₂.lexeme g) := by
  have hword : c₁.atWord = c₂.atWord := by
    unfold Cursor.atWord
    rw [h.rest_eq]
    exact Glyph.any_head?_append i.break_after (by decide) c₂.rest
  have hnumber : c₁.atNumber = c₂.atNumber := by
    unfold Cursor.atNumber
    rw [h.head_eq hc₂, hc₂, List.drop_one, List.drop_one, List.tail_cons, List.tail_cons,
      Number.startsWithDigit_append i.break_after rest]
    rfl
  have hmark : Cursor.mark? c₁.rest = Cursor.mark? c₂.rest := by
    rw [h.rest_eq, Cursor.mark?_append i.break_after]
  unfold Cursor.lexeme
  rw [hword, hnumber, hmark]
  split
  · exact h.closing_alike h.word_alike
  · split
    · exact h.closing_alike h.number_alike
    · split
      · exact h.closing_alike (h.quoted_alike hc₂ _)
      · split
        · exact h.closing_alike (h.char_alike hc₂)
        · split
          · exact h.closing_alike h.raw_alike
          · cases hkind : Cursor.mark? c₂.rest with
            | some kind => exact h.closing_alike (h.mark_alike hkind)
            | none => exact h.stray_alike hc₂

/-! ### Comments -/

theorem lineComment_abreast (h : i.Beside c₁ c₂) {g : Glyph} {rest : List Glyph}
    (hc₂ : c₂.rest = g :: rest) : i.Abreast c₁.lineComment c₂.lineComment := by
  have hdelimited (c : Cursor) (hc : c.options.mixed = false) : c.isDelimited = false := by
    unfold Cursor.isDelimited
    rw [hc, Bool.false_and]
  unfold Cursor.lineComment
  rw [hdelimited c₁ h.isCode₁.mixed_eq, hdelimited c₂ h.isCode₂.mixed_eq, h.head_eq hc₂, hc₂,
    List.tail_cons, List.tail_cons]
  simp only [Bool.false_and, Bool.or_false]
  have huntil : Glyph.countUntil (fun glyphs => glyphs.head? = some (.char '\n'))
      (rest ++ i.after) =
      Glyph.countUntil (fun glyphs => glyphs.head? = some (.char '\n')) rest := by
    rw [Glyph.countUntil_append _ fun _ _ => rfl]
    have hnone : Glyph.countUntil (fun glyphs => glyphs.head? = some (.char '\n')) i.after = 0 := by
      cases hafter : i.after with
      | nil => rfl
      | cons g rest =>
        rw [i.break_after g (by rw [hafter]; rfl)]
        rfl
    have hle := Glyph.countUntil_le (fun glyphs => glyphs.head? = some (.char '\n')) rest
    rw [hnone]
    split
    · rfl
    · omega
  rw [huntil]
  refine h.advanceBy ?_
  rw [hc₂, List.length_cons]
  exact Nat.succ_le_succ (Glyph.countUntil_le _ _)

theorem blockComment_abreast (h : i.Beside c₁ c₂)
    (hstarts : Glyph.startsWith c₂.rest "/*" = true) :
    i.Abreast c₁.blockComment c₂.blockComment := by
  have hlength : 2 ≤ c₂.rest.length := Glyph.length_of_startsWith hstarts
  have hstop (g : Glyph) (rest : List Glyph) :
      Glyph.startsWith (g :: (rest ++ i.after)) "*/" = Glyph.startsWith (g :: rest) "*/" := by
    rw [← List.cons_append, Glyph.startsWith_append i.break_after (by decide)]
  have huntil := Glyph.countUntil_append (Glyph.startsWith · "*/") hstop (c₂.rest.drop 2)
  have hle := Glyph.countUntil_le (Glyph.startsWith · "*/") (c₂.rest.drop 2)
  have hdelimiter := Glyph.stop_countUntil (Glyph.startsWith · "*/") (c₂.rest.drop 2)
  unfold Cursor.blockComment
  rw [h.rest_eq, List.drop_append_of_le_length hlength, huntil]
  generalize Glyph.countUntil (Glyph.startsWith · "*/") (c₂.rest.drop 2) = inside at hle hdelimiter
  dsimp only
  rw [List.length_drop] at hle hdelimiter ⊢
  by_cases hinside : inside < c₂.rest.length - 2
  · have htwo : 2 ≤ (c₂.rest.drop (inside + 2)).length := by
      have hlength : 2 ≤ ((c₂.rest.drop 2).drop inside).length :=
        Glyph.length_of_startsWith (hdelimiter hinside)
      rwa [List.drop_drop, Nat.add_comm 2] at hlength
    have hrest : (c₂.advanceBy (inside + 2)).rest = c₂.rest.drop (inside + 2) :=
      Cursor.advanceBy_rest _ _
    have hne : (c₂.advanceBy (inside + 2)).rest ≠ [] := by
      rw [hrest]
      exact List.ne_nil_of_length_pos (Nat.lt_of_lt_of_le Nat.two_pos htwo)
    rw [if_pos hinside, if_neg hne]
    refine (h.advanceBy (n := inside + 2) (by omega)).then (Cursor.reaches_advanceBy ..) fun k => ?_
    rw [if_neg (by rw [k.rest_eq]; exact List.append_ne_nil_of_left_ne_nil hne _)]
    exact k.advanceBy (by rwa [hrest])
  · have hrest : (c₂.advanceBy (inside + 2)).rest = [] := by
      rw [Cursor.advanceBy_rest]
      exact List.drop_eq_nil_of_le (by omega)
    rw [if_neg hinside, if_pos hrest]
    by_cases hafter : i.after = []
    · have hlast : inside = c₂.rest.length - 2 := by omega
      rw [hafter, Glyph.countUntil, Nat.add_zero, ← hlast]
      refine (h.advanceBy (n := inside + 2) (by omega)).then (Cursor.reaches_report ..) fun k => ?_
      rw [if_pos (by rw [k.rest_eq, hrest, hafter]; rfl), h.offset_eq]
      exact k.report _ _
    · exact .inl ⟨hafter, by simp [Cursor.report]⟩

theorem comment_alike (h : i.Beside c₁ c₂) (hcomment : c₂.atComment = true) :
    i.Alike i.SameToken c₁.comment c₂.comment := by
  unfold Cursor.comment
  rw [h.offset_eq]
  by_cases hline : Cursor.startsLineComment c₂.rest = true
  · obtain ⟨g, rest, hrest⟩ : ∃ g rest, c₂.rest = g :: rest := by
      cases hrest : c₂.rest with
      | nil =>
        rw [hrest] at hline
        cases hline
      | cons g rest => exact ⟨g, rest, rfl⟩
    have hline₁ : Cursor.startsLineComment c₁.rest = true := by
      rw [h.rest_eq, Cursor.startsLineComment_append i.break_after, hline]
    rw [if_pos hline, if_pos hline₁]
    refine (h.lineComment_abreast hrest).alike fun k => ?_
    rw [SameToken, h.textTo_eq k]
    rfl
  · have hline₁ : ¬ Cursor.startsLineComment c₁.rest = true := by
      rwa [h.rest_eq, Cursor.startsLineComment_append i.break_after]
    have hblock : Glyph.startsWith c₂.rest "/*" = true := by
      unfold Cursor.atComment at hcomment
      exact (Bool.or_eq_true_iff.1 hcomment).resolve_left hline
    rw [if_neg hline, if_neg hline₁]
    refine (h.blockComment_abreast hblock).alike fun k => ?_
    rw [SameToken, h.textTo_eq k]
    rfl

end Beside

end Inset

end TemplateScript
