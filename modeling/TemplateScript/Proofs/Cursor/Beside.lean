import TemplateScript.Proofs.Cursor.Plain
import TemplateScript.Proofs.Source.Inset

/-!
# Cursors side by side

One cursor reads a source, another reads it inside a longer one. They stay at the same point: what a
lexeme looks at beyond the source is at most the line break that follows it there, and no lexeme but
a broken one tells that from the end of the source. When the inner source breaks off with something
wrong, the other cursor may go on as it likes.
-/

namespace TemplateScript

/-- An error further on. -/
def ScanError.shift (n lines : Nat) (e : ScanError) : ScanError :=
  { e with place := e.place.shift n lines }

/-- The cursor reads code, whatever it meets, and holds nothing back. -/
structure Cursor.IsCode (c : Cursor) : Prop extends ScanOptions.IsCode c.options where
  inText_eq : c.inText = false
  pool_eq : c.pool = []

namespace Inset

variable {i : Inset} {c₁ c₂ d₁ d₂ : Cursor}

/-- The cursors read the one source and the other, and both have found the same. -/
structure Along (i : Inset) (c₁ c₂ : Cursor) : Prop where
  inWhole : c₁.InSource i.whole
  inSource : c₂.InSource i.source
  options_eq : c₁.options = c₂.options
  name_eq : c₁.file.name = c₂.file.name
  isCode₁ : c₁.IsCode
  isCode₂ : c₂.IsCode
  taken_le₁ : c₁.taken ≤ c₁.errors.length
  taken_le₂ : c₂.taken ≤ c₂.errors.length
  newErrors_eq : c₁.newErrors = c₂.newErrors.map (ScanError.shift i.gap i.lines)

/-- The cursors are at one point of the inner source. -/
structure Beside (i : Inset) (c₁ c₂ : Cursor) : Prop extends i.Along c₁ c₂ where
  rest_eq : c₁.rest = c₂.rest ++ i.after
  pending_eq : c₁.pending = c₂.pending

/-- Something is wrong with the inner source, and the longer one goes on behind it. -/
def Spoiled (i : Inset) (c : Cursor) : Prop := i.after ≠ [] ∧ c.errors ≠ []

/-- The cursors are side by side, unless the inner source is spoiled. -/
def Abreast (i : Inset) (c₁ c₂ : Cursor) : Prop := i.Spoiled c₂ ∨ i.Beside c₁ c₂

/-- Two readings end side by side with values that correspond. -/
def Alike {α β : Type} (i : Inset) (same : α → β → Prop) (read₁ : Cursor × α) (read₂ : Cursor × β) :
    Prop :=
  i.Spoiled read₂.1 ∨ i.Beside read₁.1 read₂.1 ∧ same read₁.2 read₂.2

theorem Spoiled.reaches {c later : Cursor} (h : i.Spoiled c) (k : c.Reaches later) :
    i.Spoiled later :=
  ⟨h.1, List.IsPrefix.ne_nil k.errors_grow h.2⟩

/-- What the cursors do next, if they still are side by side. -/
theorem Abreast.then (h : i.Abreast c₁ c₂) (hreaches : c₂.Reaches d₂)
    (hnext : i.Beside c₁ c₂ → i.Abreast d₁ d₂) : i.Abreast d₁ d₂ :=
  h.elim (fun hspoiled => .inl (hspoiled.reaches hreaches)) hnext

namespace Beside

theorem offset_eq (h : i.Beside c₁ c₂) : c₁.offset = c₂.offset + i.gap := by
  obtain ⟨read₁, hread₁, hoffset₁, -⟩ := h.inWhole
  obtain ⟨read₂, hread₂, hoffset₂, -⟩ := h.inSource
  have hread : read₁ = i.before ++ read₂ := by
    have hwhole : read₁ ++ c₁.rest = i.before ++ read₂ ++ c₁.rest := by
      rw [← hread₁, whole, hread₂, h.rest_eq]
      simp only [List.append_assoc]
    exact List.append_cancel_right hwhole
  rw [hoffset₁, hoffset₂, hread, Glyph.widths_append, gap, Nat.add_comm]

theorem abreast (h : i.Beside c₁ c₂) : i.Abreast c₁ c₂ := .inr h

theorem withPending (h : i.Beside c₁ c₂) (pending : Bool) :
    i.Beside { c₁ with pending } { c₂ with pending } :=
  { h with
    inWhole := h.inWhole.reaches (.of_eq rfl rfl rfl rfl)
    inSource := h.inSource.reaches (.of_eq rfl rfl rfl rfl)
    pending_eq := rfl
    isCode₁ := { h.isCode₁ with }
    isCode₂ := { h.isCode₂ with } }

theorem withNesting (h : i.Beside c₁ c₂) (nesting₁ nesting₂ : Nesting) :
    i.Beside { c₁ with nesting := nesting₁ } { c₂ with nesting := nesting₂ } :=
  { h with
    inWhole := h.inWhole.reaches (.of_eq rfl rfl rfl rfl)
    inSource := h.inSource.reaches (.of_eq rfl rfl rfl rfl)
    isCode₁ := { h.isCode₁ with }
    isCode₂ := { h.isCode₂ with } }

theorem report (h : i.Beside c₁ c₂) (offset : Nat) (cause : ScanCause) :
    i.Abreast (c₁.report (offset + i.gap) cause) (c₂.report offset cause) := by
  by_cases hafter : i.after = []
  · have hrest : c₁.rest = c₂.rest := by rw [h.rest_eq, hafter, List.append_nil]
    have hplace := place_shift hafter h.inWhole h.inSource hrest h.name_eq offset
    refine .inr { h with
      inWhole := h.inWhole.reaches (Cursor.reaches_report ..)
      inSource := h.inSource.reaches (Cursor.reaches_report ..)
      isCode₁ := { h.isCode₁ with }
      isCode₂ := { h.isCode₂ with }
      taken_le₁ := Nat.le_trans h.taken_le₁ (by simp [Cursor.report])
      taken_le₂ := Nat.le_trans h.taken_le₂ (by simp [Cursor.report])
      newErrors_eq := ?_ }
    have hnew := h.newErrors_eq
    unfold Cursor.newErrors at hnew ⊢
    rw [Cursor.report, Cursor.report, List.drop_append_of_le_length h.taken_le₁,
      List.drop_append_of_le_length h.taken_le₂, hnew, List.map_append, hplace]
    rfl
  · exact .inl ⟨hafter, by simp [Cursor.report]⟩

/-- What is behind the inner source is fit to stand there. -/
theorem arrive (h : i.Beside c₁ c₂)
    (hoffset : 0 < c₂.offset ∨ c₂.rest.head? ≠ some (.char Cursor.byteOrderMark)) :
    i.Abreast c₁.arrive c₂.arrive := by
  have hrest := h.rest_eq
  unfold Cursor.arrive
  cases hc₂ : c₂.rest with
  | nil =>
    rw [hc₂, List.nil_append] at hrest
    rw [hrest]
    cases hafter : i.after with
    | nil => exact h.abreast
    | cons g rest =>
      rw [i.break_after g (by rw [hafter]; rfl)]
      exact h.abreast
  | cons g rest =>
    rw [hrest, hc₂, List.cons_append]
    cases g with
    | byte b =>
      dsimp only
      rw [h.offset_eq]
      exact h.report _ _
    | char ch =>
      dsimp only
      by_cases hmark : ch = Cursor.byteOrderMark
      · have hpos : 0 < c₂.offset := hoffset.resolve_right (by simp [hc₂, hmark])
        rw [if_pos ⟨hmark, by rw [h.offset_eq]; omega⟩, if_pos ⟨hmark, hpos⟩, h.offset_eq]
        exact h.report _ _
      · rw [if_neg fun k => hmark k.1, if_neg fun k => hmark k.1]
        exact h.abreast

theorem advance {g : Glyph} {rest : List Glyph} (h : i.Beside c₁ c₂) (hc₂ : c₂.rest = g :: rest) :
    i.Abreast c₁.advance c₂.advance := by
  have hc₁ : c₁.rest = g :: (rest ++ i.after) := by rw [h.rest_eq, hc₂, List.cons_append]
  have hstep : i.Beside { c₁.leave g with rest := rest ++ i.after, offset := c₁.offset + g.width }
      { c₂.leave g with rest, offset := c₂.offset + g.width } := by
    have hwhole := h.inWhole.reaches ⟨[g], Cursor.past_advance hc₁⟩
    have hsource := h.inSource.reaches ⟨[g], Cursor.past_advance hc₂⟩
    unfold Cursor.leave at hwhole hsource ⊢
    by_cases hg : g = .char '\n'
    · rw [if_pos hg] at hwhole hsource
      rw [if_pos hg, if_pos hg]
      exact { h with
        inWhole := hwhole
        inSource := hsource
        rest_eq := rfl
        name_eq := by rw [SourceFile.addLine_name, SourceFile.addLine_name, h.name_eq]
        isCode₁ := { h.isCode₁ with }
        isCode₂ := { h.isCode₂ with } }
    · rw [if_neg hg] at hwhole hsource
      rw [if_neg hg, if_neg hg]
      exact { h with
        inWhole := hwhole
        inSource := hsource
        rest_eq := rfl
        isCode₁ := { h.isCode₁ with }
        isCode₂ := { h.isCode₂ with } }
  unfold Cursor.advance
  rw [hc₁, hc₂]
  exact hstep.arrive (.inl (Nat.add_pos_right _ g.width_pos))

/-- Moving on inside the inner source. -/
theorem advanceBy (h : i.Beside c₁ c₂) {n : Nat} (hn : n ≤ c₂.rest.length) :
    i.Abreast (c₁.advanceBy n) (c₂.advanceBy n) := by
  induction n generalizing c₁ c₂ with
  | zero => exact h.abreast
  | succ n ih =>
    obtain ⟨g, rest, hrest⟩ := List.exists_cons_of_length_pos (Nat.lt_of_lt_of_le n.succ_pos hn)
    refine (h.advance hrest).then (Cursor.reaches_advanceBy n c₂.advance) fun h => ih h ?_
    rw [Cursor.advance_rest, List.length_tail]
    omega

/-- The text between two points that both cursors have been at. -/
theorem textTo_eq (h : i.Beside c₁ c₂) (k : i.Beside d₁ d₂) : c₁.textTo d₁ = c₂.textTo d₂ := by
  unfold Cursor.textTo
  rw [h.rest_eq, k.rest_eq, List.length_append, List.length_append, Nat.add_sub_add_right,
    List.take_append_of_le_length (Nat.sub_le _ _)]

end Beside

end Inset

end TemplateScript
