import TemplateScript.Proofs.Cursor.Lookahead
import TemplateScript.Proofs.Cursor.Reach

/-!
# What tokens use up

A cursor weighs what is left to be read: two for every glyph, since a line break may stand behind
each, and one for every token that waits to be handed out. Every token but the end of the file makes
it lighter, so whoever reads on comes to the end.
-/

namespace TemplateScript

namespace Cursor

variable {c : Cursor}

/-- A bound on the tokens that are left before the end of the file. -/
def weight (c : Cursor) : Nat := 2 * c.rest.length + c.pool.length + c.pending.toNat

theorem weight_lt_bound (c : Cursor) : c.weight < c.bound := by
  have := Bool.toNat_le c.pending
  unfold weight bound
  omega

/-- What was read is lighter than before: the cursor behind it, and the tokens that come with it. -/
def Lighter (c : Cursor) (read : Cursor × Token × List Token) : Prop :=
  2 * read.1.rest.length + read.2.2.length + read.1.pending.toNat <
    2 * c.rest.length + c.pending.toNat

theorem lighter_of_length {read : Cursor × Token × List Token} (hmore : read.2.2 = [])
    (h : read.1.rest.length < c.rest.length) : c.Lighter read := by
  have := Bool.toNat_le read.1.pending
  unfold Lighter
  rw [hmore, List.length_nil]
  omega

theorem lighter_of_pending (token : Token) (h : c.pending = true) :
    c.Lighter ({ c with pending := false }, token, []) := by
  unfold Lighter
  rw [h, Bool.toNat_true]
  exact Nat.lt_succ_self _

/-- The tokens of a pragma's body are made of its glyphs. -/
theorem length_bodyTokens (c : Cursor) :
    c.bodyTokens.2.length + c.bodyTokens.1.rest.length ≤ c.rest.length := by
  fun_induction bodyTokens c with
  | case1 c =>
    rw [List.length_nil, Nat.zero_add]
    exact skipBlanks_length_le c
  | case2 c g rest hrest hcomment ih =>
    have hblanks := skipBlanks_length_le c
    have hshorter := comment_length_lt c.skipBlanks (by simp [hrest])
    omega
  | case3 c g rest hrest hcomment more ih =>
    have hblanks := skipBlanks_length_le c
    have hshorter := lexeme_length_lt hrest
    change more.2.length + more.1.rest.length ≤ _ at ih
    change (_ :: more.2).length + more.1.rest.length ≤ _
    rw [List.length_cons]
    omega

theorem length_lt_of_startsWith {word : String} (h : Glyph.startsWith c.rest word = true) {n : Nat}
    (hn : word.length ≤ n) : (c.advanceBy n).rest.length < c.rest.length := by
  obtain ⟨hlength, hpos⟩ := Glyph.length_of_startsWith_pos h
  rw [advanceBy_rest, List.length_drop]
  omega

theorem pragmaHead?_le {glyphs : List Glyph} {head : Nat} (h : pragmaHead? glyphs = some head) :
    0 < head ∧ head ≤ glyphs.length := by
  unfold pragmaHead? at h
  split at h
  · cases h
  · next g rest =>
    dsimp only at h
    split at h
    · next hmarker =>
      obtain ⟨hlength, hpos⟩ := Glyph.length_of_startsWith_pos hmarker.2
      obtain rfl := Option.some.inj h
      rw [List.length_drop] at hlength
      rw [List.length_cons]
      omega
    · cases h

theorem pragma_lighter {head : Nat} (h : c.pragmaLine? = some head) :
    c.Lighter (c.pragma head) := by
  obtain ⟨hpos, hle⟩ : 0 < head ∧ head ≤ c.rest.length := by
    unfold pragmaLine? at h
    split at h
    · cases h
    · exact pragmaHead?_le h
  let size := Glyph.countUntil endsPragma (c.rest.drop head)
  have hsize : size ≤ (c.rest.drop head).length := Glyph.countUntil_le ..
  have hbody := length_bodyTokens (c.bodyStart head size)
  have hstart : (c.bodyStart head size).rest.length = size := by
    rw [bodyStart, arrive_rest, List.length_take]
    exact Nat.min_eq_left hsize
  have hlast : (c.pragma head).1.rest.length ≤ c.rest.length - (head + size) := by
    change (advance _).rest.length ≤ _
    rw [advance_rest, List.length_tail, advanceBy_rest, List.length_drop]
    exact Nat.sub_le ..
  have hmore : (c.pragma head).2.2.length = (c.bodyStart head size).bodyTokens.2.length + 1 :=
    List.length_append
  rw [List.length_drop] at hsize
  unfold Lighter
  rw [hmore, show (c.pragma head).1.pending = false from rfl, Bool.toNat_false]
  omega

theorem codeEnd?_length_lt {last : Cursor} {token : Token} (h : c.codeEnd? = some (last, token)) :
    last.rest.length < c.rest.length := by
  unfold codeEnd? at h
  dsimp only at h
  split at h
  · next hend =>
    obtain ⟨rfl, -⟩ := Prod.mk.inj (Option.some.inj h)
    rw [Bool.and_eq_true, Bool.or_eq_true] at hend
    rcases hend.2 with htrims | hclosing
    · have hdash := (Bool.and_eq_true_iff.1 htrims).1
      rw [htrims]
      exact length_lt_of_startsWith hdash (Nat.le_add_left ..)
    · exact length_lt_of_startsWith hclosing (Nat.le_add_right ..)
  · cases h

theorem codeEnd?_lighter {last : Cursor} {token : Token} (h : c.codeEnd? = some (last, token)) :
    c.Lighter (last, token, []) := lighter_of_length rfl (codeEnd?_length_lt h)

theorem Lighter.blanks {read : Cursor × Token × List Token} (h : c.skipBlanks.Lighter read) :
    c.Lighter read := by
  have hblanks := skipBlanks_length_le c
  have hpending : c.skipBlanks.pending = c.pending := advanceBy_pending _ c
  unfold Lighter at h ⊢
  rw [hpending] at h
  omega

theorem code_lighter (c : Cursor) (h : c.code.2.1.kind ≠ .eof) : c.Lighter c.code := by
  fun_induction code c with
  | case1 c start last token hend => exact (codeEnd?_lighter hend).blanks
  | case2 c start _ head hhead => exact (pragma_lighter hhead).blanks
  | case3 c start _ _ hrest hpending => exact (lighter_of_pending _ hpending).blanks
  | case4 c start => exact absurd rfl h
  | case5 c start _ _ g rest hrest hcomment hpending =>
    exact (lighter_of_pending _ (Bool.and_eq_true_iff.1 hpending).1).blanks
  | case6 c start _ _ g rest hrest =>
    exact (lighter_of_length rfl (comment_length_lt start (by simp [hrest]))).blanks
  | case7 c start _ _ g rest hrest hcomment hpending hcomments ih =>
    have hshorter : start.comment.1.rest.length < start.rest.length :=
      comment_length_lt start (by simp [hrest])
    have hpending := Bool.toNat_le start.comment.1.pending
    have hmore := ih h
    refine Lighter.blanks ?_
    unfold Lighter at hmore ⊢
    change _ < 2 * start.rest.length + _
    omega
  | case8 c start _ _ rest hcomment hrest =>
    refine (lighter_of_length rfl ?_).blanks
    rw [advance_rest, List.length_tail, hrest]
    exact Nat.lt_succ_self _
  | case9 c start _ _ g rest hrest => exact (lighter_of_length rfl (lexeme_length_lt hrest)).blanks

theorem textEnd_length (c : Cursor) : c.textEnd.rest.length = c.rest.length - c.textRun.1 := by
  rw [textEnd, advanceBy_rest, List.length_drop]

theorem textEnd_pending (c : Cursor) : c.textEnd.pending = c.pending := advanceBy_pending _ c

theorem textToken_kept {start : Nat} {blanks kept : List Glyph} {escaped : Bool} {token : Token}
    (h : textToken? start blanks kept escaped = some token) : kept ≠ [] := by
  rintro rfl
  cases h

/-- Text of which something is kept has been read. -/
theorem textEnd_length_lt (h : c.textKept ≠ []) : c.textEnd.rest.length < c.rest.length := by
  have hkept := List.length_pos_iff.2 h
  unfold textKept at hkept
  rw [List.length_drop, List.length_take] at hkept
  rw [textEnd_length]
  omega

theorem openingDelimiter_length (c : Cursor) (opening : String) :
    opening.length ≤ (c.openingDelimiter opening).1 :=
  Nat.le_trans (Nat.le_add_right ..) (Nat.le_add_right ..)

/-- The delimiter behind a text is made of glyphs behind it. -/
theorem textCode_length_lt
    (h : Glyph.startsWith c.textEnd.rest c.options.delimiters.opening = true) :
    c.textCode.rest.length < c.textEnd.rest.length := by
  have hlength := length_lt_of_startsWith h (openingDelimiter_length c.textEnd _)
  rwa [advanceBy_rest, ← enterCode_rest _ _ (c.textDelimiter.2.kind = .valueBegin)] at hlength

theorem templateText_lighter (c : Cursor) (h : c.templateText.2.1.kind ≠ .eof) :
    c.Lighter c.templateText := by
  have hend : c.textEnd.rest.length ≤ c.rest.length := textEnd_length c ▸ Nat.sub_le ..
  rw [templateText_eq] at h ⊢
  dsimp only at h ⊢
  split
  · next hopening =>
    have hcode := textCode_length_lt (Bool.and_eq_true_iff.1 hopening).1
    have hpending : c.textCode.pending = false := rfl
    split
    · unfold Lighter
      dsimp only
      rw [hpending, List.length_singleton, Bool.toNat_false]
      omega
    · exact lighter_of_length rfl (Nat.lt_of_lt_of_le hcode hend)
  · next hopening =>
    rw [if_neg hopening] at h
    split
    · next htoken => exact lighter_of_length rfl (textEnd_length_lt (textToken_kept htoken))
    · next hnone =>
      rw [hnone] at h
      split
      · next hhead =>
        have hpragma := pragma_lighter hhead
        unfold Lighter at hpragma ⊢
        rw [textEnd_pending] at hpragma
        omega
      · next hhead =>
        rw [hhead] at h
        exact absurd rfl h

/-- Every token but the end of the file makes the cursor lighter. -/
theorem scan_weight_lt (c : Cursor) (h : c.scan.2.kind ≠ .eof) : c.scan.1.weight < c.weight := by
  unfold scan at h ⊢
  unfold weight
  split
  · next hpool =>
    rw [hpool, List.length_cons]
    dsimp only
    omega
  · next hpool =>
    rw [hpool] at h
    have hread : c.Lighter (if c.inText then c.templateText else c.code) := by
      dsimp only at h
      split
      · next htext =>
        rw [if_pos htext] at h
        exact templateText_lighter c h
      · next htext =>
        rw [if_neg htext] at h
        exact code_lighter c h
    unfold Lighter at hread
    rw [hpool, List.length_nil]
    exact hread

end Cursor

end TemplateScript
