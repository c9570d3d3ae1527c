import Mathlib.Data.List.Find
import TemplateScript.Cursor.Scan

/-!
# Looking ahead

What is found at a point of a run of glyphs does not depend on what stands behind the run, if a line
break stands there or nothing: no lexeme has a line break in it but those that say where they end.
-/

namespace TemplateScript

variable {after : List Glyph}

namespace Glyph

theorem countWhile_append {p : Glyph → Bool} (hafter : ∀ g ∈ after.head?, g = .char '\n')
    (hp : p (.char '\n') = false) (glyphs : List Glyph) :
    countWhile p (glyphs ++ after) = countWhile p glyphs := by
  have hnone : after.takeWhile p = [] := by
    cases after with
    | nil => rfl
    | cons g rest =>
      rw [hafter g rfl]
      exact List.takeWhile_cons_of_neg (by simp [hp])
  unfold countWhile
  rw [List.takeWhile_append, hnone, List.append_nil]
  split
  · next h => exact h.symm
  · rfl

theorem any_head?_append {p : Glyph → Bool} (hafter : ∀ g ∈ after.head?, g = .char '\n')
    (hp : p (.char '\n') = false) (glyphs : List Glyph) :
    (glyphs ++ after).head?.any p = glyphs.head?.any p := by
  cases glyphs with
  | cons g rest => rfl
  | nil =>
    cases after with
    | nil => rfl
    | cons g rest => simp [hafter g rfl, hp]

theorem isPrefixOf_append (hafter : ∀ g ∈ after.head?, g = .char '\n') {word : List Glyph}
    (hword : .char '\n' ∉ word) (glyphs : List Glyph) :
    word.isPrefixOf (glyphs ++ after) = word.isPrefixOf glyphs := by
  induction word generalizing glyphs with
  | nil => rfl
  | cons w word ih =>
    obtain ⟨hw, hword⟩ := not_or.1 (mt List.mem_cons.2 hword)
    cases glyphs with
    | cons g rest =>
      rw [List.cons_append, List.isPrefixOf_cons_cons, List.isPrefixOf_cons_cons, ih hword]
    | nil =>
      cases after with
      | nil => rfl
      | cons g rest =>
        rw [hafter g rfl, List.nil_append, List.isPrefixOf_cons_cons, beq_false_of_ne (Ne.symm hw),
          Bool.false_and]
        rfl

theorem startsWith_append (hafter : ∀ g ∈ after.head?, g = .char '\n') {word : String}
    (hword : .char '\n' ∉ ofText word) (glyphs : List Glyph) :
    startsWith (glyphs ++ after) word = startsWith glyphs word := by
  unfold startsWith
  rw [isPrefixOf_append hafter hword]

theorem length_of_startsWith {glyphs : List Glyph} {word : String}
    (h : startsWith glyphs word = true) : (ofText word).length ≤ glyphs.length := by
  unfold startsWith at h
  rw [Bool.and_eq_true] at h
  exact (List.isPrefixOf_iff_prefix.1 h.2).length_le

theorem length_of_startsWith_pos {glyphs : List Glyph} {word : String}
    (h : startsWith glyphs word = true) : word.length ≤ glyphs.length ∧ 0 < word.length := by
  have hlength := length_of_startsWith h
  unfold startsWith at h
  rw [ofText, List.length_map, String.length_toList] at hlength
  refine ⟨hlength, Nat.pos_of_ne_zero fun hzero => ?_⟩
  have hempty : word = "" := by simpa using hzero
  simp [hempty] at h

theorem countUntil_le (stop : List Glyph → Bool) (glyphs : List Glyph) :
    countUntil stop glyphs ≤ glyphs.length := by
  induction glyphs with
  | nil => exact Nat.le_refl _
  | cons g rest ih =>
    rw [countUntil]
    split
    · exact Nat.zero_le _
    · exact Nat.succ_le_succ ih

/-- What the count stops at. -/
theorem stop_countUntil (stop : List Glyph → Bool) (glyphs : List Glyph)
    (h : countUntil stop glyphs < glyphs.length) :
    stop (glyphs.drop (countUntil stop glyphs)) = true := by
  induction glyphs with
  | nil => exact absurd h (Nat.not_lt_zero _)
  | cons g rest ih =>
    rw [countUntil] at h ⊢
    by_cases hstop : stop (g :: rest) = true
    · rw [if_pos hstop]
      exact hstop
    · rw [if_neg hstop] at h ⊢
      exact ih (Nat.lt_of_succ_lt_succ h)

theorem countUntil_append (stop : List Glyph → Bool)
    (hstop : ∀ g rest, stop (g :: (rest ++ after)) = stop (g :: rest)) (glyphs : List Glyph) :
    countUntil stop (glyphs ++ after) =
      if countUntil stop glyphs < glyphs.length then countUntil stop glyphs
      else glyphs.length + countUntil stop after := by
  induction glyphs with
  | nil => simp [countUntil]
  | cons g rest ih =>
    rw [List.cons_append, countUntil, countUntil, hstop, ih, List.length_cons]
    by_cases h : stop (g :: rest) = true
    · simp [h]
    · rw [if_neg h, if_neg h]
      split
      · next hlt => rw [if_pos (Nat.succ_lt_succ hlt)]
      · next hlt => rw [if_neg (by omega)]; omega

end Glyph

namespace Number

open Glyph

variable (hafter : ∀ g ∈ after.head?, g = .char '\n')

include hafter

theorem digitRun_append {radix : Nat} (hradix : Text.digit? radix '\n' = none)
    (glyphs : List Glyph) : digitRun radix (glyphs ++ after) = digitRun radix glyphs := by
  refine countWhile_append hafter ?_ glyphs
  simp [isDigitOf, Text.isDigit, hradix]

theorem startsWithDigit_append (glyphs : List Glyph) :
    startsWithDigit (glyphs ++ after) = startsWithDigit glyphs :=
  any_head?_append hafter rfl glyphs

theorem exponentRun_append (glyphs : List Glyph) :
    exponentRun (glyphs ++ after) = exponentRun glyphs := by
  match glyphs with
  | [] =>
    cases after with
    | nil => rfl
    | cons g rest =>
      rw [hafter g rfl]
      rfl
  | .byte b :: rest => rfl
  | [.char e] =>
    cases after with
    | nil => rfl
    | cons g rest =>
      rw [hafter g rfl]
      simp [exponentRun, startsWithDigit, isDecimalDigit]
  | .char e :: .byte b :: rest => rfl
  | .char e :: .char s :: rest =>
    have hrun : ∀ glyphs, digitRun 10 (glyphs ++ after) = digitRun 10 glyphs :=
      digitRun_append hafter rfl
    have hdigits := startsWithDigit_append hafter rest
    have hdigit := startsWithDigit_append hafter (.char s :: rest)
    have hdigitRun := hrun (.char s :: rest)
    rw [List.cons_append] at hdigit hdigitRun
    rw [List.cons_append, List.cons_append, exponentRun, exponentRun, hdigits, hrun rest, hdigit,
      hdigitRun]

theorem isDecimalPoint_append (glyphs : List Glyph) :
    isDecimalPoint (glyphs ++ after) = isDecimalPoint glyphs := by
  match glyphs with
  | [] =>
    cases after with
    | nil => rfl
    | cons g rest =>
      rw [hafter g rfl]
      rfl
  | .byte b :: rest => rfl
  | .char c :: rest =>
    have hrun := exponentRun_append hafter (.char c :: rest)
    rw [List.cons_append] at hrun ⊢
    rw [isDecimalPoint, isDecimalPoint, hrun]

theorem fractionRun_append (whole : Nat) (glyphs : List Glyph) :
    fractionRun whole (glyphs ++ after) = fractionRun whole glyphs := by
  match glyphs with
  | [] =>
    cases after with
    | nil => rfl
    | cons g rest =>
      rw [hafter g rfl]
      rfl
  | .byte b :: rest => rfl
  | .char c :: rest =>
    by_cases hc : c = '.'
    · rw [hc, List.cons_append, fractionRun, fractionRun, isDecimalPoint_append hafter,
        digitRun_append hafter rfl]
    · rw [List.cons_append, fractionRun, fractionRun]
      · exact fun _ h => hc (Glyph.char.inj (List.cons.inj h).1)
      · exact fun _ h => hc (Glyph.char.inj (List.cons.inj h).1)

theorem radixMark?_append (glyphs : List Glyph) :
    radixMark? (glyphs ++ after) = radixMark? glyphs := by
  match glyphs with
  | [] =>
    cases after with
    | nil => rfl
    | cons g rest =>
      rw [hafter g rfl]
      rfl
  | [g] =>
    cases after with
    | nil => rfl
    | cons g' rest =>
      have hnone : radixMark? [g] = none := by
        unfold radixMark?
        split <;> simp_all
      rw [hafter g' rfl, hnone]
      unfold radixMark?
      split
      · next c rest h =>
        obtain ⟨-, h⟩ := List.cons.inj h
        rw [← Glyph.char.inj (List.cons.inj h).1]
        rfl
      · rfl
  | g :: g' :: rest =>
    unfold radixMark?
    split <;> simp_all

theorem suffixKind?_append (b : Body) (glyphs : List Glyph) :
    suffixKind? b (glyphs ++ after) = suffixKind? b glyphs := by
  match glyphs with
  | [] =>
    cases after with
    | nil => rfl
    | cons g rest =>
      rw [hafter g rfl]
      rfl
  | g :: rest =>
    unfold suffixKind?
    split <;> simp_all

omit hafter in
theorem digitRun_le (radix : Nat) (glyphs : List Glyph) : digitRun radix glyphs ≤ glyphs.length :=
  (List.takeWhile_prefix _).length_le

omit hafter in
theorem fractionRun_le (whole : Nat) (glyphs : List Glyph) :
    fractionRun whole glyphs ≤ glyphs.length := by
  unfold fractionRun
  split
  · next rest =>
    have := digitRun_le 10 rest
    split
    · rw [List.length_cons]
      omega
    · exact Nat.zero_le _
  · exact Nat.zero_le _

omit hafter in
theorem exponentRun_le (glyphs : List Glyph) : exponentRun glyphs ≤ glyphs.length := by
  match glyphs with
  | [] => exact Nat.le_refl _
  | .byte b :: rest => exact Nat.zero_le _
  | [.char e] => simp [exponentRun]
  | .char e :: .byte b :: rest => simp [exponentRun]
  | .char e :: .char s :: rest =>
    have hshort := digitRun_le 10 rest
    have hlong := digitRun_le 10 (.char s :: rest)
    rw [List.length_cons] at hlong
    rw [exponentRun, List.length_cons, List.length_cons]
    repeat' split
    all_goals omega

omit hafter in
theorem radixMark?_length {glyphs : List Glyph} {radix : Nat} (h : radixMark? glyphs = some radix) :
    2 ≤ glyphs.length := by
  unfold radixMark? at h
  split at h
  · simp
  · cases h

theorem body_append (floatKind : Token.Kind) (glyphs : List Glyph) :
    body floatKind (glyphs ++ after) = body floatKind glyphs := by
  unfold body
  rw [radixMark?_append hafter]
  cases hradix : radixMark? glyphs with
  | some radix =>
    have hdigit : Text.digit? radix '\n' = none := rfl
    dsimp only
    rw [List.drop_append_of_le_length (radixMark?_length hradix), digitRun_append hafter hdigit,
      List.take_append_of_le_length (digitRun_le _ _)]
  | none =>
    have hwhole := digitRun_le 10 glyphs
    have hfraction := fractionRun_le (digitRun 10 glyphs) (glyphs.drop (digitRun 10 glyphs))
    rw [List.length_drop] at hfraction
    dsimp only
    rw [digitRun_append hafter rfl, List.drop_append_of_le_length hwhole,
      fractionRun_append hafter, List.drop_append_of_le_length (by omega),
      exponentRun_append hafter]

omit hafter in
theorem body_length_le (floatKind : Token.Kind) (glyphs : List Glyph) :
    (body floatKind glyphs).length ≤ glyphs.length := by
  unfold body
  cases hradix : radixMark? glyphs with
  | some radix =>
    have := radixMark?_length hradix
    simp only [List.length_take, List.length_drop]
    omega
  | none =>
    have hwhole := digitRun_le 10 glyphs
    have hfraction := fractionRun_le (digitRun 10 glyphs) (glyphs.drop (digitRun 10 glyphs))
    have hexponent := exponentRun_le (glyphs.drop (digitRun 10 glyphs +
      fractionRun (digitRun 10 glyphs) (glyphs.drop (digitRun 10 glyphs))))
    rw [List.length_drop] at hfraction hexponent
    dsimp only
    omega

end Number

/-! ### Marks and comments -/

namespace Cursor

variable (hafter : ∀ g ∈ after.head?, g = .char '\n')

include hafter

theorem mark?_append (glyphs : List Glyph) : mark? (glyphs ++ after) = mark? glyphs := by
  have hspelling : ∀ kind ∈ Token.Kind.marks, Glyph.char '\n' ∉ Glyph.ofText kind.spelling := by
    decide
  have hsame : ∀ kind ∈ Token.Kind.marks,
      (Glyph.startsWith (glyphs ++ after) kind.spelling &&
        !(kind = .nullishSelector && ((glyphs ++ after).drop 2).head?.any Glyph.isDecimalDigit)) =
      (Glyph.startsWith glyphs kind.spelling &&
        !(kind = .nullishSelector && (glyphs.drop 2).head?.any Glyph.isDecimalDigit)) := by
    intro kind hkind
    rw [Glyph.startsWith_append hafter (hspelling kind hkind)]
    by_cases hstarts : Glyph.startsWith glyphs kind.spelling = true
    · by_cases hnullish : kind = .nullishSelector
      · subst hnullish
        have hlength : 2 ≤ glyphs.length := Glyph.length_of_startsWith hstarts
        rw [List.drop_append_of_le_length hlength, Glyph.any_head?_append hafter rfl]
      · simp [hnullish]
    · rw [Bool.not_eq_true] at hstarts
      rw [hstarts, Bool.false_and, Bool.false_and]
  unfold mark?
  exact List.find?_congr hsame

theorem startsLineComment_append (glyphs : List Glyph) :
    startsLineComment (glyphs ++ after) = startsLineComment glyphs := by
  unfold startsLineComment
  rw [Glyph.startsWith_append hafter (by decide), Glyph.startsWith_append hafter (by decide)]

/-- A pragma line and its marker stand on one line. -/
theorem pragmaHead?_append (glyphs : List Glyph) :
    pragmaHead? (glyphs ++ after) = pragmaHead? glyphs := by
  cases glyphs with
  | nil =>
    cases after with
    | nil => rfl
    | cons g rest =>
      obtain rfl : g = .char '\n' := hafter g rfl
      rfl
  | cons g rest =>
    have hblanks : Glyph.countWhile Glyph.isTabOrSpace rest ≤ rest.length :=
      (List.takeWhile_prefix _).length_le
    rw [List.cons_append, pragmaHead?, pragmaHead?, Glyph.countWhile_append hafter rfl,
      List.drop_append_of_le_length hblanks, Glyph.startsWith_append hafter (by decide)]

theorem endsHere_append (glyphs : List Glyph) : endsHere (glyphs ++ after) = endsHere glyphs := by
  unfold endsHere
  rw [List.dropWhile_append]
  cases hglyphs : glyphs.dropWhile Glyph.isInlineSpace with
  | nil =>
    cases after with
    | nil => rfl
    | cons g rest =>
      rw [hafter g rfl]
      rfl
  | cons g rest =>
    dsimp only [List.isEmpty_cons]
    rw [if_neg Bool.false_ne_true, List.cons_append]
    dsimp only
    rw [← List.cons_append, startsLineComment_append hafter]

/-- A block comment that a line break behind the source would go on with ends its line anyway. -/
theorem commentEndsLine_append {glyphs : List Glyph} (h : Glyph.startsWith glyphs "/*" = true) :
    commentEndsLine (glyphs ++ after) = commentEndsLine glyphs := by
  have hlength : 2 ≤ glyphs.length := Glyph.length_of_startsWith h
  have hstop (g : Glyph) (rest : List Glyph) :
      Glyph.startsWith (g :: (rest ++ after)) "*/" = Glyph.startsWith (g :: rest) "*/" := by
    rw [← List.cons_append, Glyph.startsWith_append hafter (by decide)]
  generalize hbody : glyphs.drop 2 = body
  have huntil := Glyph.countUntil_append (Glyph.startsWith · "*/") hstop body
  have hle := Glyph.countUntil_le (Glyph.startsWith · "*/") body
  unfold commentEndsLine
  rw [startsLineComment_append hafter, List.drop_append_of_le_length hlength, hbody]
  dsimp only
  split
  · rfl
  have hdelimiter := Glyph.stop_countUntil (Glyph.startsWith · "*/") body
  generalize Glyph.countUntil (Glyph.startsWith · "*/") body = inside at huntil hle hdelimiter
  rw [huntil]
  by_cases hinside : inside < body.length
  · have htwo : inside + 2 ≤ body.length := by
      have hlength : 2 ≤ (body.drop inside).length :=
        Glyph.length_of_startsWith (hdelimiter hinside)
      rw [List.length_drop] at hlength
      omega
    have hne : ¬ inside = (body ++ after).length := by
      rw [List.length_append]
      omega
    rw [if_pos hinside, if_neg hne, if_neg (Nat.ne_of_lt hinside),
      List.take_append_of_le_length hle, List.drop_append_of_le_length htwo, endsHere_append hafter]
  · rw [if_neg hinside, if_pos (Nat.le_antisymm hle (Nat.le_of_not_lt hinside))]
    cases hrest : after with
    | nil => rw [List.append_nil, Glyph.countUntil, Nat.add_zero, if_pos rfl]
    | cons g rest =>
      have hg : g = .char '\n' := hafter g (by rw [hrest]; rfl)
      have hcount : Glyph.countUntil (Glyph.startsWith · "*/") (g :: rest) =
          Glyph.countUntil (Glyph.startsWith · "*/") rest + 1 := by
        rw [hg, Glyph.countUntil, if_neg (by simp [Glyph.startsWith, Glyph.ofText])]
      have hbreak : (body ++ g :: rest).take
          (body.length + Glyph.countUntil (Glyph.startsWith · "*/") (g :: rest)) =
          body ++ g :: rest.take (Glyph.countUntil (Glyph.startsWith · "*/") rest) := by
        rw [hcount, List.take_length_add_append, List.take_succ_cons]
      rw [hbreak, if_pos (c := List.contains _ _ = true) (by simp [hg]), ite_self]

end Cursor

end TemplateScript
