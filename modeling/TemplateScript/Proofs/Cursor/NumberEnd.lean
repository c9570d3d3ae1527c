import TemplateScript.Proofs.Cursor.Lookahead

/-!
# Where numbers end

A number is found alike if a blank or nothing stands behind it, whatever stood behind it before.
Digits end where the glyphs no longer go on with them, and no blank goes on with any. But to tell
the point of a fraction from a selector, and an exponent from a word, one must look further: a point
is taken for one of a fraction before a blank, and if it was none it is not part of the number.
-/

namespace TemplateScript

variable {word tail rest front back behind : List Glyph}

namespace Glyph

/-- A run that ends within a word ends there too if something else is behind the word. -/
theorem countWhile_cut {p : Glyph → Bool} (h : countWhile p (front ++ back) ≤ front.length)
    (hhead : ∀ g ∈ behind.head?, p g = false ∨ back.head? = some g) :
    countWhile p (front ++ behind) = countWhile p (front ++ back) := by
  induction front with
  | nil =>
    have hback : countWhile p back = 0 := Nat.le_zero.1 h
    rw [List.nil_append, List.nil_append, hback]
    cases behind with
    | nil => rfl
    | cons g more =>
      rcases hhead g rfl with hg | hg
      · rw [countWhile, List.takeWhile_cons_of_neg (by simp [hg])]
        rfl
      · obtain ⟨more', rfl⟩ := List.head?_eq_some_iff.1 hg
        rw [countWhile] at hback ⊢
        by_cases hp : p g = true
        · rw [List.takeWhile_cons_of_pos hp] at hback
          cases hback
        · rw [List.takeWhile_cons_of_neg hp]
          rfl
  | cons g front ih =>
    rw [List.cons_append, List.cons_append]
    rw [List.cons_append] at h
    unfold countWhile at h ih ⊢
    by_cases hp : p g = true
    · rw [List.takeWhile_cons_of_pos hp] at h ⊢
      rw [List.takeWhile_cons_of_pos hp, List.length_cons, List.length_cons,
        ih (Nat.le_of_succ_le_succ h)]
    · rw [List.takeWhile_cons_of_neg hp, List.takeWhile_cons_of_neg hp]

theorem head_of_countWhile {p : Glyph → Bool} {g : Glyph} {glyphs : List Glyph}
    (h : 0 < countWhile p (g :: glyphs)) : p g = true := by
  by_contra hg
  rw [countWhile, List.takeWhile_cons_of_neg hg] at h
  cases h

/-- A count that stops at some glyphs within a word stops there too if something else is behind the
word. -/
theorem countUntil_cut {stop : List Glyph → Bool} {size : Nat} (hsize : 0 < size)
    (hstop : ∀ word : List Glyph, size ≤ word.length → ∀ more more',
      stop (word ++ more) = stop (word ++ more'))
    (h : countUntil stop (word ++ tail) + size ≤ word.length) :
    countUntil stop (word ++ rest) = countUntil stop (word ++ tail) := by
  induction word with
  | nil =>
    rw [List.length_nil] at h
    omega
  | cons g word ih =>
    have hlong : size ≤ (g :: word).length := Nat.le_trans (Nat.le_add_left ..) h
    have hsame := hstop (g :: word) hlong rest tail
    rw [List.cons_append, List.cons_append] at hsame ⊢
    rw [List.cons_append, countUntil] at h
    rw [countUntil, countUntil, hsame]
    split
    · rfl
    · next hnone =>
      rw [if_neg hnone, List.length_cons] at h
      rw [ih (by omega)]

theorem isPrefixOf_cut {fence : List Glyph} (h : fence.length ≤ word.length) :
    fence.isPrefixOf (word ++ rest) = fence.isPrefixOf word := by
  induction fence generalizing word with
  | nil => rfl
  | cons g fence ih =>
    cases word with
    | nil => cases h
    | cons g' word =>
      rw [List.cons_append, List.isPrefixOf_cons_cons, List.isPrefixOf_cons_cons,
        ih (Nat.le_of_succ_le_succ h)]

end Glyph

/-! ### Numbers -/

namespace Number

/-- What may stand behind a number where something else did: a blank, nothing, or the last letter of
the number, which was there before. -/
def Follows (back behind : List Glyph) : Prop :=
  ∀ g ∈ behind.head?, (g = .char ' ' ∨ g = .char '\n') ∨
    ((g = .char 'd' ∨ g = .char 'u') ∧ back.head? = some g)

/-- Where a glyph stands before what follows, nothing that looks at one glyph changes. -/
theorem Follows.append (h : Follows back behind) (front : List Glyph) :
    ∀ g ∈ (front ++ behind).head?, (g = .char ' ' ∨ g = .char '\n') ∨
      (front ++ back).head? = some g := by
  intro g hg
  cases front with
  | nil => exact (h g hg).imp_right And.right
  | cons g' front => exact .inr hg

theorem digitRun_cut {radix : Nat} {digits : List Glyph}
    (h : ∀ g ∈ behind.head?, (g = .char ' ' ∨ g = .char '\n') ∨ back.head? = some g)
    (hdigits : digitRun radix (digits ++ back) = digits.length) :
    digitRun radix (digits ++ behind) = digits.length := by
  refine (Glyph.countWhile_cut (Nat.le_of_eq hdigits) fun g hg => ?_).trans hdigits
  rcases h g hg with (rfl | rfl) | hsame
  · exact .inl rfl
  · exact .inl rfl
  · exact .inr hsame

theorem head_of_startsWithDigit {glyphs : List Glyph} (h : startsWithDigit glyphs = true) :
    ∃ d more, glyphs = .char d :: more ∧ d.isDigit = true := by
  obtain ⟨g, hg, hdigit⟩ := (Option.any_eq_true _ _).1 h
  obtain ⟨more, rfl⟩ := List.head?_eq_some_iff.1 hg
  cases g with
  | byte b => cases hdigit
  | char d => exact ⟨d, more, rfl, hdigit⟩

/-- A run of digits is read alike before what follows. -/
theorem Follows.digitRun_eq (h : Follows back behind) {radix : Nat} {digits : List Glyph}
    (hdigits : digitRun radix (digits ++ back) = digits.length) :
    digitRun radix (digits ++ behind) = digits.length :=
  digitRun_cut (h.append []) hdigits

/-- An exponent has a mark, at most one sign and a digit. -/
inductive Exponent : List Glyph → Nat → Prop
  | unsigned {e : Char} {digits : List Glyph} (he : e = 'e' ∨ e = 'E')
    (hdigits : startsWithDigit digits = true) :
    Exponent (.char e :: digits) (1 + digitRun 10 digits)
  | signed {e s : Char} {digits : List Glyph} (he : e = 'e' ∨ e = 'E') (hs : s = '+' ∨ s = '-')
    (hdigits : startsWithDigit digits = true) :
    Exponent (.char e :: .char s :: digits) (2 + digitRun 10 digits)

theorem exponent_of_pos {glyphs : List Glyph} (h : 0 < exponentRun glyphs) :
    Exponent glyphs (exponentRun glyphs) := by
  unfold exponentRun at h ⊢
  split at h
  · next e rest =>
    split at h
    · cases h
    · next he =>
      have he : e = 'e' ∨ e = 'E' := by
        by_contra hnone
        exact he (not_or.1 hnone)
      rw [if_neg (by simp [← not_or, he])]
      split at h
      · next s rest' =>
        split at h
        · next hs =>
          rw [if_pos hs]
          split at h
          · next hdigits =>
            rw [if_pos hdigits]
            exact .signed he hs hdigits
          · cases h
        · next hs =>
          rw [if_neg hs]
          split at h
          · next hdigits =>
            rw [if_pos hdigits]
            exact .unsigned he hdigits
          · cases h
      · cases h
  · cases h

theorem Exponent.run_eq {glyphs : List Glyph} {size : Nat} (h : Exponent glyphs size) :
    exponentRun glyphs = size := by
  cases h with
  | @unsigned e digits he hdigits =>
    obtain ⟨d, more, rfl, hd⟩ := head_of_startsWithDigit hdigits
    have hs : ¬ (d = '+' ∨ d = '-') := by
      rintro (rfl | rfl) <;> cases hd
    rw [exponentRun, if_neg (by simp [← not_or, he]), if_neg hs, if_pos hdigits]
  | signed he hs hdigits =>
    rw [exponentRun, if_neg (by simp [← not_or, he]), if_pos hs, if_pos hdigits]

/-- Digits that reach up to what is behind them are there. -/
theorem startsWithDigit_cut {digits : List Glyph}
    (hstarts : startsWithDigit (digits ++ back) = true)
    (hdigits : digitRun 10 (digits ++ back) = digits.length) :
    startsWithDigit (digits ++ behind) = true := by
  cases digits with
  | nil =>
    have hpos := Cursor.digitRun_pos hstarts
    rw [hdigits] at hpos
    cases hpos
  | cons g digits => exact hstarts

/-- An exponent is read alike before what follows. -/
theorem Follows.exponentRun_eq (h : Follows back behind) {exponent : List Glyph}
    (hexponent : exponentRun (exponent ++ back) = exponent.length) :
    exponentRun (exponent ++ behind) = exponent.length := by
  cases exponent with
  | nil =>
    cases behind with
    | nil => rfl
    | cons g more => rcases h g rfl with (rfl | rfl) | ⟨rfl | rfl, -⟩ <;> rfl
  | cons g digits =>
    rw [List.cons_append] at hexponent
    have hpos : 0 < exponentRun (g :: (digits ++ back)) := by
      rw [hexponent, List.length_cons]
      exact Nat.succ_pos _
    have hread := exponent_of_pos hpos
    rw [hexponent] at hread
    generalize hsize : (g :: digits).length = size at hread
    generalize hglyphs : g :: (digits ++ back) = glyphs at hread
    cases hread with
    | @unsigned e digits' he hstarts =>
      obtain ⟨rfl, rfl⟩ := List.cons.inj hglyphs
      have hlength : digitRun 10 (digits ++ back) = digits.length := by
        rw [List.length_cons] at hsize
        omega
      rw [← hsize, List.cons_append,
        (Exponent.unsigned he (startsWithDigit_cut hstarts hlength)).run_eq, h.digitRun_eq hlength,
        List.length_cons, Nat.add_comm]
    | @signed e s digits' he hs hstarts =>
      cases digits with
      | nil =>
        rw [List.length_singleton] at hsize
        omega
      | cons g' digits =>
        rw [List.cons_append] at hglyphs
        obtain ⟨rfl, hmore⟩ := List.cons.inj hglyphs
        obtain ⟨rfl, rfl⟩ := List.cons.inj hmore
        have hlength : digitRun 10 (digits ++ back) = digits.length := by
          rw [List.length_cons, List.length_cons] at hsize
          omega
        rw [← hsize, List.cons_append, List.cons_append,
          (Exponent.signed he hs (startsWithDigit_cut hstarts hlength)).run_eq,
          h.digitRun_eq hlength, List.length_cons, List.length_cons, Nat.add_comm]

theorem Exponent.head {glyphs : List Glyph} {size : Nat} (h : Exponent glyphs size) :
    ∃ e more, glyphs = .char e :: more ∧ (e = 'e' ∨ e = 'E') := by
  cases h with
  | unsigned he => exact ⟨_, _, rfl, he⟩
  | signed he => exact ⟨_, _, rfl, he⟩

/-- Before an exponent, a point is a decimal point. -/
theorem Exponent.isDecimalPoint {glyphs : List Glyph} {size : Nat} (h : Exponent glyphs size)
    (hsize : 0 < size) : isDecimalPoint glyphs = true := by
  have hrun := h.run_eq
  obtain ⟨e, more, rfl, he⟩ := h.head
  have hdigit : ¬ e.isDigit = true := by
    rcases he with rfl | rfl <;> decide
  rw [Number.isDecimalPoint, if_neg hdigit, if_pos he, hrun, decide_eq_true hsize]

/-- Whether a point is a decimal point before digits is told by the first of them. -/
theorem isDecimalPoint_digit {g : Glyph} (hg : (g = .char '_' || g.isDigitOf 10) = true)
    (glyphs more : List Glyph) : isDecimalPoint (g :: glyphs) = isDecimalPoint (g :: more) := by
  cases g with
  | byte b => rfl
  | char d =>
    have he : ¬ (d = 'e' ∨ d = 'E') := by
      rintro (rfl | rfl) <;> cases hg
    rw [isDecimalPoint, isDecimalPoint, if_neg he, if_neg he]

theorem point_of_fractionRun {whole : Nat} {g : Glyph} {glyphs : List Glyph}
    (h : 0 < fractionRun whole (g :: glyphs)) :
    g = .char '.' ∧ (whole = 0 ∨ isDecimalPoint glyphs = true) ∧
      fractionRun whole (g :: glyphs) = 1 + digitRun 10 glyphs := by
  unfold fractionRun at h ⊢
  split at h
  · next rest heq =>
    obtain ⟨rfl, rfl⟩ := List.cons.inj heq
    split at h
    · next hpoint => exact ⟨rfl, hpoint, if_pos hpoint⟩
    · cases h
  · cases h

/-- A point is a decimal point before what follows, if it was one before. -/
theorem Follows.isDecimalPoint (h : Follows back behind)
    (hpoint : Number.isDecimalPoint back = true) : Number.isDecimalPoint behind = true := by
  cases behind with
  | nil => rfl
  | cons g more =>
    rcases h g rfl with (rfl | rfl) | ⟨hg, hback⟩
    · rfl
    · rfl
    · obtain ⟨more', rfl⟩ := List.head?_eq_some_iff.1 hback
      rcases hg with rfl | rfl <;> cases hpoint

/-- A fraction is read alike before what follows, and before an exponent that does. -/
theorem Follows.fractionRun_eq (h : Follows back behind) {whole : Nat}
    {fraction exponent : List Glyph}
    (hfraction : fractionRun whole (fraction ++ (exponent ++ back)) = fraction.length)
    (hexponent : exponentRun (exponent ++ back) = exponent.length) :
    fractionRun whole (fraction ++ (exponent ++ behind)) = fraction.length := by
  have hnext := h.exponentRun_eq hexponent
  have hread (hne : exponent ≠ []) : Exponent (exponent ++ behind) exponent.length := by
    have hread := exponent_of_pos (hnext.symm ▸ List.length_pos_iff.2 hne)
    rwa [hnext] at hread
  cases fraction with
  | nil =>
    cases exponent with
    | nil =>
      cases behind with
      | nil => rfl
      | cons g more => rcases h g rfl with (rfl | rfl) | ⟨rfl | rfl, -⟩ <;> rfl
    | cons g exponent =>
      obtain ⟨e, more, hglyphs, he⟩ := (hread (List.cons_ne_nil g exponent)).head
      rw [List.nil_append, hglyphs]
      rcases he with rfl | rfl <;> rfl
  | cons g digits =>
    rw [List.cons_append] at hfraction
    have hpos : 0 < fractionRun whole (g :: (digits ++ (exponent ++ back))) := by
      rw [hfraction, List.length_cons]
      exact Nat.succ_pos _
    obtain ⟨rfl, hpoint, hrun⟩ := point_of_fractionRun hpos
    have hdigits : digitRun 10 (digits ++ (exponent ++ back)) = digits.length := by
      rw [hfraction, List.length_cons] at hrun
      omega
    have hpoint : whole = 0 ∨ Number.isDecimalPoint (digits ++ (exponent ++ behind)) = true := by
      refine hpoint.imp_right fun hpoint => ?_
      cases digits with
      | nil =>
        cases exponent with
        | nil => exact h.isDecimalPoint hpoint
        | cons g exponent =>
          exact (hread (List.cons_ne_nil g exponent)).isDecimalPoint (Nat.succ_pos _)
      | cons d digits =>
        have hpos : 0 < digitRun 10 (d :: digits ++ (exponent ++ back)) := by
          rw [hdigits, List.length_cons]
          exact Nat.succ_pos _
        exact (isDecimalPoint_digit (Glyph.head_of_countWhile hpos) _ _).trans hpoint
    rw [List.cons_append, fractionRun, if_pos hpoint, digitRun_cut (h.append exponent) hdigits,
      List.length_cons, Nat.add_comm]

theorem radixMark?_some {glyphs : List Glyph} {radix : Nat} (h : radixMark? glyphs = some radix) :
    ∃ c digits, glyphs = .char '0' :: .char c :: digits ∧ radix? c = some radix := by
  unfold radixMark? at h
  split at h
  · next c digits => exact ⟨c, digits, rfl, h⟩
  · cases h

theorem body_prefixed (floatKind : Token.Kind) {c : Char} {radix : Nat} (hc : radix? c = some radix)
    (digits : List Glyph) :
    body floatKind (.char '0' :: .char c :: digits) =
      ⟨2 + digitRun radix digits, .int, true,
        (digits.take (digitRun radix digits)).any (·.isDigitOf radix)⟩ := by
  have hmark : radixMark? (.char '0' :: .char c :: digits) = some radix := hc
  have hle : digitRun radix digits ≤ digits.length := (List.takeWhile_prefix _).length_le
  rw [body, hmark]
  dsimp only
  rw [List.drop_succ_cons, List.drop_succ_cons, List.drop_zero, List.length_take,
    Nat.min_eq_left hle]

/-- No mark of a radix comes about. -/
theorem Follows.radixMark?_eq (h : Follows back behind)
    (hnone : radixMark? (front ++ back) = none) : radixMark? (front ++ behind) = none := by
  refine Option.eq_none_iff_forall_ne_some.2 fun radix hmark => ?_
  obtain ⟨c, digits, hglyphs, hc⟩ := radixMark?_some hmark
  match front with
  | [] =>
    rw [List.nil_append] at hglyphs
    rw [hglyphs] at h
    rcases h _ rfl with (h | h) | ⟨h | h, -⟩ <;> cases h
  | [g] =>
    rw [List.cons_append, List.nil_append] at hglyphs
    rw [(List.cons.inj hglyphs).2] at h
    rcases h _ rfl with (h | h) | ⟨h | h, -⟩ <;>
      · obtain rfl := Glyph.char.inj h
        cases hc
  | g :: g' :: front =>
    obtain ⟨rfl, hmore⟩ := List.cons.inj hglyphs
    obtain ⟨rfl, -⟩ := List.cons.inj hmore
    have hsame : none = some radix := hnone.symm.trans hc
    cases hsame

theorem body_decimal (floatKind : Token.Kind) {whole fraction exponent : List Glyph}
    (hmark : radixMark? (whole ++ (fraction ++ (exponent ++ back))) = none)
    (hwhole : digitRun 10 (whole ++ (fraction ++ (exponent ++ back))) = whole.length)
    (hfraction : fractionRun whole.length (fraction ++ (exponent ++ back)) = fraction.length)
    (hexponent : exponentRun (exponent ++ back) = exponent.length) :
    body floatKind (whole ++ (fraction ++ (exponent ++ back))) =
      ⟨whole.length + fraction.length + exponent.length,
        if fraction.length + exponent.length = 0 then .int else floatKind, false, true⟩ := by
  rw [body, hmark]
  dsimp only
  rw [hwhole, List.drop_left, hfraction, ← List.drop_drop, List.drop_left, List.drop_left,
    hexponent]

/-- A decimal number has digits, a fraction and an exponent, of which some may be missing. -/
theorem exists_decimal (glyphs : List Glyph) : ∃ whole fraction exponent back,
    glyphs = whole ++ (fraction ++ (exponent ++ back)) ∧
      digitRun 10 (whole ++ (fraction ++ (exponent ++ back))) = whole.length ∧
      fractionRun whole.length (fraction ++ (exponent ++ back)) = fraction.length ∧
      exponentRun (exponent ++ back) = exponent.length := by
  let whole := glyphs.take (digitRun 10 glyphs)
  let left := glyphs.drop (digitRun 10 glyphs)
  let fraction := left.take (fractionRun whole.length left)
  let last := left.drop (fractionRun whole.length left)
  have hexponent : last.take (exponentRun last) ++ last.drop (exponentRun last) = last :=
    List.take_append_drop ..
  have hfraction : fraction ++ last = left := List.take_append_drop ..
  have hwhole : whole ++ left = glyphs := List.take_append_drop ..
  refine ⟨whole, fraction, last.take (exponentRun last), last.drop (exponentRun last), ?_, ?_, ?_,
    ?_⟩
  · rw [hexponent, hfraction, hwhole]
  · rw [hexponent, hfraction, hwhole]
    exact (List.length_take_of_le (digitRun_le 10 glyphs)).symm
  · rw [hexponent, hfraction]
    exact (List.length_take_of_le (fractionRun_le whole.length left)).symm
  · rw [hexponent]
    exact (List.length_take_of_le (exponentRun_le last)).symm

/-- A number is read alike before what follows. -/
theorem Follows.body_eq (h : Follows back behind) (floatKind : Token.Kind)
    (hbody : (body floatKind (front ++ back)).length = front.length) :
    body floatKind (front ++ behind) = body floatKind (front ++ back) := by
  cases hmark : radixMark? (front ++ back) with
  | some radix =>
    obtain ⟨c, digits, hglyphs, hc⟩ := radixMark?_some hmark
    rw [hglyphs, body_prefixed floatKind hc] at hbody
    dsimp only at hbody
    match front with
    | [] =>
      rw [List.length_nil] at hbody
      omega
    | [g] =>
      rw [List.length_singleton] at hbody
      omega
    | g :: g' :: front =>
      obtain ⟨rfl, hmore⟩ := List.cons.inj hglyphs
      obtain ⟨rfl, hdigits⟩ := List.cons.inj hmore
      change front ++ back = digits at hdigits
      subst hdigits
      have hrun : digitRun radix (front ++ back) = front.length := by
        rw [List.length_cons, List.length_cons] at hbody
        omega
      rw [List.cons_append, List.cons_append, List.cons_append, List.cons_append,
        body_prefixed floatKind hc, body_prefixed floatKind hc, h.digitRun_eq hrun, hrun,
        List.take_left,
        List.take_left]
  | none =>
    obtain ⟨whole, fraction, exponent, back', hglyphs, hwhole, hfraction, hexponent⟩ :=
      exists_decimal (front ++ back)
    have hnone := h.radixMark?_eq hmark
    rw [hglyphs] at hmark
    have hread := body_decimal floatKind hmark hwhole hfraction hexponent
    rw [hglyphs, hread] at hbody
    have hsplit : front ++ back = (whole ++ (fraction ++ exponent)) ++ back' := by
      rw [hglyphs]
      simp
    obtain ⟨rfl, rfl⟩ := List.append_inj hsplit (by simp [← hbody, Nat.add_assoc])
    have hagain : (whole ++ (fraction ++ exponent)) ++ behind =
        whole ++ (fraction ++ (exponent ++ behind)) := by simp
    rw [hagain] at hnone ⊢
    rw [hglyphs, hread]
    refine body_decimal floatKind hnone ?_ (h.fractionRun_eq hfraction hexponent)
      (h.exponentRun_eq hexponent)
    have happend := h.append (fraction ++ exponent)
    rw [List.append_assoc, List.append_assoc] at happend
    exact digitRun_cut happend hwhole

/-- The last letter of a number is told by one glyph. -/
theorem suffixKind?_cons {b : Body} {kind : Token.Kind} {glyphs : List Glyph}
    (h : suffixKind? b glyphs = some kind) : ∃ g more, glyphs = g :: more ∧
      (g = .char 'd' ∨ g = .char 'u') ∧ ∀ more', suffixKind? b (g :: more') = some kind := by
  unfold suffixKind? at h
  split at h
  · exact ⟨_, _, rfl, .inl rfl, fun _ => h⟩
  · exact ⟨_, _, rfl, .inr rfl, fun _ => h⟩
  · cases h

end Number

end TemplateScript
