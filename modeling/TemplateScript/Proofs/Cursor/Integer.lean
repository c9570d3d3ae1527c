import TemplateScript.Proofs.Operation.Tokens

/-!
# Integers in a source

An integer is a run of digits with underscores among them, in base ten or behind the mark of a
radix, and a letter behind it may make it unsigned. Before a blank or a mark it is one
token, whatever its digits are: no digit of base sixteen is taken for a last letter, and no mark of a
radix for a digit.
-/

namespace TemplateScript

/-- The text is an integer: it begins with a digit, and digits and underscores are all of it, or all
behind the mark of a radix and at least one of them a digit. -/
def isNumeral (text : String) : Bool :=
  text.toList.head?.any Char.isDigit &&
    match Number.radixMark? (Glyph.ofText text) with
    | some radix =>
      (text.toList.drop 2).all (fun ch => ch = '_' || Text.isDigit radix ch) &&
        (text.toList.drop 2).any (Text.isDigit radix)
    | none => text.toList.all fun ch => ch = '_' || Text.isDigit 10 ch

/-- A text that is read as an integer. -/
structure Numeral where
  text : String
  isWritten : isNumeral text = true

/-- The kind of integers, with a last letter or without. -/
def integerKind (isUnsigned : Bool) : Token.Kind := if isUnsigned then .uint else .int

/-- The last letter of an integer. -/
def integerSuffix (isUnsigned : Bool) : String := if isUnsigned then "u" else ""

/-- The literal of an integer, with a last letter or without. -/
def Numeral.literal (n : Numeral) (isUnsigned : Bool) : String := n.text ++ integerSuffix isUnsigned

namespace Numeral

theorem glyphs_literal (n : Numeral) (isUnsigned : Bool) (rest : List Glyph) :
    Glyph.ofText (n.literal isUnsigned) ++ rest =
      Glyph.ofText n.text ++ (Glyph.ofText (integerSuffix isUnsigned) ++ rest) := by
  rw [literal, Glyph.ofText_append, List.append_assoc]

theorem literal_signed (n : Numeral) : n.literal false = n.text := String.append_empty ..

/-- An integer begins with a digit. -/
theorem exists_digit (n : Numeral) : ∃ ch chars, n.text.toList = ch :: chars ∧
    ch.isDigit = true := by
  obtain ⟨ch, hch, hdigit⟩ :=
    (Option.any_eq_true _ _).1 (Bool.and_eq_true_iff.1 n.isWritten).1
  obtain ⟨chars, hchars⟩ := List.head?_eq_some_iff.1 hch
  exact ⟨ch, chars, hchars, hdigit⟩

end Numeral

/-- No digit is a letter. -/
theorem Glyph.isLetter_of_isDigit {ch : Char} (h : ch.isDigit = true) :
    (Glyph.char ch).isLetter = false := by
  simp only [Char.isDigit, Bool.and_eq_true, decide_eq_true_eq, ge_iff_le,
    UInt32.le_iff_toNat_le] at h
  have hrange : 48 ≤ ch.toNat ∧ ch.toNat ≤ 57 := h
  have hline : ch ≠ '_' := by
    rintro rfl
    exact absurd hrange (by decide)
  have halpha : ch.isAlpha = false := by
    change (decide (65 ≤ ch.val ∧ ch.val ≤ 90) ||
      (decide (97 ≤ ch.val) && decide (ch.val ≤ 122))) = false
    simp only [Bool.or_eq_false_iff, Bool.and_eq_false_iff, decide_eq_false_iff_not,
      UInt32.le_iff_toNat_le]
    change ¬ (65 ≤ ch.toNat ∧ ch.toNat ≤ 90) ∧ (¬ 97 ≤ ch.toNat ∨ ¬ ch.toNat ≤ 122)
    omega
  rw [isLetter, Text.isAlphabetic, if_pos (by omega), halpha, decide_eq_false hline]
  rfl

namespace Cursor

variable {c : Cursor} {options : ScanOptions} {pending : Bool} {rest : List Glyph} {n : Nat}

/-- A word or a number that stands before the glyphs ends there. -/
def EndsWord (rest : List Glyph) : Prop := ∀ g ∈ rest.head?, g = .char ' ' ∨ g = .char '\n'

theorem EndsWord.isLetter_eq (h : EndsWord rest) :
    ∀ g ∈ rest.head?, (g.isLetter || g.isDigit) = false := by
  intro g hg
  rcases h g hg with rfl | rfl <;> decide

/-- What may stand behind a number besides nothing. -/
def numberEnds : List Glyph := [' ', '\n', ';', ',', ':', '[', ')', ']', '\x7d'].map .char

/-- A number that stands before the glyphs ends there. -/
def EndsNumber (rest : List Glyph) : Prop := ∀ g ∈ rest.head?, g ∈ numberEnds

theorem EndsWord.endsNumber (h : EndsWord rest) : EndsNumber rest := by
  intro g hg
  rcases h g hg with rfl | rfl <;> decide

/-- A word ends wherever a number may. -/
theorem EndsNumber.isLetter_eq (h : EndsNumber rest) :
    ∀ g ∈ rest.head?, (g.isLetter || g.isDigit) = false := by
  have hends : ∀ g ∈ numberEnds, (g.isLetter || g.isDigit) = false := by decide
  exact fun g hg => hends g (h g hg)

/-- The digits of a number that stand before the glyphs end there. -/
def EndsDigits (rest : List Glyph) : Prop := ∀ g ∈ rest.head?, g ∈ .char 'u' :: numberEnds

theorem EndsNumber.endsDigits (h : EndsNumber rest) : EndsDigits rest :=
  fun g hg => List.mem_cons_of_mem _ (h g hg)

/-- A run of glyphs ends where they no longer go on with it. -/
theorem takeWhile_run {p : Glyph → Bool} {run : List Glyph} (hrun : ∀ g ∈ run, p g = true)
    (hend : ∀ g ∈ rest.head?, p g = false) : (run ++ rest).takeWhile p = run := by
  have hnone : rest.takeWhile p = [] := by
    cases rest with
    | nil => rfl
    | cons g more => exact List.takeWhile_cons_of_neg (by simp [hend g rfl])
  rw [List.takeWhile_append_of_pos hrun, hnone, List.append_nil]

theorem radixMark?_cons (a b : Char) (glyphs : List Glyph) :
    Number.radixMark? (.char a :: .char b :: glyphs) =
      if a = '0' then Number.radix? b else none := by
  split
  · next hzero =>
    rw [hzero]
    rfl
  · next hzero =>
    unfold Number.radixMark?
    split
    · next heq =>
      cases heq
      exact absurd rfl hzero
    · rfl

theorem radixMark?_singleton (ch : Char) : Number.radixMark? [.char ch] = none := by
  unfold Number.radixMark?
  split
  · next heq => cases heq
  · rfl

/-- The glyph goes on with no digits, marks no radix, and begins no fraction and no exponent. -/
structure StopsDigits (g : Glyph) : Prop where
  isDigit_eq : ∀ radix, (g = .char '_' || g.isDigitOf radix) = false
  radixMark?_head : ∀ more, Number.radixMark? (g :: more) = none
  radixMark?_behind : ∀ ch more, Number.radixMark? (.char ch :: g :: more) = none
  fractionRun_eq : ∀ whole more, Number.fractionRun whole (g :: more) = 0
  exponentRun_eq : ∀ more, Number.exponentRun (g :: more) = 0

theorem EndsDigits.stops (h : EndsDigits rest) {g : Glyph} (hg : g ∈ rest.head?) :
    StopsDigits g := by
  have hend := h g hg
  simp only [numberEnds, List.map_cons, List.map_nil, List.mem_cons, List.not_mem_nil,
    or_false] at hend
  have hmark {b : Char} (hb : Number.radix? b = none) (ch : Char) (more : List Glyph) :
      Number.radixMark? (.char ch :: .char b :: more) = none := by
    rw [radixMark?_cons, hb, ite_self]
  rcases hend with rfl | rfl | rfl | rfl | rfl | rfl | rfl | rfl | rfl | rfl <;>
    exact ⟨fun _ => rfl, fun _ => rfl, hmark rfl, fun _ _ => rfl, fun _ => rfl⟩

theorem EndsDigits.digitRun_eq (h : EndsDigits rest) {radix : Nat} {digits : List Char}
    (hdigits : ∀ ch ∈ digits, (ch = '_' || Text.isDigit radix ch) = true) :
    Number.digitRun radix (digits.map .char ++ rest) = digits.length := by
  have hrun : ∀ g ∈ digits.map Glyph.char, (g = .char '_' || g.isDigitOf radix) = true := by
    intro g hg
    obtain ⟨ch, hch, rfl⟩ := List.mem_map.1 hg
    simpa [Glyph.isDigitOf] using hdigits ch hch
  have hend : ∀ g ∈ rest.head?, (g = .char '_' || g.isDigitOf radix) = false :=
    fun g hg => (h.stops hg).isDigit_eq radix
  rw [Number.digitRun, Glyph.countWhile, takeWhile_run hrun hend, List.length_map]

theorem EndsDigits.radixMark?_append (h : EndsDigits rest) (chars : List Char) :
    Number.radixMark? (chars.map .char ++ rest) = Number.radixMark? (chars.map .char) := by
  match chars with
  | [] =>
    cases rest with
    | nil => rfl
    | cons g more => exact (h.stops rfl).radixMark?_head more
  | [ch] =>
    cases rest with
    | nil => rw [List.append_nil]
    | cons g more =>
      exact ((h.stops rfl).radixMark?_behind ch more).trans (radixMark?_singleton ch).symm
  | first :: second :: digits => exact (radixMark?_cons ..).trans (radixMark?_cons ..).symm

/-- An integer is read up to where it ends. -/
theorem EndsDigits.body_eq (h : EndsDigits rest) (floatKind : Token.Kind) (n : Numeral) :
    ∃ isPrefixed, Number.body floatKind (Glyph.ofText n.text ++ rest) =
      ⟨(Glyph.ofText n.text).length, .int, isPrefixed, true⟩ := by
  have hwritten := (Bool.and_eq_true_iff.1 n.isWritten).2
  unfold Glyph.ofText at hwritten ⊢
  generalize n.text.toList = chars at hwritten ⊢
  rw [Number.body, h.radixMark?_append]
  cases hmark : Number.radixMark? (chars.map .char) with
  | some radix =>
    rw [hmark] at hwritten
    obtain ⟨hall, hany⟩ := Bool.and_eq_true_iff.1 hwritten
    have hlength : 2 ≤ chars.length := by
      unfold Number.radixMark? at hmark
      split at hmark
      · next heq =>
        rw [← List.length_map (f := Glyph.char), heq]
        exact Nat.le_add_left _ _
      · cases hmark
    have hdrop : (chars.map Glyph.char ++ rest).drop 2 = (chars.drop 2).map .char ++ rest := by
      rw [List.drop_append_of_le_length (by rwa [List.length_map]), List.map_drop]
    have htake : ((chars.drop 2).map Glyph.char ++ rest).take (chars.drop 2).length =
        (chars.drop 2).map .char :=
      List.take_left' (List.length_map _)
    have hdigits : ((chars.drop 2).map Glyph.char).any (·.isDigitOf radix) = true := by
      rw [List.any_map]
      exact hany
    dsimp only
    rw [hdrop, h.digitRun_eq (List.all_eq_true.1 hall), htake, hdigits, List.length_map,
      List.length_map, List.length_drop, Nat.add_sub_cancel' hlength]
    exact ⟨true, rfl⟩
  | none =>
    rw [hmark] at hwritten
    have hdrop : (chars.map Glyph.char ++ rest).drop chars.length = rest :=
      List.drop_left' (List.length_map _)
    have hends : Number.fractionRun chars.length rest = 0 ∧ Number.exponentRun rest = 0 := by
      cases rest with
      | nil => exact ⟨rfl, rfl⟩
      | cons g more =>
        exact ⟨(h.stops rfl).fractionRun_eq _ more, (h.stops rfl).exponentRun_eq more⟩
    dsimp only
    rw [h.digitRun_eq (List.all_eq_true.1 hwritten), hdrop, hends.1, Nat.add_zero, hdrop, hends.2,
      List.length_map]
    exact ⟨false, rfl⟩

/-- The digits of an integer end before its last letter, or before what ends the integer. -/
theorem EndsNumber.endsDigits_suffix (h : EndsNumber rest) (isUnsigned : Bool) :
    EndsDigits (Glyph.ofText (integerSuffix isUnsigned) ++ rest) := by
  cases isUnsigned with
  | false => exact h.endsDigits
  | true =>
    rintro g ⟨⟩
    exact List.mem_cons_self

theorem EndsNumber.suffixKind?_eq (h : EndsNumber rest) (b : Number.Body) :
    Number.suffixKind? b rest = none := by
  cases rest with
  | nil => rfl
  | cons g more =>
    have hg := h g rfl
    simp only [numberEnds, List.map_cons, List.map_nil, List.mem_cons, List.not_mem_nil,
      or_false] at hg
    rcases hg with rfl | rfl | rfl | rfl | rfl | rfl | rfl | rfl | rfl <;> rfl

theorem EndsNumber.wordRun_eq (h : EndsNumber rest) : wordRun rest = 0 := by
  have hrun : rest.takeWhile (fun g => g.isLetter || g.isDigit) = [] :=
    takeWhile_run (List.forall_mem_nil _) h.isLetter_eq
  rw [wordRun, Glyph.countWhile, hrun, List.length_nil]

/-- An integer that ends where the glyphs no longer go on with it is one lexeme. -/
theorem lexeme_integer (n : Numeral) (isUnsigned : Bool)
    (hrest : c.rest = Glyph.ofText (n.literal isUnsigned) ++ rest) (hend : EndsNumber rest)
    (g : Glyph) :
    c.lexeme g = c.closing (c.advanceBy (Glyph.ofText (n.literal isUnsigned)).length,
      (⟨integerKind isUnsigned, n.literal isUnsigned⟩ : Token.Face).placed c.offset) := by
  have hsplit := hrest.trans (n.glyphs_literal isUnsigned rest)
  obtain ⟨isPrefixed, hbody⟩ := (hend.endsDigits_suffix isUnsigned).body_eq
    (if c.options.floatsAsDecimal then .decimal else .float) n
  have hdigits : (c.advanceBy (Glyph.ofText n.text).length).rest =
      Glyph.ofText (integerSuffix isUnsigned) ++ rest := by
    rw [advanceBy_rest, hsplit, List.drop_left]
  have hbehind : (c.advanceBy (Glyph.ofText (n.literal isUnsigned)).length).rest = rest := by
    rw [advanceBy_rest, hrest, List.drop_left]
  have hto : c.textTo (c.advanceBy (Glyph.ofText (n.literal isUnsigned)).length) =
      n.literal isUnsigned := textTo_eq (by rw [hbehind, hrest])
  have hlast : c.numberEnd =
      (c.advanceBy (Glyph.ofText (n.literal isUnsigned)).length, integerKind isUnsigned) := by
    unfold numberEnd numberDigits numberBody
    rw [hsplit, hbody]
    dsimp only
    rw [if_pos rfl, hdigits]
    cases isUnsigned with
    | false =>
      rw [show Glyph.ofText (integerSuffix false) ++ rest = rest from rfl, hend.suffixKind?_eq,
        Numeral.literal, integerSuffix, if_neg Bool.false_ne_true,
        String.append_empty]
      rfl
    | true =>
      have hlength : (Glyph.ofText (n.literal true)).length = (Glyph.ofText n.text).length + 1 := by
        rw [Numeral.literal, Glyph.ofText_append, List.length_append]
        rfl
      rw [hlength, advanceBy_add]
      rfl
  have hnumber : c.number = (c.advanceBy (Glyph.ofText (n.literal isUnsigned)).length,
      (⟨integerKind isUnsigned, n.literal isUnsigned⟩ : Token.Face).placed c.offset) := by
    rw [number_eq, hlast]
    dsimp only
    rw [hbehind, if_pos hend.wordRun_eq, hto]
    cases isUnsigned <;> rfl
  obtain ⟨ch, chars, hchars, hdigit⟩ := n.exists_digit
  have hhead : c.rest.head? = some (.char ch) := by
    rw [hsplit, Glyph.ofText, hchars]
    rfl
  have hword : c.atWord = false := by
    rw [atWord, hhead, Option.any_some, Glyph.isLetter_of_isDigit hdigit]
  have hat : c.atNumber = true := by
    rw [atNumber, Number.startsWithDigit, hhead, Option.any_some, Glyph.isDecimalDigit, hdigit,
      Bool.true_or]
  rw [lexeme, hword, hat, if_neg Bool.false_ne_true, if_pos rfl, hnumber]

/-- An integer is handed out, and the cursor stands where it ends. -/
theorem InScript.hands_integer (m : Numeral) (isUnsigned : Bool)
    (h : c.InScript options pending
      (List.replicate n (.char ' ') ++ (Glyph.ofText (m.literal isUnsigned) ++ rest)))
    (hmixed : options.mixed = false) (hend : EndsNumber rest) :
    ∃ later, c.Hands ((⟨integerKind isUnsigned, m.literal isUnsigned⟩ : Token.Face).placed
        (c.advanceBy n).offset) later ∧
      later.InScript options (!options.noAutoSemicolons) rest := by
  obtain ⟨ch, chars, hchars, hdigit⟩ := m.exists_digit
  have htext : Glyph.ofText (m.literal isUnsigned) ++ rest =
      .char ch :: (chars.map .char ++ (Glyph.ofText (integerSuffix isUnsigned) ++ rest)) := by
    rw [m.glyphs_literal, Glyph.ofText, hchars, List.map_cons, List.cons_append]
  have hno : ∀ g ∈ gaps, g.isDecimalDigit = false := by decide
  have hlexeme := beginsLexeme_other (g := .char ch)
    (fun hg => absurd hdigit (Bool.eq_false_iff.1 (hno _ hg)))
    (chars.map .char ++ (Glyph.ofText (integerSuffix isUnsigned) ++ rest))
  have hrest : (c.advanceBy n).rest = Glyph.ofText (m.literal isUnsigned) ++ rest := by
    rw [advanceBy_rest, h.rest_eq, List.drop_left' List.length_replicate]
  have hread := lexeme_integer m isUnsigned hrest hend (.char ch)
  have hkind : integerKind isUnsigned ∉ [Token.Kind.comment, .illegal] ∧
      (integerKind isUnsigned).endsStatement = true := by
    cases isUnsigned <;> decide
  rw [htext] at h
  obtain ⟨later, hhands, hlater⟩ := h.hands_lexeme
    (f := ⟨integerKind isUnsigned, m.literal isUnsigned⟩) hmixed hlexeme hread hkind.1
  rw [← htext, List.drop_left, hkind.2, Bool.true_and] at hlater
  exact ⟨later, hhands, hlater⟩

/-- An integer without a last letter is handed out. -/
theorem InScript.hands_numeral (m : Numeral)
    (h : c.InScript options pending
      (List.replicate n (.char ' ') ++ (Glyph.ofText m.text ++ rest)))
    (hmixed : options.mixed = false) (hend : EndsNumber rest) :
    ∃ later, c.Hands ((⟨.int, m.text⟩ : Token.Face).placed (c.advanceBy n).offset) later ∧
      later.InScript options (!options.noAutoSemicolons) rest := by
  rw [← m.literal_signed] at h ⊢
  exact h.hands_integer m false hmixed hend

end Cursor

end TemplateScript
