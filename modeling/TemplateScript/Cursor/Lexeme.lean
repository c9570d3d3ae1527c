import TemplateScript.Cursor.Literal
import TemplateScript.Cursor.Number

/-!
# Lexemes

A lexeme is one token of code: a word, a number, a literal, a mark, or a stray character that begins
none of them. Reading one always moves the cursor, which is what makes every loop over tokens end.
-/

namespace TemplateScript

namespace Cursor

/-- Read a character that begins no token. Whether a line break counts as a semicolon stays as it
was. -/
def stray (c : Cursor) (g : Glyph) : Cursor × Token :=
  (c.advance.report c.offset (.illegalCharacter g.shown),
    ⟨.illegal, String.singleton g.shown, c.offset, {}⟩)

/-- A lexeme was read that may end a statement. -/
def closing (c : Cursor) (read : Cursor × Token) : Cursor × Token :=
  let mayEnd := read.2.kind = .illegal || read.2.kind.endsStatement
  ({ read.1 with pending := mayEnd && !c.options.noAutoSemicolons }, read.2)

/-- Read the lexeme at the cursor, which `g` begins. -/
def lexeme (c : Cursor) (g : Glyph) : Cursor × Token :=
  if c.atWord then c.closing c.word
  else if c.atNumber then c.closing c.number
  else if g = .char '"' then c.closing (c.quoted '"')
  else if g = .char '\'' then c.closing c.char
  else if g = fenceGlyph then c.closing c.raw
  else
    match mark? c.rest with
    | some kind => c.closing (c.mark kind)
    | none => c.stray g

/-! ### Every lexeme moves the cursor -/

theorem quotedRest_length_le (start : Nat) (quote : Char) (c : Cursor) :
    (c.quotedRest start quote).rest.length ≤ c.rest.length := by
  fun_induction quotedRest start quote c with
  | case1 => simp
  | case2 => simp
  | case3 c =>
    rename_i ih
    have h := escape_length_le quote c.advance
    simp at h
    omega
  | case4 => simp
  | case5 =>
    rename_i ih
    simp at ih
    omega

theorem charRest_length_le (start : Nat) (count : Option Nat) (c : Cursor) :
    (c.charRest start count).1.rest.length ≤ c.rest.length := by
  fun_induction charRest start count c with
  | case1 => simp
  | case2 => simp
  | case3 => simp
  | case4 count c =>
    rename_i ih
    have h := escape_length_le '\'' c.advance
    simp at h
    exact Nat.le_trans ih
      (show (c.advance.escape '\'').1.rest.length ≤ c.rest.length by omega)
  | case5 =>
    rename_i ih
    simp at ih
    omega

theorem countWhile_pos {p : Glyph → Bool} {glyphs : List Glyph} (h : glyphs.head?.any p = true) :
    0 < Glyph.countWhile p glyphs := by
  cases glyphs with
  | nil => simp at h
  | cons g rest =>
    simp only [List.head?_cons, Option.any_some] at h
    simp [Glyph.countWhile, h]

theorem wordRun_pos {c : Cursor} (h : c.atWord = true) : 0 < wordRun c.rest := by
  refine countWhile_pos ?_
  unfold atWord at h
  cases hr : c.rest with
  | nil => simp [hr] at h
  | cons g rest => simp_all

theorem digitRun_pos {glyphs : List Glyph} (h : Number.startsWithDigit glyphs = true) :
    0 < Number.digitRun 10 glyphs := by
  refine countWhile_pos ?_
  unfold Number.startsWithDigit at h
  cases glyphs with
  | nil => simp at h
  | cons g rest =>
    cases g with
    | byte b => simp [Glyph.isDecimalDigit] at h
    | char ch =>
      simp only [List.head?_cons, Option.any_some, Glyph.isDecimalDigit, Char.isDigit,
        Bool.and_eq_true, decide_eq_true_eq] at h
      have hd : ('0' : Char) ≤ ch ∧ ch ≤ '9' := ⟨h.1, h.2⟩
      have hlt : ch.toNat - 48 < 10 := by
        have h2 : ch.toNat ≤ '9'.toNat := hd.2
        have : '9'.toNat = 57 := rfl
        have : '0'.toNat = 48 := rfl
        omega
      simp [Glyph.isDigitOf, Text.isDigit, Text.digit?, hd, Option.filter, hlt]

theorem body_length_pos (floatKind : Token.Kind) {c : Cursor} (h : c.atNumber = true) :
    0 < (Number.body floatKind c.rest).length := by
  unfold Number.body
  split
  · simp only
    omega
  · dsimp only
    by_cases hw : Number.digitRun 10 c.rest = 0
    · rw [hw, List.drop_zero]
      unfold atNumber at h
      simp only [Bool.or_eq_true, Bool.and_eq_true, decide_eq_true_eq] at h
      rcases h with h | ⟨h, _⟩
      · have := digitRun_pos h
        omega
      · cases hr : c.rest with
        | nil => simp [hr] at h
        | cons g rest =>
          simp only [hr, List.head?_cons, Option.some.injEq] at h
          subst h
          simp only [Number.fractionRun, true_or, if_true]
          omega
    · omega

theorem spelling_length_pos {kind : Token.Kind} (h : kind ∈ Token.Kind.marks) :
    0 < kind.spelling.length := by
  revert h
  cases kind <;> decide

theorem word_length_lt {c : Cursor} (h : c.atWord = true) (hr : c.rest ≠ []) :
    c.word.1.rest.length < c.rest.length := by
  have := wordRun_pos h
  have := List.length_pos_iff.2 hr
  simp only [word, advanceBy_rest, List.length_drop]
  omega

theorem number_length_lt {c : Cursor} (h : c.atNumber = true) (hr : c.rest ≠ []) :
    c.number.1.rest.length < c.rest.length := by
  have hb := body_length_pos (if c.options.floatsAsDecimal then .decimal else .float) h
  have hl := List.length_pos_iff.2 hr
  unfold number
  dsimp only
  generalize hbody :
    Number.body (if c.options.floatsAsDecimal then .decimal else .float) c.rest = body at hb
  generalize hdigits : (if body.hasDigits then c.advanceBy body.length
    else (c.advanceBy body.length).report c.offset
      (.illegalNumber (c.textTo (c.advanceBy body.length)))) = digits
  have hd : digits.rest.length < c.rest.length := by
    rw [← hdigits]
    split <;> simp only [report_rest, advanceBy_rest, List.length_drop] <;> omega
  split
  · split
    · simp only [advance_rest, List.length_tail]
      omega
    · simp only [report_rest, advanceBy_rest, advance_rest, List.length_drop, List.length_tail]
      omega
  · split
    · exact hd
    · simp only [report_rest, advanceBy_rest, List.length_drop]
      omega

theorem quoted_length_lt (quote : Char) {c : Cursor} (hr : c.rest ≠ []) :
    (c.quoted quote).1.rest.length < c.rest.length := by
  have hl := List.length_pos_iff.2 hr
  have h := quotedRest_length_le c.offset quote c.advance
  simp only [advance_rest, List.length_tail] at h
  simp only [quoted]
  omega

theorem char_length_lt {c : Cursor} (hr : c.rest ≠ []) :
    c.char.1.rest.length < c.rest.length := by
  unfold char
  split
  · exact quoted_length_lt _ hr
  · have hl := List.length_pos_iff.2 hr
    have h := charRest_length_le c.offset (some 0) c.advance
    simp only [advance_rest, List.length_tail] at h
    dsimp only
    split
    · omega
    · simp only [report_rest]
      omega

theorem pastFence_length_le (start fence : Nat) (cause : ScanCause) (c : Cursor) :
    (c.pastFence start fence cause).rest.length ≤ c.rest.length := by
  unfold pastFence
  dsimp only
  split
  · simp only [advanceBy_rest, List.length_drop]
    omega
  · simp only [report_rest, advanceBy_rest, List.length_drop]
    omega

theorem raw_length_lt {c : Cursor} {rest : List Glyph} (hr : c.rest = fenceGlyph :: rest) :
    c.raw.1.rest.length < c.rest.length := by
  have hf : 0 < Glyph.countWhile (· = fenceGlyph) c.rest := countWhile_pos (by simp [hr])
  have hl : 0 < c.rest.length := by simp [hr]
  unfold raw
  dsimp only
  generalize Glyph.countWhile (· = fenceGlyph) c.rest = fence at hf
  have ho : (c.advanceBy fence).rest.length < c.rest.length := by
    simp only [advanceBy_rest, List.length_drop]
    omega
  have h1 := pastFence_length_le c.offset 1 .unterminatedRawString (c.advanceBy fence)
  have h3 := pastFence_length_le c.offset fence .unterminatedHeredoc (c.advanceBy fence)
  split
  · exact Nat.lt_of_le_of_lt h1 ho
  · split
    · exact ho
    · exact Nat.lt_of_le_of_lt h3 ho

theorem lexeme_length_lt {c : Cursor} {g : Glyph} {rest : List Glyph} (hr : c.rest = g :: rest) :
    (c.lexeme g).1.rest.length < c.rest.length := by
  have hn : c.rest ≠ [] := by simp [hr]
  unfold lexeme
  split
  · rename_i h
    exact word_length_lt h hn
  · split
    · rename_i h
      exact number_length_lt h hn
    · split
      · exact quoted_length_lt _ hn
      · split
        · exact char_length_lt hn
        · split
          · rename_i h
            exact raw_length_lt (by rw [hr, h])
          · split
            · rename_i kind h
              have := spelling_length_pos (List.mem_of_find?_eq_some h)
              have hl := List.length_pos_iff.2 hn
              simp only [closing, mark, advanceBy_rest, List.length_drop]
              omega
            · simp [stray, hr]

end Cursor

end TemplateScript
