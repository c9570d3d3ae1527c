import Mathlib.Data.List.Count
import TemplateScript.Proofs.Cursor.Fidelity
import TemplateScript.Proofs.Cursor.Lexeme
import TemplateScript.Proofs.Cursor.Quiet
import TemplateScript.Proofs.Template.Tokens
import TemplateScript.Proofs.Text.Quoted

/-!
# Reading between quotes

What a cursor accepts between quotes is what spells a text there: an escape that is reported is
none, and one that is none is reported. So a literal that is well formed is one token, up to the
quote that closes it.
-/

namespace TemplateScript

namespace Cursor

open Text

variable {c : Cursor} {quote ch : Char} {body inner text digits : List Char} {rest : List Glyph}
  {radix count acc value start : Nat}

/-! ### Literals that are well formed -/

theorem advanceBy_cons (n : Nat) (c : Cursor) : c.advanceBy (n + 1) = c.advance.advanceBy n := rfl

theorem escapeDigits_value (hrest : c.rest = digits.map .char ++ rest)
    (hvalue : valueFrom? radix acc digits = some value) :
    escapeDigits radix start digits.length acc c = (c.advanceBy digits.length, some value) := by
  induction digits generalizing acc c with
  | nil =>
    obtain rfl := Option.some.inj hvalue
    rfl
  | cons d digits ih =>
    rw [valueFrom?] at hvalue
    obtain ⟨v, hdigit, hvalue⟩ := Option.bind_eq_some_iff.1 hvalue
    rw [List.map_cons, List.cons_append] at hrest
    have hnext : c.advance.rest = digits.map .char ++ rest := by
      rw [advance_rest, hrest, List.tail_cons]
    rw [List.length_cons, escapeDigits, hrest]
    dsimp only [Glyph.shown]
    rw [hdigit]
    exact ih hnext hvalue

/-- An escape is read as what it is. -/
theorem escape_of_isEscape (h : IsEscape quote body ch) (hrest : c.rest = body.map .char ++ rest) :
    c.escape quote = (c.advanceBy body.length, true) := by
  cases h with
  | named h hquote =>
    rw [List.map_singleton, List.singleton_append] at hrest
    rw [escape, hrest]
    dsimp only [Glyph.shown]
    rw [h, if_pos]
    · rfl
    · rcases hquote with rfl | ⟨hdouble, hsingle⟩
      · simp
      · simp [hdouble, hsingle]
  | @number mark digits radix count code hmark hlength hvalue hlimit hvalid =>
    rw [List.map_cons, List.cons_append] at hrest
    have hcode : ¬ (escapeLimit count < code ∨ (0xD800 ≤ code ∧ code < 0xE000)) := by
      unfold Nat.isValidChar at hvalid
      omega
    have hdigits : escapeDigits radix c.offset count 0 (if radix = 8 then c else c.advance) =
        (c.advanceBy (mark :: digits).length, some code) := by
      rw [← hlength]
      split
      · exact escapeDigits_value (by rw [hrest]; rfl) (by simpa [value?, *] using hvalue)
      · have hnext : c.advance.rest = digits.map .char ++ rest := by
          rw [advance_rest, hrest, List.tail_cons]
        exact escapeDigits_value hnext (by simpa [value?, *] using hvalue)
    rw [escape, hrest]
    dsimp only [Glyph.shown]
    rw [namedEscape?_of_number hmark, hmark, if_neg (by simp)]
    dsimp only
    rw [hdigits]
    dsimp only
    rw [if_neg hcode]

/-- What spells a text is passed up to the quote that closes it, and past that. -/
theorem quotedRest_of_spells (h : Spells quote inner text)
    (hquote : quote ≠ '\n' ∧ quote ≠ '\\')
    (hrest : c.rest = inner.map .char ++ .char quote :: rest) :
    c.quotedRest start quote = c.advanceBy (inner.length + 1) := by
  induction h generalizing c with
  | nil =>
    rw [List.map_nil, List.nil_append] at hrest
    rw [quotedRest_eq, hrest]
    dsimp only
    rw [if_neg (by simpa using hquote.1), if_neg (by simpa using hquote.2), if_pos rfl]
    rfl
  | @char ch inner text hc h ih =>
    simp only [List.mem_cons, List.not_mem_nil, or_false, not_or] at hc
    rw [List.map_cons, List.cons_append] at hrest
    rw [quotedRest_eq, hrest]
    dsimp only
    rw [if_neg (by simpa using hc.1), if_neg (by simpa using hc.2.1),
      if_neg (by simpa using hc.2.2)]
    exact ih (by rw [advance_rest, hrest, List.tail_cons])
  | @escape body inner text ch hbody h ih =>
    rw [List.map_cons, List.map_append, List.cons_append, List.append_assoc] at hrest
    have hnext : c.advance.rest = body.map .char ++ (inner.map .char ++ .char quote :: rest) := by
      rw [advance_rest, hrest, List.tail_cons]
    have hbehind : (c.advance.advanceBy body.length).rest =
        inner.map .char ++ .char quote :: rest := by
      rw [advanceBy_rest, hnext, List.drop_left' (List.length_map _)]
    rw [quotedRest_eq, hrest]
    dsimp only
    rw [if_neg (by decide), if_pos rfl, escape_of_isEscape hbody hnext, ih hbehind,
      ← advanceBy_add, ← advanceBy_cons, List.length_cons, List.length_append, ← Nat.add_assoc]

theorem textTo_of_quotes {later : Cursor}
    (hrest : c.rest = .char quote :: (inner.map .char ++ .char quote :: later.rest)) :
    c.textTo later = String.ofList (quote :: (inner ++ [quote])) := by
  refine textTo_eq ?_
  rw [hrest, Glyph.ofText, String.toList_ofList]
  simp

theorem textTo_quotes (hrest : c.rest = .char quote :: (inner.map .char ++ .char quote :: rest)) :
    c.textTo (c.advanceBy (inner.length + 2)) = String.ofList (quote :: (inner ++ [quote])) := by
  refine textTo_of_quotes ?_
  have hsplit : c.rest = (quote :: (inner ++ [quote])).map .char ++ rest := by
    rw [hrest]
    simp
  have hlength : inner.length + 2 = ((quote :: (inner ++ [quote])).map Glyph.char).length := by
    simp
  rw [advanceBy_rest, hlength, hsplit, List.drop_left, ← hsplit, hrest]

/-- A string that is well formed is one token. -/
theorem quoted_of_spells (h : Spells quote inner text) (hquote : quote ≠ '\n' ∧ quote ≠ '\\')
    (hrest : c.rest = .char quote :: (inner.map .char ++ .char quote :: rest)) :
    c.quoted quote = (c.advanceBy (inner.length + 2),
      ⟨.string, String.ofList (quote :: (inner ++ [quote])), c.offset, {}⟩) := by
  have hnext : c.advance.rest = inner.map .char ++ .char quote :: rest := by
    rw [advance_rest, hrest, List.tail_cons]
  have hlast : c.advance.quotedRest c.offset quote = c.advanceBy (inner.length + 2) :=
    quotedRest_of_spells h hquote hnext
  rw [quoted, hlast, textTo_quotes hrest]

/-- The characters between single quotes are counted on the way. -/
theorem charRest_of_spells (h : Spells '\'' inner text) (held : Option Nat)
    (hrest : c.rest = inner.map .char ++ .char '\'' :: rest) :
    c.charRest start held =
      (c.advanceBy (inner.length + 1), held.map (· + text.length)) := by
  generalize hquote : '\'' = quote at h hrest
  induction h generalizing c held with
  | nil =>
    rw [List.map_nil, List.nil_append, ← hquote] at hrest
    rw [charRest_eq, hrest]
    dsimp only
    rw [if_neg (by decide), if_pos rfl]
    cases held <;> rfl
  | @char ch inner text hc h ih =>
    simp only [← hquote, List.mem_cons, List.not_mem_nil, or_false, not_or] at hc
    rw [List.map_cons, List.cons_append] at hrest
    rw [charRest_eq, hrest]
    dsimp only
    rw [if_neg (by simpa using hc.1), if_neg (by simpa using hc.2.2),
      if_neg (by simpa using hc.2.1), ih _ (by rw [advance_rest, hrest, List.tail_cons]),
      ← advanceBy_cons, List.length_cons, List.length_cons]
    cases held with
    | none => rfl
    | some n => simp [counted, Nat.add_comm, Nat.add_left_comm]
  | @escape body inner text ch hbody h ih =>
    rw [List.map_cons, List.map_append, List.cons_append, List.append_assoc] at hrest
    have hnext : c.advance.rest = body.map .char ++ (inner.map .char ++ .char quote :: rest) := by
      rw [advance_rest, hrest, List.tail_cons]
    have hbehind : (c.advance.advanceBy body.length).rest =
        inner.map .char ++ .char quote :: rest := by
      rw [advanceBy_rest, hnext, List.drop_left' (List.length_map _)]
    rw [charRest_eq, hrest]
    dsimp only
    rw [if_neg (by decide), if_neg (by decide), if_pos rfl, hquote,
      escape_of_isEscape hbody hnext, ih _ hbehind, ← advanceBy_add, ← advanceBy_cons,
      List.length_cons, List.length_append, List.length_cons, ← Nat.add_assoc]
    cases held with
    | none => rfl
    | some n => simp [counted, Nat.add_comm, Nat.add_left_comm]

/-- A literal of one character is one token. -/
theorem char_of_spells (h : Spells '\'' inner [ch]) (hoff : c.options.charAsString = false)
    (hrest : c.rest = .char '\'' :: (inner.map .char ++ .char '\'' :: rest)) :
    c.char = (c.advanceBy (inner.length + 2),
      ⟨.char, String.ofList ('\'' :: (inner ++ ['\''])), c.offset, {}⟩) := by
  have hnext : c.advance.rest = inner.map .char ++ .char '\'' :: rest := by
    rw [advance_rest, hrest, List.tail_cons]
  have hlast : c.advance.charRest c.offset (some 0) = (c.advanceBy (inner.length + 2), some 1) :=
    charRest_of_spells h (some 0) hnext
  rw [char, hoff, if_neg Bool.false_ne_true, hlast]
  dsimp only
  rw [if_pos (by rfl), textTo_quotes hrest]

/-! ### Literals that are not reported -/

/-- Nothing but byte order marks was reported from one offset on and before another. -/
def IsClear (c : Cursor) (first last : Nat) : Prop :=
  ∀ e ∈ c.errors, first ≤ e.place.offset → e.place.offset < last → e.cause = .illegalByteOrderMark

variable {first stop : Nat}

theorem isClear_of_errors (h : c.errors = []) : c.IsClear first stop := by
  intro e he
  rw [h] at he
  cases he

theorem IsClear.of_prefix {later : Cursor} (h : later.IsClear first stop)
    (hgrow : c.errors <+: later.errors) : c.IsClear first stop :=
  fun e he => h e (hgrow.subset he)

theorem not_isClear_report {offset : Nat} {cause : ScanCause}
    (hcause : cause ≠ .illegalByteOrderMark) (hfirst : first ≤ offset) (hstop : offset < stop) :
    ¬ (c.report offset cause).IsClear first stop := by
  intro h
  refine hcause (h ⟨c.file.place offset, cause⟩ ?_ ?_ ?_)
  · exact List.mem_append_right _ (List.mem_singleton_self _)
  · rwa [place_offset]
  · rwa [place_offset]

theorem not_isClear_of_escapeDigits {last : Cursor}
    (h : escapeDigits radix start count acc c = (last, none)) (hfirst : first ≤ start)
    (hstart : start ≤ c.offset) (hstop : last.offset < stop) : ¬ last.IsClear first stop := by
  induction count generalizing acc c with
  | zero => cases h
  | succ count ih =>
    rw [escapeDigits] at h
    split at h
    · obtain rfl := (Prod.mk.inj h).1
      exact not_isClear_report (by rintro ⟨⟩) hfirst (Nat.lt_of_le_of_lt hstart hstop)
    · split at h
      · obtain rfl := (Prod.mk.inj h).1
        exact not_isClear_report (by rintro ⟨⟩) (Nat.le_trans hfirst hstart) hstop
      · exact ih h (Nat.le_trans hstart (advance_offset_le c))

theorem exists_digits {last : Cursor} (htext : c.IsText)
    (h : escapeDigits radix start count acc c = (last, some value)) :
    ∃ digits, digits.length = count ∧ valueFrom? radix acc digits = some value ∧
      c.rest = digits.map .char ++ last.rest := by
  induction count generalizing acc c with
  | zero =>
    obtain ⟨rfl, hvalue⟩ := Prod.mk.inj h
    exact ⟨[], rfl, hvalue, rfl⟩
  | succ count ih =>
    rw [escapeDigits] at h
    cases hrest : c.rest with
    | nil =>
      rw [hrest] at h
      cases h
    | cons g more =>
      obtain ⟨d, rfl⟩ := htext g (by rw [hrest]; exact List.mem_cons_self)
      rw [hrest] at h
      dsimp only [Glyph.shown] at h
      cases hdigit : digit? radix d with
      | none =>
        rw [hdigit] at h
        cases h
      | some v =>
        rw [hdigit] at h
        obtain ⟨digits, hlength, hvalue, hmore⟩ := ih (htext.reaches (reaches_advance c)) h
        rw [advance_rest, hrest, List.tail_cons] at hmore
        refine ⟨d :: digits, by rw [List.length_cons, hlength], ?_, by rw [hmore]; rfl⟩
        rw [valueFrom?, hdigit]
        exact hvalue

theorem numberEscape?_pos {mark : Char} (h : numberEscape? mark = some (radix, count)) :
    0 < count := by
  unfold numberEscape? at h
  split at h
  · cases h
    decide
  · cases h
    decide
  · cases h
    decide
  · split at h
    · cases h
      decide
    · cases h

/-- Digits that are not reported, and what they may name, are an escape by number. -/
theorem exists_numberEscape {mark : Char} {code : Nat} {more : List Glyph} {last : Cursor}
    (htext : c.IsText) (hrest : c.rest = .char mark :: more)
    (hmark : numberEscape? mark = some (radix, count))
    (hread : escapeDigits radix c.offset count 0 (if radix = 8 then c else c.advance) =
      (last, some code))
    (hcode : ¬ (escapeLimit count < code ∨ (0xD800 ≤ code ∧ code < 0xE000))) :
    ∃ body ch, IsEscape quote body ch ∧ c.rest = body.map .char ++ last.rest := by
  have hlimit : code ≤ escapeLimit count := by omega
  have hvalid : code.isValidChar := by
    have hlast : escapeLimit count ≤ 0x10FFFF := by
      unfold escapeLimit
      split <;> decide
    unfold Nat.isValidChar
    omega
  by_cases hoctal : radix = 8
  · rw [if_pos hoctal] at hread
    obtain ⟨digits, hlength, hvalue, hdigits⟩ := exists_digits htext hread
    cases digits with
    | nil =>
      have hpos := numberEscape?_pos hmark
      rw [← hlength] at hpos
      cases hpos
    | cons d digits =>
      have hhead := hrest.symm.trans hdigits
      obtain ⟨hd, -⟩ := List.cons.inj hhead
      obtain rfl : mark = d := Glyph.char.inj hd
      refine ⟨mark :: digits, _, .number hmark ?_ ?_ hlimit hvalid, hdigits⟩
      · rwa [if_pos hoctal]
      · rwa [if_pos hoctal]
  · rw [if_neg hoctal] at hread
    obtain ⟨digits, hlength, hvalue, hdigits⟩ :=
      exists_digits (htext.reaches (reaches_advance c)) hread
    rw [advance_rest, hrest, List.tail_cons] at hdigits
    refine ⟨mark :: digits, _, .number hmark ?_ ?_ hlimit hvalid, by rw [hrest, hdigits]; rfl⟩
    · rwa [if_neg hoctal]
    · rwa [if_neg hoctal]

/-- What is not reported is an escape. -/
theorem exists_isEscape (htext : c.IsText) (hclear : (c.escape quote).1.IsClear first stop)
    (hfirst : first ≤ c.offset) (hstop : (c.escape quote).1.offset < stop) :
    ∃ body ch, IsEscape quote body ch ∧ c.rest = body.map .char ++ (c.escape quote).1.rest := by
  cases hrest : c.rest with
  | nil =>
    rw [escape, hrest] at hclear hstop
    exact absurd hclear (not_isClear_report (by rintro ⟨⟩) hfirst hstop)
  | cons g more =>
    obtain ⟨mark, rfl⟩ := htext g (by rw [hrest]; exact List.mem_cons_self)
    rw [escape, hrest] at hclear hstop ⊢
    dsimp only [Glyph.shown] at hclear hstop ⊢
    split at hclear
    · next hnamed =>
      rw [if_pos hnamed]
      rw [Bool.and_eq_true, Option.isSome_iff_exists] at hnamed
      obtain ⟨⟨ch, hch⟩, hquote⟩ := hnamed
      refine ⟨[mark], ch, .named hch ?_, by rw [advance_rest, hrest]; rfl⟩
      by_cases hsame : mark = quote
      · exact .inl hsame
      · simp [hsame] at hquote
        exact .inr hquote
    · next hnamed =>
      rw [if_neg hnamed] at hstop ⊢
      cases hmark : numberEscape? mark with
      | none =>
        rw [hmark] at hclear hstop
        exact absurd hclear (not_isClear_report (by rintro ⟨⟩) hfirst hstop)
      | some number =>
        obtain ⟨radix, count⟩ := number
        rw [hmark] at hclear hstop
        dsimp only at hclear hstop ⊢
        have hbegin : c.offset ≤ (if radix = 8 then c else c.advance).offset := by
          split
          · exact Nat.le_refl _
          · exact advance_offset_le c
        have hle := (reaches_escapeDigits radix c.offset count 0
          (if radix = 8 then c else c.advance)).offset_le
        cases hread : escapeDigits radix c.offset count 0 (if radix = 8 then c else c.advance) with
        | mk last value =>
          rw [hread] at hclear hstop hle
          cases value with
          | none => exact absurd hclear (not_isClear_of_escapeDigits hread hfirst hbegin hstop)
          | some code =>
            dsimp only at hclear hstop ⊢
            split at hclear
            · next hcode =>
              rw [if_pos hcode] at hstop
              have hbefore : c.offset < stop :=
                Nat.lt_of_le_of_lt (Nat.le_trans hbegin hle) hstop
              exact absurd hclear (not_isClear_report (by rintro ⟨⟩) hfirst hbefore)
            · next hcode =>
              rw [if_neg hcode, ← hrest]
              exact exists_numberEscape htext hrest hmark hread hcode

/-- What was read before the closing quote ends before it. -/
theorem offset_lt_of_rest {later last : Cursor} {ch : Char} (hreach : later.Reaches last)
    (hrest : later.rest = inner.map .char ++ .char ch :: last.rest) :
    later.offset < last.offset := by
  refine hreach.offset_lt ?_
  rw [hrest, List.length_append, List.length_cons]
  omega

/-- What is not reported up to the closing quote spells a text. -/
theorem exists_spells (htext : c.IsText) (hclear : (c.quotedRest start quote).IsClear first stop)
    (hfirst : first ≤ start) (hstart : start < c.offset)
    (hstop : (c.quotedRest start quote).offset ≤ stop) :
    ∃ inner text, Spells quote inner text ∧
      c.rest = inner.map .char ++ .char quote :: (c.quotedRest start quote).rest := by
  fun_induction quotedRest start quote c with
  | case1 c | case2 c =>
    exact absurd hclear (not_isClear_report (by rintro ⟨⟩) hfirst (Nat.lt_of_lt_of_le hstart hstop))
  | case3 c more hrest hbreak ih =>
    have hnext := htext.reaches (reaches_advance c)
    have hescape := reaches_escape quote c.advance
    have hlater := reaches_quotedRest start quote (c.advance.escape quote).1
    have hpassed := Nat.lt_of_lt_of_le hstart (advance_offset_le c)
    obtain ⟨inner, text, hspells, hinner⟩ := ih (hnext.reaches hescape) hclear
      (Nat.lt_of_lt_of_le hpassed hescape.offset_le) hstop
    have hbefore := Nat.lt_of_lt_of_le (offset_lt_of_rest hlater hinner) hstop
    obtain ⟨body, ch, hbody, hread⟩ := exists_isEscape hnext
      (hclear.of_prefix hlater.errors_grow) (Nat.le_trans hfirst (Nat.le_of_lt hpassed)) hbefore
    rw [advance_rest, hrest, List.tail_cons, hinner] at hread
    refine ⟨_, _, .escape hbody hspells, ?_⟩
    rw [hrest, hread]
    simp
  | case4 c more hrest hbreak hescape =>
    refine ⟨[], [], .nil, ?_⟩
    rw [hrest, advance_rest, hrest]
    rfl
  | case5 c g more hrest hbreak hescape hquote ih =>
    obtain ⟨ch, rfl⟩ := htext g (by rw [hrest]; exact List.mem_cons_self)
    obtain ⟨inner, text, hspells, hinner⟩ := ih (htext.reaches (reaches_advance c)) hclear
      (Nat.lt_of_lt_of_le hstart (advance_offset_le c)) hstop
    rw [advance_rest, hrest, List.tail_cons] at hinner
    have hplain : ch ∉ ['\n', '\\', quote] := by
      simp only [Glyph.char.injEq] at hbreak hescape hquote
      simp [hbreak, hescape, hquote]
    exact ⟨ch :: inner, ch :: text, .char hplain hspells, by rw [hrest, hinner]; rfl⟩

theorem exists_spells_char {held : Option Nat} (htext : c.IsText)
    (hclear : (c.charRest start held).1.IsClear first stop) (hfirst : first ≤ start)
    (hstart : start < c.offset) (hstop : (c.charRest start held).1.offset ≤ stop) :
    ∃ inner text, Spells '\'' inner text ∧
      c.rest = inner.map .char ++ .char '\'' :: (c.charRest start held).1.rest := by
  fun_induction charRest start held c with
  | case1 held c | case2 held c =>
    exact absurd hclear (not_isClear_report (by rintro ⟨⟩) hfirst (Nat.lt_of_lt_of_le hstart hstop))
  | case3 held c more hrest hbreak =>
    refine ⟨[], [], .nil, ?_⟩
    rw [hrest, advance_rest, hrest]
    rfl
  | case4 held c more step hrest hbreak hquote =>
    rename_i ih
    have hnext := htext.reaches (reaches_advance c)
    have hescape := reaches_escape '\'' c.advance
    have hlater := reaches_charRest start (counted (c.advance.escape '\'').2 held)
      (c.advance.escape '\'').1
    have hpassed := Nat.lt_of_lt_of_le hstart (advance_offset_le c)
    obtain ⟨inner, text, hspells, hinner⟩ := ih (hnext.reaches hescape) hclear
      (Nat.lt_of_lt_of_le hpassed hescape.offset_le) hstop
    have hbefore := Nat.lt_of_lt_of_le (offset_lt_of_rest hlater hinner) hstop
    obtain ⟨body, ch, hbody, hread⟩ := exists_isEscape hnext
      (hclear.of_prefix hlater.errors_grow) (Nat.le_trans hfirst (Nat.le_of_lt hpassed)) hbefore
    rw [advance_rest, hrest, List.tail_cons, hinner] at hread
    refine ⟨_, _, .escape hbody hspells, ?_⟩
    rw [hrest, hread]
    simp
  | case5 held c g more hrest hbreak hquote hescape ih =>
    obtain ⟨ch, rfl⟩ := htext g (by rw [hrest]; exact List.mem_cons_self)
    obtain ⟨inner, text, hspells, hinner⟩ := ih (htext.reaches (reaches_advance c)) hclear
      (Nat.lt_of_lt_of_le hstart (advance_offset_le c)) hstop
    rw [advance_rest, hrest, List.tail_cons] at hinner
    have hplain : ch ∉ ['\n', '\\', '\''] := by
      simp only [Glyph.char.injEq] at hbreak hescape hquote
      simp [hbreak, hescape, hquote]
    exact ⟨ch :: inner, ch :: text, .char hplain hspells, by rw [hrest, hinner]; rfl⟩

/-- The opening quote is passed. -/
theorem offset_lt_advance (hhead : c.rest.head? = some (.char ch)) :
    c.offset < c.advance.offset := by
  obtain ⟨more, hmore⟩ := List.head?_eq_some_iff.1 hhead
  refine (reaches_advance c).offset_lt ?_
  rw [advance_rest, hmore, List.tail_cons]
  exact Nat.lt_succ_self _

/-- A string for which nothing is reported spells a text. -/
theorem exists_spells_string (htext : c.IsText) (hhead : c.rest.head? = some (.char quote))
    (hclear : (c.quoted quote).1.IsClear c.offset (c.quoted quote).1.offset) :
    ∃ inner text, Spells quote inner text ∧
      c.rest = .char quote :: (inner.map .char ++ .char quote :: (c.quoted quote).1.rest) := by
  obtain ⟨inner, text, hspells, hinner⟩ := exists_spells (htext.reaches (reaches_advance c)) hclear
    (Nat.le_refl _) (offset_lt_advance hhead) (Nat.le_refl _)
  obtain ⟨more, hmore⟩ := List.head?_eq_some_iff.1 hhead
  refine ⟨inner, text, hspells, ?_⟩
  change c.advance.rest = _ ++ .char quote :: (c.quoted quote).1.rest at hinner
  rw [← hinner, advance_rest, hmore, List.tail_cons]

/-- A character literal for which nothing is reported holds one character. -/
theorem exists_spells_one (htext : c.IsText) (hoff : c.options.charAsString = false)
    (hhead : c.rest.head? = some (.char '\''))
    (hclear : c.char.1.IsClear c.offset c.char.1.offset) :
    ∃ inner ch, Spells '\'' inner [ch] ∧
      c.rest = .char '\'' :: (inner.map .char ++ .char '\'' :: c.char.1.rest) := by
  have hread : c.char.1 =
      if (c.advance.charRest c.offset (some 0)).2.all (· = 1) then
        (c.advance.charRest c.offset (some 0)).1
      else (c.advance.charRest c.offset (some 0)).1.report c.offset .illegalCharLiteral := by
    rw [char, hoff]
    rfl
  have hopened := offset_lt_advance hhead
  have hone : (c.advance.charRest c.offset (some 0)).2.all (· = 1) = true := by
    by_contra hmany
    have hend := (reaches_charRest c.offset (some 0) c.advance).offset_le
    rw [hread, if_neg hmany] at hclear
    have hstart := Nat.lt_of_lt_of_le hopened hend
    exact absurd hclear (not_isClear_report (by rintro ⟨⟩) (Nat.le_refl _) hstart)
  rw [if_pos hone] at hread
  rw [hread] at hclear ⊢
  obtain ⟨inner, text, hspells, hinner⟩ := exists_spells_char
    (htext.reaches (reaches_advance c)) hclear (Nat.le_refl _) hopened (Nat.le_refl _)
  have hcount : c.advance.charRest c.offset (some 0) = _ :=
    charRest_of_spells hspells (some 0) hinner
  rw [hcount, Option.map_some, Option.all_some, Nat.zero_add] at hone
  obtain ⟨ch, rfl⟩ := List.length_eq_one_iff.1 (of_decide_eq_true hone)
  obtain ⟨more, hmore⟩ := List.head?_eq_some_iff.1 hhead
  refine ⟨inner, ch, hspells, ?_⟩
  rw [← hinner, advance_rest, hmore, List.tail_cons]

/-! ### A literal as a whole source -/

theorem leave_errors (c : Cursor) (g : Glyph) : (c.leave g).errors = c.errors := by
  unfold leave
  split <;> rfl

theorem causes_advance (htext : c.IsText) :
    c.advance.errors.map (·.cause) = c.errors.map (·.cause) ++
      if c.rest.tail.head? = some (.char byteOrderMark) then [.illegalByteOrderMark] else [] := by
  cases hrest : c.rest with
  | nil =>
    have hstays : c.advance = c := by
      unfold advance
      rw [hrest]
    simp [hstays]
  | cons g more =>
    rw [advance_cons hrest, List.tail_cons]
    cases more with
    | nil => simp [arrive, leave_errors]
    | cons g' more =>
      obtain ⟨ch, rfl⟩ := htext g' (by rw [hrest]; simp)
      have hpos : 0 < c.offset + g.width := Nat.add_pos_right _ g.width_pos
      by_cases hmark : ch = byteOrderMark
      · simp [arrive, hmark, hpos, report, leave_errors]
      · simp [arrive, hmark, leave_errors]

/-- Of characters, only byte order marks are reported, each when the cursor comes to it. -/
theorem causes_advanceBy (htext : c.IsText) (n : Nat) :
    (c.advanceBy n).errors.map (·.cause) = c.errors.map (·.cause) ++
      List.replicate ((c.rest.tail.take n).count (.char byteOrderMark)) .illegalByteOrderMark := by
  induction n generalizing c with
  | zero => simp [advanceBy]
  | succ n ih =>
    rw [advanceBy, ih (htext.reaches (reaches_advance c)), causes_advance htext, advance_rest]
    cases hrest : c.rest.tail with
    | nil => simp
    | cons g more =>
      by_cases hmark : g = .char byteOrderMark
      · simp [hmark, List.replicate_succ]
      · simp [hmark]

/-- What is no digit is not among digits that have a value. -/
theorem not_mem_of_valueFrom? (hvalue : valueFrom? radix acc digits = some value)
    (hnone : digit? radix ch = none) : ch ∉ digits := by
  induction digits generalizing acc with
  | nil => exact List.not_mem_nil
  | cons d digits ih =>
    rw [valueFrom?] at hvalue
    obtain ⟨v, hdigit, hvalue⟩ := Option.bind_eq_some_iff.1 hvalue
    rw [List.mem_cons, not_or]
    refine ⟨fun hd => ?_, ih hvalue⟩
    rw [← hd, hnone] at hdigit
    cases hdigit

/-- A byte order mark is written as itself, and nothing else is written with one. -/
theorem count_quotedChar (ch : Char) :
    (quotedChar ch).count byteOrderMark = if ch = byteOrderMark then 1 else 0 := by
  by_cases hmark : ch = byteOrderMark
  · rw [hmark]
    decide
  · rw [if_neg hmark, List.count_eq_zero]
    unfold quotedChar
    split
    · decide
    split
    · decide
    split
    · decide
    split
    · decide
    split
    · decide
    split
    · rw [List.mem_append, not_or]
      exact ⟨by decide, not_mem_of_valueFrom? (value?_hex 4 ch.toNat) rfl⟩
    · simpa using Ne.symm hmark

/-- No line break stands between quotes that are written. -/
theorem lineBreak_not_mem_quotedChar (ch : Char) : '\n' ∉ quotedChar ch := by
  unfold quotedChar
  split
  · decide
  split
  · decide
  split
  · decide
  split
  · decide
  split
  · decide
  split
  · rw [List.mem_append, not_or]
    exact ⟨by decide, not_mem_of_valueFrom? (value?_hex 4 ch.toNat) rfl⟩
  · next hbreak _ _ _ => simpa using Ne.symm hbreak

theorem count_quote (text : List Char) :
    (text.flatMap quotedChar).count byteOrderMark = text.count byteOrderMark := by
  induction text with
  | nil => rfl
  | cons ch text ih =>
    rw [List.flatMap_cons, List.count_append, ih, count_quotedChar, List.count_cons, Nat.add_comm]
    simp

theorem code_nil_pending (hrest : c.rest = []) (hpending : c.pending = true) :
    c.code = ({ c with pending := false }, c.insertedSemicolon, []) := by
  rw [code_eq, skipBlanks_nil hrest, codeEnd?_nil hrest, pragmaLine?_nil hrest]
  dsimp only
  split
  · rw [if_pos hpending]
  · next hmore =>
    rw [hrest] at hmore
    cases hmore

theorem scan_nil (hrest : c.rest = []) (hpool : c.pool = []) (htext : c.inText = false)
    (hpending : c.pending = false) : c.scan = (c, c.endOfFile) := by
  rw [scan_code hpool htext, code_nil hrest hpending, ← hpool]

/-- Behind the last token, a semicolon that is pending is inserted before the end of the file. -/
theorem scanToEnd_pending (hrest : c.rest = []) (hpool : c.pool = []) (htext : c.inText = false)
    (hpending : c.pending = true) (limit : Nat) :
    scanToEnd (limit + 2) c =
      ({ c with pending := false }, [c.insertedSemicolon, c.endOfFile]) := by
  have hkind : c.insertedSemicolon.kind ≠ .eof := by rintro ⟨⟩
  have hfirst : c.scan = ({ c with pending := false }, c.insertedSemicolon) := by
    rw [scan_code hpool htext, code_nil_pending hrest hpending, ← hpool]
  have hsecond := scan_nil (c := { c with pending := false }) hrest hpool htext rfl
  rw [scanToEnd, hfirst]
  dsimp only
  rw [if_neg hkind, scanToEnd, hsecond]
  rfl

/-- A double quote begins a string. -/
theorem code_string {more : List Glyph} (hrest : c.rest = .char '"' :: more)
    (hmixed : c.options.mixed = false) :
    c.code = ((c.closing (c.quoted '"')).1, (c.closing (c.quoted '"')).2, []) := by
  have hskip : c.skipBlanks = c := by
    rw [skipBlanks, hrest, Glyph.countWhile,
      List.takeWhile_cons_of_neg (by simp [Glyph.isInlineSpace])]
    rfl
  have hend : c.codeEnd? = none := by
    rw [codeEnd?, isDelimited, hmixed]
    rfl
  have hpragma : c.pragmaLine? = none := by
    rw [pragmaLine?, hrest, pragmaHead?]
    simp
  have hcomment : c.atComment = false := by
    rw [atComment, hrest]
    rfl
  have hlexeme : c.lexeme (.char '"') = c.closing (c.quoted '"') := by
    rw [lexeme, atWord, atNumber, hrest]
    rfl
  rw [code_eq, hskip, hend, hpragma, hrest]
  dsimp only
  rw [hcomment, if_neg Bool.false_ne_true, if_neg (by decide), hlexeme]

/-- A source that is nothing but one token that may end a statement has an inserted semicolon behind
it. -/
theorem scanAll_single {t : Token} (hne : c.rest ≠ []) (hinText : c.inText = false)
    (hpool : c.pool = []) (heof : t.kind ≠ .eof)
    (hscan : c.scan = ({ c.advanceBy c.rest.length with pending := true }, t)) :
    c.scanAll = ({ c.advanceBy c.rest.length with pending := false },
      [t, ⟨.semicolon, "\n", c.offset + Glyph.widths c.rest, { inserted := true }⟩,
        ⟨.eof, "", c.offset + Glyph.widths c.rest, {}⟩]) := by
  generalize hlater : ({ c.advanceBy c.rest.length with pending := true } : Cursor) = later at hscan
  have hlaterPool : later.pool = [] := by
    rw [← hlater]
    exact (moves_advanceBy _ c : Moves 0 _ _).walks.pool_eq.trans hpool
  have hlast : later.rest = [] := by rw [← hlater, advanceBy_rest, List.drop_length]
  have hoffset : later.offset = c.offset + Glyph.widths c.rest := by
    rw [← hlater]
    change (c.advanceBy c.rest.length).offset = _
    rw [offset_advanceBy, List.take_length]
  have hlaterText : later.inText = false := by
    rw [← hlater]
    exact (advanceBy_inText _ c).trans hinText
  have hends := scanToEnd_pending hlast hlaterPool hlaterText (by rw [← hlater])
    (2 * c.rest.length - 1)
  have hbound : c.bound = 2 * c.rest.length - 1 + 2 + 1 := by
    have hpos := List.length_pos_iff.2 hne
    rw [bound, hpool, List.length_nil]
    omega
  have hmarks : [later.insertedSemicolon, later.endOfFile] =
      [⟨.semicolon, "\n", c.offset + Glyph.widths c.rest, { inserted := true }⟩,
        ⟨.eof, "", c.offset + Glyph.widths c.rest, {}⟩] := by
    rw [insertedSemicolon, endOfFile, hoffset]
  rw [scanAll, hbound, scanToEnd, hscan]
  dsimp only
  rw [if_neg heof, hends, hmarks, ← hlater]

/-- A source that is nothing but a string is one token, with an inserted semicolon behind it. -/
theorem scanAll_string (h : Spells '"' inner text) (hmixed : c.options.mixed = false)
    (hauto : c.options.noAutoSemicolons = false) (hinText : c.inText = false) (hpool : c.pool = [])
    (hrest : c.rest = .char '"' :: (inner.map .char ++ [.char '"'])) :
    c.scanAll = ({ c.advanceBy (inner.length + 2) with pending := false },
      [⟨.string, String.ofList ('"' :: (inner ++ ['"'])), c.offset, {}⟩,
        ⟨.semicolon, "\n", c.offset + Glyph.widths c.rest, { inserted := true }⟩,
        ⟨.eof, "", c.offset + Glyph.widths c.rest, {}⟩]) := by
  have hlength : c.rest.length = inner.length + 2 := by simp [hrest]
  have hlaterPool : (c.advanceBy c.rest.length).pool = [] :=
    (moves_advanceBy _ c : Moves 0 _ _).walks.pool_eq.trans hpool
  have hscan : c.scan = ({ c.advanceBy c.rest.length with pending := true },
      ⟨.string, String.ofList ('"' :: (inner ++ ['"'])), c.offset, {}⟩) := by
    rw [scan_code hpool hinText, code_string hrest hmixed, quoted_of_spells h (by decide) hrest,
      closing, hauto, ← hlaterPool, hlength]
    rfl
  rw [← hlength]
  exact scanAll_single (by simp [hrest]) hinText hpool (by rintro ⟨⟩) hscan

/-- The source that is the literal of a text is one string, with an inserted semicolon behind it.
All that is reported are the byte order marks of the text, which its literal does not escape. -/
theorem scanAll_quote (file : SourceFile) (text : String)
    (hsize : file.size = (Text.quote text).utf8ByteSize) :
    ∃ c, start? file {} (Glyph.ofBytes (utf8 (Text.quote text))) = .ok c ∧
      c.scanAll.2 = [⟨.string, Text.quote text, 0, {}⟩,
        ⟨.semicolon, "\n", (Text.quote text).utf8ByteSize, { inserted := true }⟩,
        ⟨.eof, "", (Text.quote text).utf8ByteSize, {}⟩] ∧
      c.scanAll.1.errors.map (·.cause) =
        List.replicate (text.toList.count byteOrderMark) .illegalByteOrderMark := by
  let c := start file {} (Glyph.ofBytes (utf8 (Text.quote text)))
  have hglyphs : Glyph.ofBytes (utf8 (Text.quote text)) = Glyph.ofText (Text.quote text) :=
    Glyph.ofBytes_toUTF8 _
  have hsplit : Glyph.ofText (Text.quote text) =
      .char '"' :: ((text.toList.flatMap quotedChar).map .char ++ [.char '"']) := by
    rw [Glyph.ofText, Text.quote, String.toList_ofList]
    simp
  have hwidths : Glyph.widths (Glyph.ofText (Text.quote text)) = (Text.quote text).utf8ByteSize :=
    hglyphs ▸ Glyph.widths_ofBytes _
  have hstart : c = { file, options := {}, rest := Glyph.ofText (Text.quote text) } := by
    refine (start_fit fun g hg => ?_).trans (by rw [hglyphs])
    rw [hglyphs, hsplit] at hg
    cases hg
    exact ⟨'"', rfl, by decide⟩
  have hrest : c.rest = Glyph.ofText (Text.quote text) := by rw [hstart]
  have htext : c.IsText := by
    intro g hg
    rw [hrest] at hg
    obtain ⟨ch, -, rfl⟩ := List.mem_map.1 hg
    exact ⟨ch, rfl⟩
  have hscan := scanAll_string (spells_quote text.toList) (by rw [hstart]) (by rw [hstart])
    (by rw [hstart]) (by rw [hstart]) (hrest.trans hsplit)
  rw [hrest, hwidths, show c.offset = 0 by rw [hstart], Nat.zero_add] at hscan
  refine ⟨c, if_pos (hsize.trans (hglyphs ▸ hwidths.symm)), by rw [hscan]; rfl, ?_⟩
  have herrors : c.scanAll.1.errors =
      (c.advanceBy ((text.toList.flatMap quotedChar).length + 2)).errors := by rw [hscan]
  have hmarks : (c.rest.tail.take ((text.toList.flatMap quotedChar).length + 2)).count
      (.char byteOrderMark) = text.toList.count byteOrderMark := by
    have hchar : Function.Injective Glyph.char := fun _ _ => Glyph.char.inj
    rw [hrest, hsplit, List.tail_cons, List.take_of_length_le (by simp), List.count_append,
      List.count_map_of_injective _ _ hchar, count_quote]
    rfl
  rw [herrors, causes_advanceBy htext, hmarks, show c.errors = [] by rw [hstart]]
  rfl

/-- A text with a quote, a tab and a character past ASCII. -/
theorem scanAll_quote_tab : ∃ c,
    start? ⟨"main", 1, 15, [0]⟩ {} (Glyph.ofBytes (utf8 (Text.quote "a\"\té\x07"))) = .ok c ∧
      c.scanAll.1.errors.map (·.cause) = [] := by
  obtain ⟨c, hstart, -, herrors⟩ :=
    scanAll_quote ⟨"main", 1, 15, [0]⟩ "a\"\té\x07" (by decide +kernel)
  exact ⟨c, hstart, herrors⟩

/-- A text whose literal is not read without an error. -/
theorem scanAll_quote_mark : ∃ c,
    start? ⟨"main", 1, 5, [0]⟩ {} (Glyph.ofBytes (utf8 (Text.quote "\uFEFF"))) = .ok c ∧
      c.scanAll.1.errors ≠ [] := by
  refine ⟨start ⟨"main", 1, 5, [0]⟩ {} (Glyph.ofBytes (utf8 (Text.quote "\uFEFF"))), ?_, ?_⟩
  · exact if_pos (by decide +kernel)
  · decide +kernel

end Cursor

end TemplateScript
