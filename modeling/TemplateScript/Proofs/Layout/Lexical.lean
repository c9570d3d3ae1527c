import TemplateScript.Proofs.Cursor.NumberEnd
import TemplateScript.Proofs.Cursor.Raw
import TemplateScript.Proofs.Cursor.Semicolon
import TemplateScript.Proofs.Recovery.Tokens

/-!
# Lexemes before a blank

A lexeme that was read without an error is read alike where a blank or nothing stands behind it,
whatever stood behind it before. So it is a word of its own, that any cursor reads as the same token
if there is a blank behind it.
-/

namespace TemplateScript

variable {word tail rest front back behind : List Glyph}

/-- What a token is but for where it stands. -/
def Token.face (t : Token) : Token.Face := ⟨t.kind, t.literal⟩

namespace Cursor

variable {c d later : Cursor} {g : Glyph}

/-- Two cursors stand before one word, and behind it the second has a blank or nothing. -/
structure Respaced (c d : Cursor) (word tail rest : List Glyph) : Prop where
  rest_eq : c.rest = word ++ tail
  spaced_eq : d.rest = word ++ rest
  ends : EndsWord rest
  options_eq : d.options = c.options

theorem EndsWord.follows (h : EndsWord rest) (back : List Glyph) : Number.Follows back rest :=
  fun g hg => .inl (h g hg)

/-- The text of the word is the same. -/
theorem Respaced.textTo_eq (h : c.Respaced d word tail rest) (hlater : later.rest = tail) :
    d.textTo (d.advanceBy word.length) = c.textTo later := by
  rw [textTo, textTo, advanceBy_rest, h.spaced_eq, List.drop_left, h.rest_eq, hlater,
    List.length_append, List.length_append, Nat.add_sub_cancel, Nat.add_sub_cancel, List.take_left,
    List.take_left]

/-- The body of a number that is respaced. -/
theorem numberDigits_eq (hdigits : c.numberBody.hasDigits = true) :
    c.numberDigits = c.advanceBy c.numberBody.length := if_pos hdigits

/-- A number without a last letter. -/
theorem numberEnd_none (hdigits : c.numberBody.hasDigits = true)
    (hsuffix : Number.suffixKind? c.numberBody (c.rest.drop c.numberBody.length) = none) :
    c.numberEnd = (c.advanceBy c.numberBody.length, c.numberBody.kind) := by
  rw [numberEnd, numberDigits_eq hdigits, advanceBy_rest, hsuffix]

/-- A number with a last letter. -/
theorem numberEnd_some {kind : Token.Kind} (hdigits : c.numberBody.hasDigits = true)
    (hsuffix : Number.suffixKind? c.numberBody (c.rest.drop c.numberBody.length) = some kind) :
    c.numberEnd = (c.advanceBy (c.numberBody.length + 1), kind) := by
  rw [numberEnd, numberDigits_eq hdigits, advanceBy_rest, hsuffix, advanceBy_add]
  rfl

/-- What is found of a number does not change before what follows. -/
theorem numberBody_eq (hback : c.rest = front ++ back) (hbehind : d.rest = front ++ behind)
    (hfollows : Number.Follows back behind) (hoptions : d.options = c.options)
    (hlength : c.numberBody.length = front.length) : d.numberBody = c.numberBody := by
  unfold numberBody at hlength ⊢
  rw [hback] at hlength ⊢
  rw [hbehind, hoptions]
  exact hfollows.body_eq _ hlength

theorem Respaced.numberEnd_eq (h : c.Respaced d word tail rest)
    (hdigits : c.numberBody.hasDigits = true) (hlater : c.numberEnd.1.rest = tail) :
    d.numberEnd = (d.advanceBy word.length, c.numberEnd.2) := by
  have hsplit : c.rest.take c.numberBody.length ++ c.rest.drop c.numberBody.length = c.rest :=
    List.take_append_drop ..
  have hlength : c.numberBody.length = (c.rest.take c.numberBody.length).length :=
    (List.length_take_of_le (Number.body_length_le ..)).symm
  generalize c.rest.take c.numberBody.length = front at hsplit hlength
  cases hsuffix : Number.suffixKind? c.numberBody (c.rest.drop c.numberBody.length) with
  | none =>
    rw [numberEnd_none hdigits hsuffix] at hlater ⊢
    rw [advanceBy_rest] at hlater
    rw [hlater] at hsplit
    obtain rfl : front = word := List.append_cancel_right (hsplit.trans h.rest_eq)
    have hbody := numberBody_eq h.rest_eq h.spaced_eq (h.ends.follows tail) h.options_eq hlength
    have hnone : Number.suffixKind? d.numberBody (d.rest.drop d.numberBody.length) = none := by
      rw [hbody, hlength, h.spaced_eq, List.drop_left]
      exact h.ends.endsNumber.suffixKind?_eq _
    rw [numberEnd_none (hbody ▸ hdigits) hnone, hbody, hlength]
  | some kind =>
    rw [numberEnd_some hdigits hsuffix] at hlater ⊢
    obtain ⟨g, more, hdrop, hg, hkind⟩ := Number.suffixKind?_cons hsuffix
    obtain rfl : more = tail := by
      rw [advanceBy_rest, ← List.drop_drop, hdrop] at hlater
      exact hlater
    rw [hdrop] at hsplit
    obtain rfl : front ++ [g] = word := by
      have happend : (front ++ [g]) ++ more = word ++ more := by
        rw [List.append_assoc]
        exact hsplit.trans h.rest_eq
      exact List.append_cancel_right happend
    have hspaced : d.rest = front ++ g :: rest := by
      rw [h.spaced_eq, List.append_assoc]
      rfl
    have hfollows : Number.Follows (g :: more) (g :: rest) := by
      rintro g' ⟨⟩
      exact .inr ⟨hg, rfl⟩
    have hbody := numberBody_eq hsplit.symm hspaced hfollows h.options_eq hlength
    have hsome : Number.suffixKind? d.numberBody (d.rest.drop d.numberBody.length) = some kind := by
      rw [hbody, hlength, hspaced, List.drop_left]
      exact hkind rest
    rw [numberEnd_some (hbody ▸ hdigits) hsome, hbody, hlength, List.length_append]
    rfl

/-- A number with nothing behind it that spoils it. -/
theorem number_of_end (h : wordRun c.numberEnd.1.rest = 0) :
    c.number = (c.numberEnd.1, ⟨c.numberEnd.2, c.textTo c.numberEnd.1, c.offset, {}⟩) := by
  rw [number_eq]
  dsimp only
  rw [if_pos h]

/-- A number is read alike before a blank. -/
theorem Respaced.number_eq (h : c.Respaced d word tail rest) (hlater : c.number.1.rest = tail)
    (herrors : c.number.1.errors = []) :
    d.number = (d.advanceBy word.length, { c.number.2 with pos := d.offset }) := by
  have hextra : wordRun c.numberEnd.1.rest = 0 := by
    by_contra hextra
    rw [Cursor.number_eq] at herrors
    dsimp only at herrors
    rw [if_neg hextra] at herrors
    simp [report] at herrors
  rw [number_of_end hextra] at hlater herrors ⊢
  have hdigits : c.numberBody.hasDigits = true := by
    by_contra hdigits
    have hmoves : c.numberDigits.Moves 0 c.numberEnd.1 := numberDigits_moves c
    have hgrow := hmoves.walks.reaches.errors_grow
    rw [herrors, numberDigits, if_neg hdigits] at hgrow
    have hnone := List.prefix_nil.1 hgrow
    simp [report] at hnone
  have hend := h.numberEnd_eq hdigits hlater
  have hrest : d.numberEnd.1.rest = rest := by
    rw [hend, advanceBy_rest, h.spaced_eq, List.drop_left]
  have hread := number_of_end (c := d) (hrest.symm ▸ h.ends.endsNumber.wordRun_eq)
  rw [hread, hend]
  dsimp only
  rw [h.textTo_eq hlater]

/-! ### Raw text -/

/-- Raw text is read alike before a blank. -/
theorem Respaced.raw_eq (h : c.Respaced d word tail rest) (hpos : 0 < c.fence)
    (hlater : c.raw.1.rest = tail) (herrors : c.raw.1.errors = []) :
    d.raw = (d.advanceBy word.length, { c.raw.2 with pos := d.offset }) := by
  rw [Cursor.raw_eq] at hlater herrors ⊢
  dsimp only at hlater herrors
  have hends := rawEnds_of_isClear hpos (isClear_of_errors herrors)
  have hsize : c.rawSize = word.length := by
    have hle := hends.rawSize_le
    rw [rawEnd_of_ends hends, advanceBy_rest] at hlater
    have hlength := congrArg List.length hlater
    rw [List.length_drop] at hlength
    rw [h.rest_eq, List.length_append] at hlength hle
    omega
  have hlong := c.fence_le_rawSize
  have hfence : d.fence = c.fence := by
    unfold fence at hlong ⊢
    rw [h.spaced_eq]
    rw [hsize, h.rest_eq] at hlong
    rw [h.rest_eq]
    refine Glyph.countWhile_cut hlong fun g hg => .inl ?_
    rcases h.ends g hg with rfl | rfl <;> rfl
  have hdrop (more : List Glyph) : (word ++ more).drop c.fence = word.drop c.fence ++ more :=
    List.drop_append_of_le_length (hsize ▸ hlong)
  have hinside (hne : c.fence ≠ 2) : d.inside = c.inside := by
    have hfits : c.inside + c.fence ≤ (word.drop c.fence).length := by
      rw [List.length_drop, ← hsize, rawSize, if_neg hne]
      omega
    unfold inside at hfits ⊢
    rw [h.rest_eq, hdrop] at hfits
    rw [hfence, h.spaced_eq, h.rest_eq, hdrop, hdrop]
    refine Glyph.countUntil_cut hpos (fun word hword more more' => ?_) hfits
    have hreplicate : (List.replicate c.fence fenceGlyph).length ≤ word.length := by
      rwa [List.length_replicate]
    rw [Glyph.isPrefixOf_cut hreplicate, Glyph.isPrefixOf_cut hreplicate]
  have hsize' : d.rawSize = word.length := by
    rw [← hsize, rawSize, rawSize, hfence]
    split
    · rfl
    · next hne => rw [hinside hne]
  have hends' : d.RawEnds := by
    intro hne
    rw [hfence] at hne
    rw [hinside hne, hfence, h.spaced_eq, List.length_drop, List.length_append, ← hsize, rawSize,
      if_neg hne]
    omega
  rw [Cursor.raw_eq, rawEnd_of_ends hends', hsize', h.textTo_eq hlater, rawKind, rawKind, hfence]

/-! ### Quoted tokens -/

/-- What stands between quotes is respaced with them. -/
theorem Respaced.quotes (h : c.Respaced d word tail rest) {quote : Char} {inner : List Char}
    (hc : c.rest = .char quote :: (inner.map .char ++ .char quote :: tail)) :
    word.length = inner.length + 2 ∧
      d.rest = .char quote :: (inner.map .char ++ .char quote :: rest) := by
  have hword : word = .char quote :: (inner.map .char ++ [.char quote]) := by
    refine List.append_cancel_right (h.rest_eq.symm.trans (hc.trans ?_))
    simp
  rw [h.spaced_eq, hword]
  simp

/-- What is quoted is read alike before a blank. -/
theorem Respaced.quoted_eq (h : c.Respaced d word tail rest) {quote : Char}
    (hquote : quote ≠ '\n' ∧ quote ≠ '\\') (htext : c.IsText)
    (hhead : c.rest.head? = some (.char quote)) (hlater : (c.quoted quote).1.rest = tail)
    (herrors : (c.quoted quote).1.errors = []) :
    d.quoted quote = (d.advanceBy word.length, { (c.quoted quote).2 with pos := d.offset }) := by
  obtain ⟨inner, text, hspells, hinner⟩ :=
    exists_spells_string htext hhead (isClear_of_errors herrors)
  rw [hlater] at hinner
  obtain ⟨hlength, hspaced⟩ := h.quotes hinner
  rw [quoted_of_spells hspells hquote hinner, quoted_of_spells hspells hquote hspaced, hlength]

/-- A character is read alike before a blank. -/
theorem Respaced.char_eq (h : c.Respaced d word tail rest) (htext : c.IsText)
    (hhead : c.rest.head? = some (.char '\'')) (hlater : c.char.1.rest = tail)
    (herrors : c.char.1.errors = []) :
    d.char = (d.advanceBy word.length, { c.char.2 with pos := d.offset }) := by
  cases hoff : c.options.charAsString with
  | true =>
    have hc : c.char = c.quoted '\'' := if_pos hoff
    have hd : d.char = d.quoted '\'' := if_pos (h.options_eq ▸ hoff)
    rw [hc] at hlater herrors ⊢
    rw [hd]
    exact h.quoted_eq (by decide) htext hhead hlater herrors
  | false =>
    obtain ⟨inner, ch, hspells, hinner⟩ :=
      exists_spells_one htext hoff hhead (isClear_of_errors herrors)
    rw [hlater] at hinner
    obtain ⟨hlength, hspaced⟩ := h.quotes hinner
    rw [char_of_spells hspells hoff hinner,
      char_of_spells hspells (h.options_eq ▸ hoff) hspaced, hlength]

/-! ### Words and marks -/

/-- A word is read alike before a blank. -/
theorem Respaced.word_eq (h : c.Respaced d word tail rest) (hlater : c.word.1.rest = tail) :
    d.word = (d.advanceBy word.length, { c.word.2 with pos := d.offset }) := by
  have hlast : (c.advanceBy (wordRun c.rest)).rest = tail := hlater
  have hc : wordRun c.rest = word.length := by
    have hle : wordRun c.rest ≤ c.rest.length := (List.takeWhile_prefix _).length_le
    have hlength := congrArg List.length hlast
    rw [advanceBy_rest, List.length_drop] at hlength
    rw [h.rest_eq, List.length_append] at hlength hle
    rw [h.rest_eq]
    omega
  have hd : wordRun d.rest = word.length := by
    rw [h.rest_eq] at hc
    rw [h.spaced_eq, ← hc]
    refine Glyph.countWhile_cut (Nat.le_of_eq hc) fun g hg => .inl ?_
    exact h.ends.isLetter_eq g hg
  have htext := h.textTo_eq hlast
  rw [Cursor.word, hd, htext, Cursor.word]

theorem EndsWord.isPrefixOf_eq (h : EndsWord rest) {mark : List Glyph}
    (hmark : .char ' ' ∉ mark ∧ .char '\n' ∉ mark) (word : List Glyph) :
    mark.isPrefixOf (word ++ rest) = mark.isPrefixOf word := by
  induction mark generalizing word with
  | nil => rfl
  | cons g mark ih =>
    simp only [List.mem_cons, not_or] at hmark
    cases word with
    | cons g' word =>
      rw [List.cons_append, List.isPrefixOf_cons_cons, List.isPrefixOf_cons_cons,
        ih ⟨hmark.1.2, hmark.2.2⟩]
    | nil =>
      cases rest with
      | nil => rfl
      | cons g' more =>
        have hne : g ≠ g' := by
          rcases h g' rfl with rfl | rfl
          · exact Ne.symm hmark.1.1
          · exact Ne.symm hmark.2.1
        rw [List.nil_append, List.isPrefixOf_cons_cons, beq_false_of_ne hne, Bool.false_and]
        rfl

theorem EndsWord.startsWith_eq (h : EndsWord rest) {mark : String}
    (hmark : .char ' ' ∉ Glyph.ofText mark ∧ .char '\n' ∉ Glyph.ofText mark) (word : List Glyph) :
    Glyph.startsWith (word ++ rest) mark = Glyph.startsWith word mark := by
  rw [Glyph.startsWith, Glyph.startsWith, h.isPrefixOf_eq hmark]

/-- No mark has a blank in it. -/
theorem spelling_solid : ∀ kind ∈ Token.Kind.marks, .char ' ' ∉ Glyph.ofText kind.spelling ∧
    .char '\n' ∉ Glyph.ofText kind.spelling := by
  decide +kernel

/-- No mark begins with an earlier one. -/
theorem marks_apart : Token.Kind.marks.Pairwise fun kind kind' =>
    Glyph.startsWith (Glyph.ofText kind'.spelling) kind.spelling = false := by
  decide +kernel

theorem startsWith_spelling : ∀ kind ∈ Token.Kind.marks,
    Glyph.startsWith (Glyph.ofText kind.spelling) kind.spelling = true := by
  decide +kernel

/-- A mark before a blank is that mark. -/
theorem EndsWord.mark?_eq (h : EndsWord rest) {kind : Token.Kind}
    (hkind : kind ∈ Token.Kind.marks) :
    mark? (Glyph.ofText kind.spelling ++ rest) = some kind := by
  obtain ⟨earlier, later, hmarks⟩ := List.append_of_mem hkind
  rw [mark?, List.find?_eq_some_iff_append]
  refine ⟨?_, earlier, later, hmarks, fun kind' hkind' => ?_⟩
  · rw [h.startsWith_eq (spelling_solid kind hkind), startsWith_spelling kind hkind, Bool.true_and]
    by_cases hselector : kind = .nullishSelector
    · rw [hselector]
      cases rest with
      | nil => rfl
      | cons g more => rcases h g rfl with rfl | rfl <;> rfl
    · rw [decide_eq_false hselector]
      rfl
  · have hapart := marks_apart
    rw [hmarks, List.pairwise_append] at hapart
    have hmem : kind' ∈ Token.Kind.marks := by
      rw [hmarks]
      exact List.mem_append_left _ hkind'
    rw [h.startsWith_eq (spelling_solid kind' hmem),
      hapart.2.2 kind' hkind' kind List.mem_cons_self]
    rfl

theorem marks_begin : ∀ kind ∈ Token.Kind.marks,
    Number.startsWithDigit (Glyph.ofText kind.spelling).tail = false ∧
      Glyph.startsWith (Glyph.ofText kind.spelling) "//" = false ∧
      Glyph.startsWith (Glyph.ofText kind.spelling) "/*" = false := by
  decide +kernel

/-! ### Lexemes -/

theorem atWord_cons {more : List Glyph} (hrest : c.rest = g :: more) : c.atWord = g.isLetter := by
  rw [atWord, hrest]
  rfl

/-- How a lexeme is read. -/
inductive LexemeRead (c : Cursor) (g : Glyph) : (Cursor → Cursor × Token) → Prop
  | word (hword : c.atWord = true) : LexemeRead c g Cursor.word
  | number (hword : c.atWord = false) (hnumber : c.atNumber = true) : LexemeRead c g number
  | quoted (hword : c.atWord = false) (hnumber : c.atNumber = false) (hg : g = .char '"') :
    LexemeRead c g (quoted '"')
  | char (hword : c.atWord = false) (hnumber : c.atNumber = false) (hg : g = .char '\'') :
    LexemeRead c g char
  | raw (hword : c.atWord = false) (hnumber : c.atNumber = false) (hg : g = fenceGlyph) :
    LexemeRead c g raw
  | mark {kind : Token.Kind} (hword : c.atWord = false) (hnumber : c.atNumber = false)
    (hg : g ∉ [.char '"', .char '\'', fenceGlyph]) (hmark : mark? c.rest = some kind) :
    LexemeRead c g (mark · kind)

/-- A lexeme is what its reader makes of it. -/
theorem LexemeRead.lexeme_eq {read : Cursor → Cursor × Token} (h : c.LexemeRead g read) :
    c.lexeme g = c.closing (read c) := by
  cases h with
  | word hword => rw [lexeme, if_pos hword]
  | number hword hnumber => rw [lexeme, hword, if_neg Bool.false_ne_true, if_pos hnumber]
  | quoted hword hnumber hg =>
    rw [lexeme, hword, hnumber, if_neg Bool.false_ne_true, if_neg Bool.false_ne_true, if_pos hg]
  | char hword hnumber hg =>
    rw [lexeme, hword, hnumber, if_neg Bool.false_ne_true, if_neg Bool.false_ne_true,
      if_neg (by rw [hg]; decide), if_pos hg]
  | raw hword hnumber hg =>
    rw [lexeme, hword, hnumber, if_neg Bool.false_ne_true, if_neg Bool.false_ne_true,
      if_neg (by rw [hg]; decide), if_neg (by rw [hg]; decide), if_pos hg]
  | mark hword hnumber hg hmark =>
    simp only [List.mem_cons, List.not_mem_nil, or_false, not_or] at hg
    rw [lexeme, hword, hnumber, if_neg Bool.false_ne_true, if_neg Bool.false_ne_true, if_neg hg.1,
      if_neg hg.2.1, if_neg hg.2.2, hmark]

/-- A lexeme that is none is reported. -/
theorem exists_lexemeRead (herrors : (c.lexeme g).1.errors = []) :
    ∃ read, c.LexemeRead g read := by
  cases hword : c.atWord with
  | true => exact ⟨_, .word hword⟩
  | false =>
    cases hnumber : c.atNumber with
    | true => exact ⟨_, .number hword hnumber⟩
    | false =>
      by_cases hstring : g = .char '"'
      · exact ⟨_, .quoted hword hnumber hstring⟩
      by_cases hchar : g = .char '\''
      · exact ⟨_, .char hword hnumber hchar⟩
      by_cases hraw : g = fenceGlyph
      · exact ⟨_, .raw hword hnumber hraw⟩
      cases hmark : mark? c.rest with
      | some kind => exact ⟨_, .mark hword hnumber (by simp [hstring, hchar, hraw]) hmark⟩
      | none =>
        rw [lexeme, hword, hnumber, if_neg Bool.false_ne_true, if_neg Bool.false_ne_true,
          if_neg hstring, if_neg hchar, if_neg hraw, hmark] at herrors
        simp [stray, report] at herrors

theorem atNumber_cons {more : List Glyph} (hrest : c.rest = g :: more) :
    c.atNumber = (g.isDecimalDigit || (g = .char '.' && Number.startsWithDigit more)) := by
  rw [atNumber, hrest]
  simp [Number.startsWithDigit]

/-- A number is no shorter than what is found of it before its last letter. -/
theorem Respaced.numberBody_le (h : c.Respaced d word tail rest) (hlater : c.number.1.rest = tail) :
    c.numberBody.length ≤ word.length := by
  have hmoves : c.numberDigits.Moves 0 c.number.1 :=
    (numberDigits_moves c).trans (numberEnd_moves c)
  obtain ⟨read, hread⟩ := hmoves.walks.reaches
  have hrest : c.numberDigits.rest = c.rest.drop c.numberBody.length := by
    rw [numberDigits]
    split
    · exact advanceBy_rest _ c
    · exact advanceBy_rest _ c
  have hlength := congrArg List.length (hrest.symm.trans hread.rest_eq)
  have hle : c.numberBody.length ≤ c.rest.length := Number.body_length_le ..
  rw [hlater, List.length_drop, List.length_append] at hlength
  have htotal := congrArg List.length h.rest_eq
  rw [List.length_append] at htotal
  omega

/-- A number that begins with its point has a digit behind it. -/
theorem two_le_numberBody {more : List Glyph} (hrest : c.rest = .char '.' :: more)
    (hdigit : Number.startsWithDigit more = true) : 2 ≤ c.numberBody.length := by
  have hpos := digitRun_pos hdigit
  have hmark : Number.radixMark? (.char '.' :: more) = none := by
    refine Option.eq_none_iff_forall_ne_some.2 fun radix hmark => ?_
    obtain ⟨ch, digits, hglyphs, -⟩ := Number.radixMark?_some hmark
    cases hglyphs
  have hwhole : Number.digitRun 10 (.char '.' :: more) = 0 := rfl
  have hfraction : Number.fractionRun 0 (.char '.' :: more) = 1 + Number.digitRun 10 more := rfl
  rw [numberBody, hrest, Number.body, hmark, hwhole]
  dsimp only
  rw [List.drop_zero, hfraction]
  omega

/-- A mark is as long as its spelling. -/
theorem Respaced.eq_spelling (h : c.Respaced d word tail rest) {kind : Token.Kind}
    (hmark : mark? c.rest = some kind) (hlater : (c.mark kind).1.rest = tail) :
    word = Glyph.ofText kind.spelling := by
  have hfound := List.find?_some hmark
  have hstarts := (Bool.and_eq_true_iff.1 hfound).1
  have hdrop : c.rest.drop kind.spelling.length = tail := by
    rw [← hlater]
    exact (advanceBy_rest _ c).symm
  have hsplit := ofText_append_drop hstarts
  rw [hdrop, h.rest_eq] at hsplit
  exact (List.append_cancel_right hsplit).symm

/-- The reader of a lexeme is the same before a blank. -/
theorem LexemeRead.respaced {read : Cursor → Cursor × Token} (h : c.LexemeRead g read)
    {more : List Glyph} (hword : c.Respaced d (g :: more) tail rest)
    (hlater : (read c).1.rest = tail) : d.LexemeRead g read := by
  have hc : c.rest = g :: (more ++ tail) := hword.rest_eq
  have hd : d.rest = g :: (more ++ rest) := hword.spaced_eq
  have hatWord : d.atWord = c.atWord := (atWord_cons hd).trans (atWord_cons hc).symm
  have hother (hdigit : g.isDecimalDigit = false) (hpoint : g ≠ .char '.') :
      d.atNumber = false := by
    rw [atNumber_cons hd, hdigit, decide_eq_false hpoint]
    rfl
  cases h with
  | word hat => exact .word (hatWord.trans hat)
  | number hat hnumber =>
    refine .number (hatWord.trans hat) ?_
    rw [atNumber_cons hc] at hnumber
    rw [atNumber_cons hd]
    rcases Bool.or_eq_true_iff.1 hnumber with hdigit | hpoint
    · rw [hdigit, Bool.true_or]
    · obtain ⟨hg, hdigit⟩ := Bool.and_eq_true_iff.1 hpoint
      obtain rfl := of_decide_eq_true hg
      have hlong := Nat.le_trans (two_le_numberBody hc hdigit) (hword.numberBody_le hlater)
      cases more with
      | nil =>
        rw [List.length_singleton] at hlong
        omega
      | cons g' more => exact hnumber
  | quoted hat hnumber hg =>
    exact .quoted (hatWord.trans hat) (hother (by rw [hg]; rfl) (by rw [hg]; decide)) hg
  | char hat hnumber hg =>
    exact .char (hatWord.trans hat) (hother (by rw [hg]; rfl) (by rw [hg]; decide)) hg
  | raw hat hnumber hg =>
    exact .raw (hatWord.trans hat) (hother (by rw [hg]; rfl) (by rw [hg]; decide)) hg
  | @mark kind hat hnumber hg hmark =>
    have hkind : kind ∈ Token.Kind.marks := List.mem_of_find?_eq_some hmark
    have hspelling := hword.eq_spelling hmark hlater
    refine .mark (hatWord.trans hat) ?_ hg ?_
    · rw [atNumber_cons hc] at hnumber
      have hsecond := (marks_begin kind hkind).1
      rw [← hspelling, List.tail_cons] at hsecond
      have hnone : Number.startsWithDigit (more ++ rest) = false := by
        cases more with
        | cons g' more => exact hsecond
        | nil =>
          cases rest with
          | nil => rfl
          | cons g' more => rcases hword.ends g' rfl with rfl | rfl <;> rfl
      rw [atNumber_cons hd, (Bool.or_eq_false_iff.1 hnumber).1, hnone, Bool.and_false]
      rfl
    · rw [hword.spaced_eq, hspelling]
      exact hword.ends.mark?_eq hkind

/-- What a reader makes of a lexeme is the same before a blank. -/
theorem LexemeRead.read_eq {read : Cursor → Cursor × Token} (h : c.LexemeRead g read)
    (htext : c.IsText) {more : List Glyph} (hword : c.Respaced d (g :: more) tail rest)
    (hlater : (read c).1.rest = tail) (herrors : (read c).1.errors = []) :
    ∃ nesting, read d = ({ d.advanceBy (g :: more).length with nesting },
      { (read c).2 with pos := d.offset }) := by
  have hhead : c.rest.head? = some g := by
    rw [hword.rest_eq]
    rfl
  cases h with
  | word => exact ⟨_, hword.word_eq hlater⟩
  | number => exact ⟨_, hword.number_eq hlater herrors⟩
  | quoted _ _ hg => exact ⟨_, hword.quoted_eq (by decide) htext (hg ▸ hhead) hlater herrors⟩
  | char _ _ hg => exact ⟨_, hword.char_eq htext (hg ▸ hhead) hlater herrors⟩
  | raw _ _ hg =>
    have hpos : 0 < c.fence := countWhile_pos (by simp [hhead, hg])
    exact ⟨_, hword.raw_eq hpos hlater herrors⟩
  | @mark kind _ _ _ hmark =>
    have hlength : (g :: more).length = kind.spelling.length := by
      rw [hword.eq_spelling hmark hlater, Glyph.ofText, List.length_map, String.length_toList]
    rw [hlength]
    exact ⟨_, rfl⟩

/-- A lexeme does not become a comment before a blank. -/
theorem LexemeRead.beginsLexeme {read : Cursor → Cursor × Token} (h : c.LexemeRead g read)
    (hgap : isGap g = false) {more : List Glyph} (hword : c.Respaced d (g :: more) tail rest)
    (hlater : (read c).1.rest = tail) : Cursor.beginsLexeme (g :: more ++ rest) = true := by
  have hhash : g ≠ .char '#' := by
    rintro rfl
    cases hgap
  have hcomment : Glyph.startsWith (g :: more ++ rest) "//" = false ∧
      Glyph.startsWith (g :: more ++ rest) "/*" = false := by
    by_cases hslash : g = .char '/'
    · have hc := hword.rest_eq
      cases h with
      | word hat =>
        rw [atWord_cons hc, hslash] at hat
        cases hat
      | number _ hnumber =>
        rw [atNumber_cons hc, hslash] at hnumber
        cases hnumber
      | quoted _ _ hg =>
        rw [hslash] at hg
        cases hg
      | char _ _ hg =>
        rw [hslash] at hg
        cases hg
      | raw _ _ hg =>
        rw [hslash] at hg
        cases hg
      | @mark kind _ _ _ hmark =>
        have hkind : kind ∈ Token.Kind.marks := List.mem_of_find?_eq_some hmark
        rw [hword.eq_spelling hmark hlater, hword.ends.startsWith_eq (by decide),
          hword.ends.startsWith_eq (by decide)]
        exact (marks_begin kind hkind).2
    · exact ⟨Glyph.startsWith_other rfl hslash, Glyph.startsWith_other rfl hslash⟩
  rw [Cursor.beginsLexeme, startsLineComment, List.cons_append]
  rw [List.cons_append] at hcomment
  rw [Glyph.startsWith_other rfl hhash, hcomment.1, hcomment.2, List.head?_cons, Option.any_some,
    hgap]
  rfl

/-- A word that is read as one token, whatever stands behind the blank behind it. -/
structure Lexical (o : ScanOptions) (word : List Glyph) (f : Token.Face) : Prop where
  fit : ∀ g ∈ word, g.IsFit
  isOuter_eq : f.kind.isOuter = false
  legal : f.kind ≠ .illegal
  ne_nil : word ≠ []
  begins : ∀ rest, EndsWord rest → Cursor.beginsLexeme (word ++ rest) = true
  reads : ∀ (d : Cursor) (g : Glyph) (more rest : List Glyph), d.options = o →
    word = g :: more → EndsWord rest → d.rest = word ++ rest →
      ∃ nesting, d.lexeme g =
        d.closing ({ d.advanceBy word.length with nesting }, f.placed d.offset)

/-- A lexeme is no line break, so only its kind and its text tell it. -/
theorem lexeme_face (hrest : c.rest = g :: rest) (htext : c.IsText) (hbreak : g ≠ .char '\n') :
    (c.lexeme g).2.face.flags = (c.lexeme g).2.flags := by
  have hliteral : (c.lexeme g).2.literal ≠ "\n" := by
    intro hliteral
    have hglyphs := lexeme_glyphs htext hrest
    rw [Token.glyphs_of_literal (lexeme_isWritten c g) (by rw [hliteral]; decide), hliteral,
      hrest] at hglyphs
    exact hbreak (List.cons.inj hglyphs).1.symm
  rw [lexeme_flags, Token.Face.flags, Token.face, decide_eq_false hliteral, Bool.and_false]

/-- A lexeme that was read without an error is one word. -/
theorem lexical_lexeme (hrest : c.rest = g :: rest) (hfit : ∀ g ∈ c.rest, g.IsFit)
    (hgap : isGap g = false) (herrors : (c.lexeme g).1.errors = []) :
    Lexical c.options (c.lexeme g).2.glyphs (c.lexeme g).2.face := by
  have htext : c.IsText := fun g hg => (hfit g hg).imp fun _ h => h.1
  have hglyphs := lexeme_glyphs htext hrest
  have hlength := lexeme_length_lt hrest
  have hface := lexeme_face hrest htext (by rintro rfl; cases hgap)
  have hlegal : (c.lexeme g).2.kind ≠ .illegal := mt lexeme_illegal (not_not_intro herrors)
  have hkind := lexeme_isOuter c g
  obtain ⟨read, hread⟩ := exists_lexemeRead herrors
  rw [hread.lexeme_eq] at hglyphs hlength hface hlegal hkind herrors ⊢
  change (read c).2.glyphs ++ (read c).1.rest = c.rest at hglyphs
  change Lexical c.options (read c).2.glyphs (read c).2.face
  cases hword : (read c).2.glyphs with
  | nil =>
    rw [hword, List.nil_append] at hglyphs
    exact absurd (congrArg List.length hglyphs) (Nat.ne_of_lt hlength)
  | cons g' more =>
    rw [hword] at hglyphs
    obtain rfl : g' = g := (List.cons.inj (hglyphs.trans hrest)).1
    have hrespaced {d : Cursor} {rest : List Glyph} (hoptions : d.options = c.options)
        (hends : EndsWord rest) (hd : d.rest = g' :: more ++ rest) :
        c.Respaced d (g' :: more) (read c).1.rest rest := ⟨hglyphs.symm, hd, hends, hoptions⟩
    refine ⟨fun g hg => hfit g ?_, hkind, hlegal, List.cons_ne_nil _ _, fun rest hends => ?_, ?_⟩
    · rw [← hglyphs]
      exact List.mem_append_left _ hg
    · exact hread.beginsLexeme hgap
        (hrespaced (d := { c with rest := g' :: more ++ rest }) rfl hends rfl) rfl
    · intro d g more' rest hoptions hsame hends hd
      obtain ⟨rfl, rfl⟩ := List.cons.inj hsame
      have hspaced := hrespaced hoptions hends hd
      have hd' := hread.respaced hspaced rfl
      obtain ⟨nesting, hmake⟩ := hread.read_eq htext hspaced rfl herrors
      refine ⟨nesting, ?_⟩
      change (read c).2.face.flags = (read c).2.flags at hface
      rw [hd'.lexeme_eq, hmake, Token.Face.placed, hface]
      rfl

end Cursor

end TemplateScript
