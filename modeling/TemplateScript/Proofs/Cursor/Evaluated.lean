import TemplateScript.Proofs.Cursor.HasText
import TemplateScript.Proofs.Cursor.Raw
import TemplateScript.Proofs.Grammar.Take

/-!
# Literals that can be evaluated

Reading a literal off a source and taking its value are two passes over the same text, and neither
looks at the other. They agree: whenever nothing is reported for a literal between quotes, it has a
value. That is shown of the lexeme, where it is read. All that is done with a token afterwards adds
to what is reported, so it still holds when the source has been read to its end.
-/

namespace TemplateScript

/-- The kinds of literals between quotes whose value is what they spell. -/
def Token.Kind.isQuoted : Kind → Bool
  | .string | .rawString | .char => true
  | _ => false

/-- The value that a literal between quotes has if it spells a text: the text, or the one character
of it. -/
inductive Value.Quotes : Token.Kind → String → Value → Prop
  | string (text : String) : Quotes .string text (.string text)
  | rawString (text : String) : Quotes .rawString text (.rawString text)
  | char (ch : Char) : Quotes .char (String.singleton ch) (.char ch)

variable {errors more : List ScanError} {t : Token} {literal text : String} {value : Value}

namespace Token

/-- The literal spells a text that makes a value. -/
def HasValue (t : Token) : Prop :=
  ∃ text value, Text.unquote t.literal = some text ∧ Value.Quotes t.kind text value

/-- Of these errors, none lies in the token but those for byte order marks. -/
def IsClear (t : Token) (errors : List ScanError) : Prop :=
  ∀ e ∈ errors, t.pos ≤ e.place.offset → e.place.offset < t.stop →
    e.cause = .illegalByteOrderMark

/-- If the token is a literal between quotes, it has a value unless one of these errors is about it.
-/
def Evaluates (errors : List ScanError) (t : Token) : Prop :=
  t.kind.isQuoted = true → t.IsClear errors → t.HasValue

theorem evaluates_of_kind (h : t.kind.isQuoted = false) : t.Evaluates errors := by
  intro hquoted
  rw [h] at hquoted
  cases hquoted

/-- Nothing that is reported later makes the value doubtful. -/
theorem Evaluates.mono (h : t.Evaluates errors) (hgrow : errors <+: more) : t.Evaluates more :=
  fun hquoted hclear => h hquoted fun e he => hclear e (hgrow.subset he)

end Token

/-- A text that makes a value is the value of its literal. -/
theorem Value.Quotes.ofToken?_eq {kind : Token.Kind} (h : Value.Quotes kind text value)
    (hunquote : Text.unquote literal = some text) :
    Value.ofToken? kind literal = some value := by
  cases h with
  | string => rw [Value.ofToken?, hunquote, Option.map_some]
  | rawString => rw [Value.ofToken?, hunquote, Option.map_some]
  | char ch => rw [Value.ofToken?, Value.char?, hunquote, Option.map_some, String.toList_singleton]

/-- Between backquotes, everything is text but carriage returns. -/
theorem Text.unquote_raw (inner : List Char) :
    Text.unquote (String.ofList (backquote :: (inner ++ [backquote]))) =
      some (String.ofList (inner.filter (· ≠ '\r'))) := by
  unfold unquote
  rw [String.toList_ofList]
  dsimp only
  rw [List.getLast?_concat, List.dropLast_concat, if_neg (not_not_intro rfl), if_pos rfl]

namespace Cursor

variable {c later : Cursor} {g : Glyph} {rest : List Glyph}

/-! ### Lexemes -/

/-- A lexeme ends where the cursor stands behind it. -/
theorem lexeme_stop (htext : c.IsText) (hrest : c.rest = g :: rest) :
    (c.lexeme g).2.stop = (c.lexeme g).1.offset := by
  have hend := (reaches_lexeme c g).end_eq
  rw [← lexeme_glyphs htext hrest, Glyph.widths_append, ← Nat.add_assoc] at hend
  rw [Token.stop, lexeme_pos]
  omega

theorem quoted_hasValue (htext : c.IsText) {quote : Char} (hquote : quote ≠ Text.backquote)
    (hhead : c.rest.head? = some (.char quote))
    (hclear : (c.quoted quote).1.IsClear c.offset (c.quoted quote).1.offset) :
    (c.quoted quote).2.HasValue := by
  obtain ⟨inner, text, hspells, hinner⟩ := exists_spells_string htext hhead hclear
  refine ⟨_, _, ?_, .string (String.ofList text)⟩
  change Text.unquote (c.textTo (c.quoted quote).1) = _
  rw [textTo_of_quotes hinner]
  exact hspells.unquote_eq hquote

theorem char_hasValue (htext : c.IsText) (hhead : c.rest.head? = some (.char '\''))
    (hclear : c.char.1.IsClear c.offset c.char.1.offset) : c.char.2.HasValue := by
  cases hoff : c.options.charAsString with
  | true =>
    have hread : c.char = c.quoted '\'' := if_pos hoff
    rw [hread] at hclear ⊢
    exact quoted_hasValue htext (by decide) hhead hclear
  | false =>
    obtain ⟨inner, ch, hspells, hinner⟩ := exists_spells_one htext hoff hhead hclear
    have hkind : c.char.2.kind = .char := by
      rw [char, hoff]
      rfl
    refine ⟨String.singleton ch, .char ch, ?_, hkind ▸ .char ch⟩
    rw [char_literal, textTo_of_quotes hinner, hspells.unquote_eq (by decide)]
    rfl

theorem raw_hasValue (htext : c.IsText) (hhead : c.rest.head? = some fenceGlyph)
    (hkind : c.rawKind = .rawString) (hclear : c.rawEnd.IsClear c.offset c.rawEnd.offset) :
    c.raw.2.HasValue := by
  have hpos : 0 < c.fence := countWhile_pos (by simp [hhead])
  obtain ⟨between, hbetween⟩ := (rawEnds_of_isClear hpos hclear).exists_between hkind
  have hchars : ∀ g ∈ between, ∃ ch, g = .char ch := by
    intro g hg
    refine htext g ?_
    rw [hbetween]
    exact List.mem_cons_of_mem _ (List.mem_append_left _ hg)
  rw [← Glyph.ofText_text hchars] at hbetween
  have hliteral : c.textTo c.rawEnd = _ := textTo_of_quotes hbetween
  rw [raw_eq, hkind, hliteral]
  exact ⟨_, _, Text.unquote_raw _, .rawString _⟩

/-- No word, number, mark or stray character is a literal between quotes. -/
theorem ofWord_isQuoted (word : String) : (Token.Kind.ofWord word).isQuoted = false := by
  have hkeywords : ∀ kind ∈ Token.Kind.keywords, kind.isQuoted = false := by decide
  unfold Token.Kind.ofWord
  split
  · rfl
  · split
    · rfl
    · cases hfound : Token.Kind.keywords.find? (·.spelling = word) with
      | none => rfl
      | some kind => exact hkeywords kind (List.mem_of_find?_eq_some hfound)

theorem number_isQuoted (c : Cursor) : c.number.2.kind.isQuoted = false := by
  have hkinds : ∀ kind ∈ [Token.Kind.int, .uint, .float, .decimal], kind.isQuoted = false := by
    decide
  rw [number_eq]
  dsimp only
  split
  · exact hkinds _ (numberEnd_kind c)
  · rfl

/-- What is read without a report can be evaluated. -/
theorem lexeme_evaluates (htext : c.IsText) (hrest : c.rest = g :: rest) :
    (c.lexeme g).2.Evaluates (c.lexeme g).1.errors := by
  have hhead : c.rest.head? = some g := by rw [hrest, List.head?_cons]
  have hmarks : ∀ kind ∈ Token.Kind.marks, kind.isQuoted = false := by decide
  have hpos := lexeme_pos c g
  have hstop := lexeme_stop htext hrest
  intro hquoted hclear
  unfold Token.IsClear at hclear
  rw [hpos, hstop] at hclear
  unfold lexeme at hquoted hclear ⊢
  split at hquoted
  · exact absurd hquoted (Bool.eq_false_iff.1 (ofWord_isQuoted _))
  next hword =>
  rw [if_neg hword] at hclear ⊢
  split at hquoted
  · exact absurd hquoted (Bool.eq_false_iff.1 (number_isQuoted c))
  next hnumber =>
  rw [if_neg hnumber] at hclear ⊢
  split at hquoted
  · next hdouble =>
    rw [if_pos hdouble] at hclear ⊢
    exact quoted_hasValue htext (by decide) (hdouble ▸ hhead) hclear
  next hdouble =>
  rw [if_neg hdouble] at hclear ⊢
  split at hquoted
  · next hsingle =>
    rw [if_pos hsingle] at hclear ⊢
    exact char_hasValue htext (hsingle ▸ hhead) hclear
  next hsingle =>
  rw [if_neg hsingle] at hclear ⊢
  split at hquoted
  · next hraw =>
    rw [if_pos hraw] at hclear ⊢
    rw [raw_eq] at hclear
    have hkind : c.rawKind = .rawString := by
      rw [raw_eq] at hquoted
      change c.rawKind.isQuoted = true at hquoted
      unfold rawKind at hquoted ⊢
      split at hquoted
      · next hfence => rw [if_pos hfence]
      · cases hquoted
    exact raw_hasValue htext (hraw ▸ hhead) hkind hclear
  next hraw =>
  split at hquoted
  · next kind hmark =>
    have hfound := hmarks kind (List.mem_of_find?_eq_some hmark)
    exact absurd hquoted (Bool.eq_false_iff.1 hfound)
  · cases hquoted

/-! ### Tokens of a source -/

/-- All tokens that were read at once can be evaluated, as far as nothing is reported. -/
abbrev ReadEvaluates (read : Cursor × Token × List Token) : Prop :=
  ReadAll (Token.Evaluates read.1.errors) read

theorem readEvaluates_single {last : Cursor} (h : t.Evaluates last.errors) :
    ReadEvaluates (last, t, []) := ⟨h, List.forall_mem_nil _⟩

theorem bodyTokens_evaluates (htext : c.IsText) :
    ∀ t ∈ c.bodyTokens.2, t.Evaluates c.bodyTokens.1.errors := by
  fun_induction bodyTokens c with
  | case1 c hrest => exact List.forall_mem_nil _
  | case2 c g rest hrest hcomment ih =>
    exact ih (htext.reaches ((reaches_skipBlanks c).trans (reaches_comment _)))
  | case3 c g rest hrest hcomment more ih =>
    have hblanks := htext.reaches (reaches_skipBlanks c)
    have hgrow := (bodyTokens_pos (c.skipBlanks.lexeme g).1).1.errors_grow
    intro t ht
    rcases List.mem_cons.1 ht with rfl | ht
    · exact (lexeme_evaluates hblanks hrest).mono hgrow
    · exact ih (hblanks.reaches (reaches_lexeme _ g)) t ht

theorem pragma_evaluates (htext : c.IsText) (head : Nat) : ReadEvaluates (c.pragma head) := by
  let size := Glyph.countUntil endsPragma (c.rest.drop head)
  let body := (c.bodyStart head size).bodyTokens
  have hgrow : body.1.errors <+: (c.pragma head).1.errors :=
    (reaches_advanceBy (head + size) { c with errors := body.1.errors }).errors_grow.trans
      (reaches_advance _).errors_grow
  refine ⟨Token.evaluates_of_kind rfl, fun t ht => ?_⟩
  rcases List.mem_append.1 ht with ht | ht
  · exact (bodyTokens_evaluates (htext.bodyStart head size) t ht).mono hgrow
  · rw [List.mem_singleton.1 ht]
    exact Token.evaluates_of_kind rfl

theorem code_evaluates (htext : c.IsText) : ReadEvaluates c.code := by
  fun_induction code c with
  | case1 c start last token hend =>
    refine readEvaluates_single (Token.evaluates_of_kind ?_)
    rcases codeEnd?_kind hend with hkind | hkind <;> rw [hkind] <;> rfl
  | case2 c start _ head => exact pragma_evaluates (htext.reaches (reaches_skipBlanks c)) head
  | case3 | case4 | case5 | case8 => exact readEvaluates_single (Token.evaluates_of_kind rfl)
  | case6 c start =>
    refine readEvaluates_single (Token.evaluates_of_kind ?_)
    rw [comment_kind]
    rfl
  | case7 c start _ _ g rest hrest hcomment hpending hcomments ih =>
    exact ih (htext.reaches ((reaches_skipBlanks c).trans (reaches_comment start)))
  | case9 c start _ _ g rest hrest =>
    exact readEvaluates_single (lexeme_evaluates (htext.reaches (reaches_skipBlanks c)) hrest)

theorem textToken?_evaluates {first : Nat} {blanks kept : List Glyph} {escaped : Bool}
    (hread : textToken? first blanks kept escaped = some t) : t.Evaluates errors := by
  unfold textToken? at hread
  split at hread
  · cases hread
  · rw [← Option.some.inj hread]
    exact Token.evaluates_of_kind rfl

theorem templateText_evaluates (htext : c.IsText) : ReadEvaluates c.templateText := by
  have hdelimiter : c.textDelimiter.2.kind.isQuoted = false := by
    unfold textDelimiter openingDelimiter
    dsimp only
    split <;> rfl
  rw [templateText_eq]
  dsimp only
  split
  · split
    · next htoken =>
      refine ⟨textToken?_evaluates htoken, fun t ht => ?_⟩
      rw [List.mem_singleton.1 ht]
      exact Token.evaluates_of_kind hdelimiter
    · exact readEvaluates_single (Token.evaluates_of_kind hdelimiter)
  · split
    · next htoken => exact readEvaluates_single (textToken?_evaluates htoken)
    · split
      · exact pragma_evaluates (htext.reaches (reaches_textEnd c)) _
      · exact readEvaluates_single (Token.evaluates_of_kind rfl)

/-- The next token can be evaluated, and so can those that wait behind it. -/
theorem scan_evaluates (htext : c.IsText) (hpool : ∀ t ∈ c.pool, t.Evaluates c.errors) :
    c.scan.2.Evaluates c.scan.1.errors ∧ ∀ t ∈ c.scan.1.pool, t.Evaluates c.scan.1.errors := by
  unfold scan
  split
  · next token pool hwait =>
    rw [hwait] at hpool
    exact ⟨hpool token List.mem_cons_self, fun t ht => hpool t (List.mem_cons_of_mem _ ht)⟩
  · dsimp only
    split
    · exact templateText_evaluates htext
    · exact code_evaluates htext

theorem scanToEnd_evaluates (limit : Nat) (htext : c.IsText)
    (hpool : ∀ t ∈ c.pool, t.Evaluates c.errors) :
    ∀ t ∈ (scanToEnd limit c).2, t.Evaluates (scanToEnd limit c).1.errors := by
  induction limit generalizing c with
  | zero => exact List.forall_mem_nil _
  | succ limit ih =>
    obtain ⟨hnow, hwait⟩ := scan_evaluates htext hpool
    rw [scanToEnd]
    dsimp only
    split
    · exact List.forall_mem_singleton.2 hnow
    · intro t ht
      rcases List.mem_cons.1 ht with rfl | ht
      · exact hnow.mono (reaches_scanToEnd limit _).errors_grow
      · exact ih (htext.reaches (reaches_scan c)) hwait t ht

/-! ### Sources -/

/-- A literal whose token has a value is read as that value. -/
theorem literal_run {source : List Glyph} {r : Reader} (hready : r.Ready source)
    (hvalue : Value.ofToken? r.token.kind r.token.literal = some value) :
    ∃ later, Grammar.literal r = .ok (.literal ⟨value, r.token.literal, r.token.pos⟩) later := by
  rcases Parse.nextWithin_run source True r.bound r fun _ => ⟨hready, r.cursor_weight_lt_bound⟩ with
    ⟨later, -, hnext, -⟩ | ⟨hno, -⟩
  · refine ⟨later, ?_⟩
    rw [Grammar.literal, Parse.token_bind, Parse.bind_run_ok (p := Parse.next) hnext, hvalue]
    rfl
  · exact absurd trivial hno

/-- A string, a raw string or a character of a source, which is a text, is evaluated if nothing is
reported between its ends, unless that is a byte order mark: its literal spells a text, which is one
character if the token is a character, and whoever reads the token as a literal gets that value. -/
theorem scanAll_evaluates (file : SourceFile) (options : ScanOptions) (text : String)
    (hsize : file.size = text.utf8ByteSize) :
    ∃ c, start? file options (Glyph.ofBytes (utf8 text)) = .ok c ∧
      ∀ t ∈ c.scanAll.2, t.kind.isQuoted = true → t.IsClear c.scanAll.1.errors →
        ∃ spelled value, Text.unquote t.literal = some spelled ∧
          Value.Quotes t.kind spelled value ∧
          ∀ source (r : Reader), r.Ready source → r.token = t →
            ∃ later, Grammar.literal r = .ok (.literal ⟨value, t.literal, t.pos⟩) later := by
  let c := start file options (Glyph.ofBytes (utf8 text))
  have hwidths : Glyph.widths (Glyph.ofBytes (utf8 text)) = text.utf8ByteSize :=
    Glyph.widths_ofBytes (utf8 text)
  have htext : c.IsText := isText_start file options text
  have hpool : ∀ t ∈ c.pool, t.Evaluates c.errors := by
    rw [start_pool]
    exact List.forall_mem_nil _
  refine ⟨c, if_pos (hsize.trans hwidths.symm), fun t ht hquoted hclear => ?_⟩
  obtain ⟨spelled, value, hunquote, hvalue⟩ :=
    scanToEnd_evaluates c.bound htext hpool t ht hquoted hclear
  refine ⟨spelled, value, hunquote, hvalue, ?_⟩
  rintro source r hready rfl
  exact literal_run hready (hvalue.ofToken?_eq hunquote)

/-- A quote that is escaped between quotes of its own sort. -/
theorem scanAll_evaluates_quote : ∃ c,
    start? ⟨"main", 1, 4, [0]⟩ {} (Glyph.ofBytes (utf8 "'\\''")) = .ok c ∧
      ∃ t ∈ c.scanAll.2, t.kind = .char ∧
        ∃ spelled value, Text.unquote t.literal = some spelled ∧
          Value.Quotes t.kind spelled value := by
  obtain ⟨c, hstart, hvalues⟩ :=
    scanAll_evaluates ⟨"main", 1, 4, [0]⟩ {} "'\\''" (by decide +kernel)
  obtain rfl : start ⟨"main", 1, 4, [0]⟩ {} (Glyph.ofBytes (utf8 "'\\''")) = c :=
    Except.ok.inj ((if_pos (by decide +kernel)).symm.trans hstart)
  have hmem : ⟨.char, "'\\''", 0, {}⟩ ∈
      (start ⟨"main", 1, 4, [0]⟩ {} (Glyph.ofBytes (utf8 "'\\''"))).scanAll.2 := by
    decide +kernel
  have hclear : Token.IsClear ⟨.char, "'\\''", 0, {}⟩
      (start ⟨"main", 1, 4, [0]⟩ {} (Glyph.ofBytes (utf8 "'\\''"))).scanAll.1.errors := by
    unfold Token.IsClear
    decide +kernel
  obtain ⟨spelled, value, hunquote, hvalue, -⟩ := hvalues _ hmem rfl hclear
  exact ⟨_, hstart, _, hmem, rfl, spelled, value, hunquote, hvalue⟩

end Cursor

end TemplateScript
