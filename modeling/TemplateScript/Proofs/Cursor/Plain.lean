import TemplateScript.Proofs.Cursor.Reach

/-!
# Plain code

Where options leave out templates and pragma lines, a cursor reads code and nothing else: tokens
that come one at a time, of kinds that code has, and written out where their kind does not spell
them.
-/

namespace TemplateScript

/-- The options leave nothing but code. -/
structure ScanOptions.IsCode (o : ScanOptions) : Prop where
  mixed_eq : o.mixed = false
  noPragma_eq : o.noPragma = true

/-- The kinds that no lexeme has. -/
def Token.Kind.isOuter : Kind → Bool
  | .eof | .comment | .pragmaStart | .pragmaEnd | .text | .codeBegin | .codeEnd | .valueBegin
  | .valueEnd => true
  | _ => false

/-- A token as code has it, which ends at an offset. -/
structure Token.IsPlain (t : Token) (last : Nat) : Prop where
  kind_ne : t.kind ≠ .pragmaStart ∧ t.kind ≠ .codeEnd
  written : t.kind ∈ Kind.marks ∨ t.kind = .comment ∨ t.kind = .eof ∨ 0 < t.literal.utf8ByteSize
  pos_lt : t.kind = .semicolon ∨ t.kind = .eof ∨ t.pos < last

theorem Glyph.text_ne {glyphs : List Glyph} (h : glyphs ≠ []) : text glyphs ≠ "" := by
  obtain ⟨g, rest, rfl⟩ := List.exists_cons_of_ne_nil h
  intro hempty
  have hchars : charsAfter 0 (g :: rest) = [] := String.ofList_eq_empty_iff.1 hempty
  cases g with
  | char c => cases hchars
  | byte b => cases hchars

namespace Cursor

variable {c later : Cursor}

/-! ### Options -/

theorem skipBlanks_options (c : Cursor) : c.skipBlanks.options = c.options :=
  advanceBy_options _ c

theorem comment_options (c : Cursor) : c.comment.1.options = c.options :=
  (walks_comment c : Walks 0 _ _).options_eq

theorem codeEnd?_eq (h : c.options.IsCode) : c.codeEnd? = none := by
  unfold codeEnd? isDelimited
  simp [h.mixed_eq]

theorem pragmaLine?_eq (h : c.options.IsCode) : c.pragmaLine? = none := by
  unfold pragmaLine?
  simp [h.noPragma_eq]

/-! ### Lexemes -/

/-- A word is a name, a keyword or a brace. -/
theorem ofWord_mem (text : String) :
    Token.Kind.ofWord text ∈ .ident :: .lbrace :: .rbrace :: Token.Kind.keywords := by
  unfold Token.Kind.ofWord
  split
  · simp
  · split
    · simp
    · cases hfound : Token.Kind.keywords.find? (·.spelling = text) with
      | none => exact List.mem_cons_self
      | some kind =>
        have hkeyword := List.mem_of_find?_eq_some hfound
        simp only [Option.getD_some, List.mem_cons, hkeyword, or_true]

theorem ofWord_isOuter (text : String) : (Token.Kind.ofWord text).isOuter = false := by
  have hwords : ∀ kind ∈ Token.Kind.ident :: .lbrace :: .rbrace :: Token.Kind.keywords,
      kind.isOuter = false := by
    decide
  exact hwords _ (ofWord_mem text)

/-- What a number is, if nothing spoils it. -/
theorem numberEnd_kind (c : Cursor) : c.numberEnd.2 ∈ [.int, .uint, .float, .decimal] := by
  have hbody : c.numberBody.kind ∈ [.int, .float, .decimal] := by
    unfold numberBody Number.body
    split
    · exact List.mem_cons_self
    · dsimp only
      split
      · exact List.mem_cons_self
      · split <;> decide
  unfold numberEnd
  split
  · next kind hkind =>
    dsimp only
    unfold Number.suffixKind? at hkind
    split at hkind
    · split at hkind
      · cases hkind
      · rw [← Option.some.inj hkind]
        decide
    · split at hkind
      · rw [← Option.some.inj hkind]
        decide
      · cases hkind
    · cases hkind
  · have hsubset : ∀ kind ∈ [.int, .float, .decimal],
        kind ∈ [Token.Kind.int, .uint, .float, .decimal] := by decide
    exact hsubset _ hbody

theorem number_isOuter (c : Cursor) : c.number.2.kind.isOuter = false := by
  have hkinds : ∀ kind ∈ [Token.Kind.int, .uint, .float, .decimal], kind.isOuter = false := by
    decide
  rw [number_eq]
  dsimp only
  split
  · exact hkinds _ (numberEnd_kind c)
  · rfl

theorem lexeme_isOuter (c : Cursor) (g : Glyph) : (c.lexeme g).2.kind.isOuter = false := by
  have hmarks : ∀ kind ∈ Token.Kind.marks, kind.isOuter = false := by decide
  unfold lexeme
  split
  · exact ofWord_isOuter _
  · split
    · exact number_isOuter c
    · split
      · rfl
      · split
        · unfold closing char
          split <;> rfl
        · split
          · unfold closing raw
            dsimp only
            split
            · rfl
            · split <;> rfl
          · split
            · next kind hkind => exact hmarks kind (List.mem_of_find?_eq_some hkind)
            · rfl

/-- The tokens in the body of a pragma line are lexemes. -/
theorem bodyTokens_isOuter (c : Cursor) : ∀ t ∈ c.bodyTokens.2, t.kind.isOuter = false := by
  fun_induction bodyTokens c with
  | case1 c => simp
  | case2 c _ _ _ _ ih => exact ih
  | case3 c g _ _ _ more ih =>
    intro t ht
    rcases List.mem_cons.1 ht with rfl | ht
    · exact lexeme_isOuter c.skipBlanks g
    · exact ih t ht

theorem textTo_ne (h : later.rest.length < c.rest.length) : c.textTo later ≠ "" := by
  refine Glyph.text_ne (List.ne_nil_of_length_pos ?_)
  rw [List.length_take]
  omega

theorem number_literal (c : Cursor) : c.number.2.literal = c.textTo c.number.1 := by
  rw [number_eq]
  dsimp only
  split <;> rfl

theorem char_literal (c : Cursor) : c.char.2.literal = c.textTo c.char.1 := by
  unfold char
  dsimp only
  split
  · rfl
  · split <;> rfl

/-- The text of a mark is its spelling. -/
theorem mark_text (c : Cursor) (kind : Token.Kind) : (c.mark kind).2.text = kind.spelling := by
  unfold mark Token.text
  dsimp only
  by_cases hsemicolon : kind = .semicolon
  · subst hsemicolon
    rfl
  · rw [if_neg hsemicolon]
    rfl

/-- A lexeme is written out, or it is a mark, or a stray character. -/
theorem lexeme_cases (c : Cursor) (g : Glyph) :
    (∃ read, c.lexeme g = c.closing read ∧ read.2.literal = c.textTo read.1 ∧
      c.Moves 0 read.1) ∨
      (∃ kind, mark? c.rest = some kind ∧ c.lexeme g = c.closing (c.mark kind)) ∨
        c.lexeme g = c.stray g := by
  unfold lexeme
  split
  · exact .inl ⟨c.word, rfl, rfl, moves_word c⟩
  · split
    · exact .inl ⟨c.number, rfl, number_literal c, moves_number c⟩
    · split
      · exact .inl ⟨c.quoted '"', rfl, rfl, moves_quoted _ c⟩
      · split
        · exact .inl ⟨c.char, rfl, char_literal c, moves_char c⟩
        · split
          · exact .inl ⟨c.raw, rfl, rfl, moves_raw c⟩
          · split
            · next kind hkind => exact .inr (.inl ⟨kind, hkind, rfl⟩)
            · exact .inr (.inr rfl)

theorem lexeme_isPlain {g : Glyph} {rest : List Glyph} (hrest : c.rest = g :: rest) :
    (c.lexeme g).2.IsPlain (c.lexeme g).1.offset := by
  have hkind := lexeme_isOuter c g
  have hlength := lexeme_length_lt hrest
  have hlt := (reaches_lexeme c g).offset_lt hlength
  rw [← lexeme_pos c g] at hlt
  refine ⟨⟨fun h => ?_, fun h => ?_⟩, ?_, .inr (.inr hlt)⟩
  · rw [h] at hkind
    cases hkind
  · rw [h] at hkind
    cases hkind
  · obtain ⟨read, hread, hliteral, -⟩ | ⟨kind, hmark, hread⟩ | hread := lexeme_cases c g
    · rw [hread] at hlength ⊢
      have hne : c.textTo read.1 ≠ "" := textTo_ne hlength
      refine .inr (.inr (.inr (Nat.pos_of_ne_zero (mt String.utf8ByteSize_eq_zero_iff.1 ?_))))
      exact hliteral ▸ hne
    · rw [hread]
      exact .inl (List.mem_of_find?_eq_some hmark)
    · rw [hread]
      refine .inr (.inr (.inr ?_))
      exact Nat.pos_of_ne_zero (mt String.utf8ByteSize_eq_zero_iff.1 (by simp [stray]))

theorem insertedSemicolon_isPlain (c : Cursor) (last : Nat) :
    c.insertedSemicolon.IsPlain last := by
  have hmark : Token.Kind.semicolon ∈ Token.Kind.marks := by decide
  exact ⟨⟨by rintro ⟨⟩, by rintro ⟨⟩⟩, .inl hmark, .inl rfl⟩

theorem comment_isPlain (h : c.rest ≠ []) : c.comment.2.IsPlain c.comment.1.offset := by
  have hlt := (reaches_comment c).offset_lt (comment_length_lt c h)
  rw [← comment_pos c] at hlt
  exact ⟨by simp [comment_kind c], .inr (.inl (comment_kind c)), .inr (.inr hlt)⟩

/-- Where there is nothing but code, tokens come one at a time and are those of code. -/
theorem code_isPlain (c : Cursor) (hoptions : c.options.IsCode) :
    c.code.2.2 = [] ∧ c.code.2.1.IsPlain c.code.1.offset := by
  fun_induction code c with
  | case1 c start last token h =>
    rw [codeEnd?_eq ((skipBlanks_options c).symm ▸ hoptions)] at h
    cases h
  | case2 c start _ head h =>
    rw [pragmaLine?_eq ((skipBlanks_options c).symm ▸ hoptions)] at h
    cases h
  | case3 c start => exact ⟨rfl, insertedSemicolon_isPlain start _⟩
  | case4 c start =>
    exact ⟨rfl, ⟨by rintro ⟨⟩, by rintro ⟨⟩⟩, .inr (.inr (.inl rfl)), .inr (.inl rfl)⟩
  | case5 c start => exact ⟨rfl, insertedSemicolon_isPlain start _⟩
  | case6 c start _ _ g rest hrest => exact ⟨rfl, comment_isPlain (by simp [hrest])⟩
  | case7 c start _ _ g rest hrest hcomment hpending hcomments ih =>
    exact ih ((comment_options start).trans (skipBlanks_options c) ▸ hoptions)
  | case8 c start => exact ⟨rfl, insertedSemicolon_isPlain start _⟩
  | case9 c start _ _ g rest hrest => exact ⟨rfl, lexeme_isPlain hrest⟩

end Cursor

end TemplateScript
