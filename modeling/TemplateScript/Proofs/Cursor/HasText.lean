import TemplateScript.Grammar.Literal
import TemplateScript.Proofs.Cursor.Calls

/-!
# Tokens that have a text

A name or a literal has a text wherever it stands: in code, in a template, or in a pragma line. The
text of a keyword or a mark is as long as its spelling, if not longer. For such facts it is enough
to look at lexemes, whatever else a cursor reads.
-/

namespace TemplateScript

/-- A name or a literal has a text. -/
def Token.HasText (t : Token) : Prop :=
  t.kind = .ident ∨ t.kind ∈ Grammar.literalKinds → 0 < t.literal.utf8ByteSize

/-- A keyword or a mark is at least as long as it is spelled. -/
def Token.IsSpelled (t : Token) : Prop :=
  t.kind ∈ Kind.keywords ∨ t.kind ∈ Kind.marks →
    t.kind.spelling.utf8ByteSize ≤ t.text.utf8ByteSize

/-- The kinds that need a text are kinds of lexemes that their kind does not spell. -/
theorem Token.hasText_of_kind {t : Token}
    (h : t.kind.isOuter = true ∨ t.kind ∈ Kind.marks) : t.HasText := by
  have hno : ∀ kind ∈ .ident :: Grammar.literalKinds,
      ¬ (kind.isOuter = true ∨ kind ∈ Kind.marks) := by decide
  exact fun hkind => absurd h (hno _ (List.mem_cons.2 hkind))

/-- The kinds that a text spells are neither those of what stands around code nor of literals. -/
theorem Token.isSpelled_of_kind {t : Token}
    (h : t.kind.isOuter = true ∨ t.kind = .illegal ∨ t.kind ∈ Grammar.literalKinds) :
    t.IsSpelled := by
  have hno : ∀ kind ∈ Kind.keywords ++ Kind.marks,
      ¬ (kind.isOuter = true ∨ kind = .illegal ∨ kind ∈ Grammar.literalKinds) := by decide
  exact fun hkind => absurd h (hno _ (List.mem_append.2 hkind))

namespace Cursor

variable {c : Cursor}

/-! ### What holds of every token -/

/-- A property of lexemes that every other token has. -/
structure Common (P : Token → Prop) : Prop where
  outer {t : Token} (h : t.kind.isOuter = true) : P t
  semicolon (c : Cursor) : P c.insertedSemicolon
  lexeme {c : Cursor} {g : Glyph} {rest : List Glyph} (hrest : c.rest = g :: rest) :
    P (c.lexeme g).2

/-- All tokens that were read at once have the property. -/
def ReadAll (P : Token → Prop) (read : Cursor × Token × List Token) : Prop :=
  P read.2.1 ∧ ∀ t ∈ read.2.2, P t

namespace Common

variable {P : Token → Prop}

theorem single {last : Cursor} {t : Token} (h : P t) : ReadAll P (last, t, []) :=
  ⟨h, fun _ ht => absurd ht List.not_mem_nil⟩

theorem bodyTokens (h : Common P) (c : Cursor) : ∀ t ∈ c.bodyTokens.2, P t := by
  fun_induction Cursor.bodyTokens c with
  | case1 c => simp
  | case2 c _ _ _ _ ih => exact ih
  | case3 c g rest hrest _ more ih =>
    intro t ht
    rcases List.mem_cons.1 ht with rfl | ht
    · exact h.lexeme hrest
    · exact ih t ht

theorem pragma (h : Common P) (c : Cursor) (head : Nat) : ReadAll P (c.pragma head) := by
  refine ⟨h.outer rfl, fun t ht => ?_⟩
  rcases List.mem_append.1 ht with ht | ht
  · exact h.bodyTokens _ t ht
  · rw [List.mem_singleton.1 ht]
    exact h.outer rfl

theorem codeEnd? (h : Common P) {last : Cursor} {token : Token}
    (hread : c.codeEnd? = some (last, token)) : P token := by
  refine h.outer ?_
  rcases codeEnd?_kind hread with hkind | hkind <;> rw [hkind] <;> rfl

theorem code (h : Common P) (c : Cursor) : ReadAll P c.code := by
  fun_induction Cursor.code c with
  | case1 c start last token hend => exact single (h.codeEnd? hend)
  | case2 c start _ head => exact h.pragma start head
  | case4 => exact single (h.outer rfl)
  | case6 c start =>
    refine single (h.outer ?_)
    rw [comment_kind]
    rfl
  | case7 c start _ _ g rest hrest hcomment hpending hcomments ih => exact ih
  | case3 | case5 | case8 => exact single (h.semicolon _)
  | case9 c start _ _ g rest hrest => exact single (h.lexeme hrest)

theorem textToken? (h : Common P) {start : Nat} {blanks kept : List Glyph} {escaped : Bool}
    {token : Token} (hread : Cursor.textToken? start blanks kept escaped = some token) :
    P token := by
  unfold Cursor.textToken? at hread
  split at hread
  · cases hread
  · rw [← Option.some.inj hread]
    exact h.outer rfl

theorem templateText (h : Common P) (c : Cursor) : ReadAll P c.templateText := by
  have hdelimiter : P c.textDelimiter.2 := by
    refine h.outer ?_
    unfold textDelimiter openingDelimiter
    dsimp only
    split <;> rfl
  rw [templateText_eq]
  dsimp only
  split
  · split
    · next htext =>
      refine ⟨h.textToken? htext, fun t ht => ?_⟩
      rw [List.mem_singleton.1 ht]
      exact hdelimiter
    · exact single hdelimiter
  · split
    · next htext => exact single (h.textToken? htext)
    · split
      · exact h.pragma _ _
      · exact single (h.outer rfl)

/-- The next token has the property, and so have those that wait behind it. -/
theorem scan (h : Common P) (hpool : ∀ t ∈ c.pool, P t) :
    P c.scan.2 ∧ ∀ t ∈ c.scan.1.pool, P t := by
  unfold Cursor.scan
  split
  · next token pool hwait =>
    rw [hwait] at hpool
    exact ⟨hpool token List.mem_cons_self, fun t ht => hpool t (List.mem_cons_of_mem _ ht)⟩
  · dsimp only
    split
    · exact h.templateText c
    · exact h.code c

end Common

/-! ### Texts -/

theorem common_hasText : Common Token.HasText where
  outer h := Token.hasText_of_kind (.inl h)
  semicolon c := by
    have hmark : Token.Kind.semicolon ∈ Token.Kind.marks := by decide
    exact Token.hasText_of_kind (.inr hmark)
  lexeme {c g rest} hrest := by
    have houter := lexeme_isOuter c g
    rcases (lexeme_isPlain hrest).written with hmark | hcomment | heof | hpos
    · exact Token.hasText_of_kind (.inr hmark)
    · rw [hcomment] at houter
      cases houter
    · rw [heof] at houter
      cases houter
    · exact fun _ => hpos

/-- Every token that waits has the text it needs. -/
def PoolHasText (c : Cursor) : Prop := ∀ t ∈ c.pool, t.HasText

theorem scan_hasText (h : c.PoolHasText) : c.scan.2.HasText ∧ c.scan.1.PoolHasText :=
  common_hasText.scan h

/-! ### Spellings -/

/-- A word is a keyword that it spells, or a brace, which is no longer than any word. -/
theorem spelling_ofWord_le {word : String} (hne : word ≠ "")
    (h : Token.Kind.ofWord word ∈ Token.Kind.keywords ∨
      Token.Kind.ofWord word ∈ Token.Kind.marks) :
    (Token.Kind.ofWord word).spelling.utf8ByteSize ≤ word.utf8ByteSize := by
  have hpos : 0 < word.utf8ByteSize :=
    Nat.pos_of_ne_zero (mt String.utf8ByteSize_eq_zero_iff.1 hne)
  unfold Token.Kind.ofWord at h ⊢
  split
  · exact hpos
  · split
    · exact hpos
    · next hopens hcloses =>
      rw [if_neg hopens, if_neg hcloses] at h
      cases hfound : Token.Kind.keywords.find? (·.spelling = word) with
      | some kind =>
        have hspelling := List.find?_some hfound
        rw [Option.getD_some, of_decide_eq_true hspelling]
      | none =>
        rw [hfound] at h
        exact absurd h (by decide)

theorem number_isSpelled (c : Cursor) : c.number.2.IsSpelled := by
  have hkinds : ∀ kind ∈ [Token.Kind.int, .uint, .float, .decimal],
      kind = .illegal ∨ kind ∈ Grammar.literalKinds := by decide
  refine Token.isSpelled_of_kind (.inr ?_)
  rw [number_eq]
  dsimp only
  split
  · exact hkinds _ (numberEnd_kind c)
  · exact .inl rfl

theorem common_isSpelled : Common Token.IsSpelled where
  outer h := Token.isSpelled_of_kind (.inl h)
  semicolon _ _ := Nat.le_refl _
  lexeme {c g rest} hrest := by
    have hlength := lexeme_length_lt hrest
    have hliteral {t : Token} (kind : Token.Kind) (hkind : t.kind = kind)
        (hmem : kind ∈ Grammar.literalKinds) : t.IsSpelled :=
      Token.isSpelled_of_kind (.inr (.inr (hkind ▸ hmem)))
    unfold lexeme at hlength ⊢
    split
    · next hword =>
      rw [if_pos hword] at hlength
      have hne : c.textTo c.word.1 ≠ "" := textTo_ne hlength
      have htext : (c.closing c.word).2.text = c.textTo c.word.1 := if_neg hne
      exact fun hkind => htext ▸ spelling_ofWord_le hne hkind
    split
    · exact number_isSpelled c
    split
    · exact hliteral .string rfl (by decide)
    split
    · unfold closing char
      split
      · exact hliteral .string rfl (by decide)
      · exact hliteral .char rfl (by decide)
    split
    · unfold closing raw
      dsimp only
      split
      · exact hliteral .rawString rfl (by decide)
      · split
        · exact hliteral .rawString rfl (by decide)
        · exact hliteral .rawHeredoc rfl (by decide)
    split
    · next kind _ =>
      exact fun _ => Nat.le_of_eq (congrArg String.utf8ByteSize (mark_text c kind).symm)
    · exact Token.isSpelled_of_kind (.inr (.inl rfl))

end Cursor

end TemplateScript
