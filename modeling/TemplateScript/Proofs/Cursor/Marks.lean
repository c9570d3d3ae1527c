import TemplateScript.Proofs.Layout.Lexical

/-!
# Marks and what stands behind them

The longest mark is read, so a mark ends where no other mark goes on with it. Brackets and commas
end whatever stands behind them. Any other mark ends before what is in no mark but at its beginning,
such as a blank, a letter, a digit or a bracket.
-/

namespace TemplateScript

namespace Cursor

variable {c : Cursor} {options : ScanOptions} {pending : Bool} {kind : Token.Kind}
  {rest : List Glyph} {g : Glyph} {n : Nat}

/-- No mark goes on where this one ends. -/
def EndsMark (kind : Token.Kind) (rest : List Glyph) : Prop :=
  ∀ g ∈ rest.head?, ∀ longer ∈ Token.Kind.marks,
    ¬ Glyph.ofText kind.spelling ++ [g] <+: Glyph.ofText longer.spelling

/-- The brackets and the comma, with which no other mark begins. -/
def solidMarks : List Token.Kind := [.lparen, .rparen, .lbrack, .rbrack, .lbrace, .rbrace, .comma]

/-- What stands in a mark behind its beginning. -/
def markTails : List Glyph := ['.', '=', '<', '>', '^', '*', '|', '?', '+', '-', '&'].map .char

theorem EndsMark.of_solid (hkind : kind ∈ solidMarks) : EndsMark kind rest := by
  have hsolid : ∀ kind ∈ solidMarks, ∀ longer ∈ Token.Kind.marks,
      Glyph.ofText kind.spelling <+: Glyph.ofText longer.spelling → longer = kind := by
    decide +kernel
  intro g _ longer hlonger hprefix
  obtain rfl := hsolid kind hkind longer hlonger ((List.prefix_append _ _).trans hprefix)
  have hlength := hprefix.length_le
  rw [List.length_append, List.length_singleton] at hlength
  omega

theorem EndsMark.of_tail (hrest : ∀ g ∈ rest.head?, g ∉ markTails)
    (hkind : kind ∈ Token.Kind.marks) : EndsMark kind rest := by
  have htail : ∀ longer ∈ Token.Kind.marks, ∀ g ∈ (Glyph.ofText longer.spelling).tail,
      g ∈ markTails := by
    decide +kernel
  intro g hg longer hlonger hprefix
  have hpos : 0 < (Glyph.ofText kind.spelling).length := by
    rw [Glyph.ofText, List.length_map, String.length_toList]
    exact spelling_length_pos hkind
  refine hrest g hg (htail longer hlonger g ?_)
  obtain ⟨more, hmore⟩ := hprefix
  rw [← hmore, List.append_assoc, List.tail_append_of_ne_nil (List.length_pos_iff.1 hpos)]
  exact List.mem_append_right _ List.mem_cons_self

theorem startsWith_iff (hkind : kind ∈ Token.Kind.marks) (glyphs : List Glyph) :
    Glyph.startsWith glyphs kind.spelling = true ↔ Glyph.ofText kind.spelling <+: glyphs := by
  have hne : kind.spelling ≠ "" := by
    intro hnone
    have hpos := spelling_length_pos hkind
    rw [hnone] at hpos
    exact absurd hpos (by decide)
  rw [Glyph.startsWith, decide_eq_true hne, Bool.true_and, List.isPrefixOf_iff_prefix]

/-- A mark that ends is read, and none that is longer or shorter, unless it is a selector before a
number. -/
theorem EndsMark.mark?_eq (h : EndsMark kind rest) (hkind : kind ∈ Token.Kind.marks)
    (hselector : kind = .nullishSelector → rest.head?.any Glyph.isDecimalDigit = false) :
    mark? (Glyph.ofText kind.spelling ++ rest) = some kind := by
  obtain ⟨earlier, later, hmarks⟩ := List.append_of_mem hkind
  rw [mark?, List.find?_eq_some_iff_append]
  refine ⟨?_, earlier, later, hmarks, fun kind' hkind' => ?_⟩
  · have hnumber : (decide (kind = .nullishSelector) &&
        ((Glyph.ofText kind.spelling ++ rest).drop 2).head?.any Glyph.isDecimalDigit) = false := by
      by_cases hnullish : kind = .nullishSelector
      · have hdrop : (Glyph.ofText kind.spelling ++ rest).drop 2 = rest := by rw [hnullish]; rfl
        rw [hdrop, hselector hnullish, Bool.and_false]
      · rw [decide_eq_false hnullish, Bool.false_and]
    rw [(startsWith_iff hkind _).2 (List.prefix_append _ _), hnumber]
    rfl
  have hmem : kind' ∈ Token.Kind.marks := by
    rw [hmarks]
    exact List.mem_append_left _ hkind'
  have hapart : ¬ Glyph.ofText kind'.spelling <+: Glyph.ofText kind.spelling := by
    have hpairs := marks_apart
    rw [hmarks, List.pairwise_append] at hpairs
    rw [← startsWith_iff hmem, hpairs.2.2 kind' hkind' kind List.mem_cons_self]
    exact Bool.false_ne_true
  have hnone : Glyph.startsWith (Glyph.ofText kind.spelling ++ rest) kind'.spelling = false := by
    rw [Bool.eq_false_iff, ne_eq, startsWith_iff hmem]
    intro hprefix
    rcases List.prefix_or_prefix_of_prefix hprefix (List.prefix_append _ rest) with hle | hge
    · exact hapart hle
    -- The earlier mark would go on with this one.
    obtain ⟨more, hmore⟩ := hge
    rw [← hmore, List.prefix_append_right_inj] at hprefix
    cases more with
    | nil =>
      rw [List.append_nil] at hmore
      exact hapart (hmore ▸ List.prefix_rfl)
    | cons g more =>
      obtain ⟨behind, rfl⟩ := hprefix
      refine h g rfl kind' hmem ⟨more, ?_⟩
      rw [← hmore, List.append_assoc]
      rfl
  rw [hnone]
  rfl

/-- The marks that are read alike wherever they end. A point may begin a number and a slash a
comment, and a semicolon has a text. -/
def plainMarks : List Token.Kind :=
  Token.Kind.marks.filter (· ∉ [.period, .nullishSelector, .quo, .semicolon])

/-- A mark that ends is one lexeme. -/
theorem lexeme_plainMark (hkind : kind ∈ plainMarks) (hend : EndsMark kind rest)
    (hrest : c.rest = Glyph.ofText kind.spelling ++ rest) :
    ∃ g more, Glyph.ofText kind.spelling ++ rest = g :: more ∧
      beginsLexeme (g :: more) = true ∧
      c.lexeme g = c.closing
        ({ c.advanceBy kind.spelling.length with
          nesting := (c.advanceBy kind.spelling.length).nesting.after kind },
          (Chain.opFace kind).placed c.offset) := by
  obtain ⟨hmem, hplain⟩ := List.mem_filter.1 hkind
  simp only [List.mem_cons, List.not_mem_nil, or_false, not_or, decide_eq_true_eq] at hplain
  have hread := hend.mark?_eq hmem fun hselector => absurd hselector hplain.2.1
  rw [← hrest] at hread
  have hmark := @lexeme_mark c
  rw [atNumber, hread, hrest] at hmark
  cases kind <;>
    first
    | exact ⟨_, _, rfl, rfl, hmark rfl rfl (by decide) rfl (by decide)⟩
    | exact absurd hkind (by decide)

/-- The marks of selections, behind which no digit may stand. -/
def selectorMarks : List Token.Kind := [.period, .nullishSelector]

/-- The mark of a selection is one lexeme before what is no digit. -/
theorem lexeme_selectorMark (hkind : kind ∈ selectorMarks) (hend : EndsMark kind rest)
    (hdigit : rest.head?.any Glyph.isDecimalDigit = false)
    (hrest : c.rest = Glyph.ofText kind.spelling ++ rest) :
    ∃ g more, Glyph.ofText kind.spelling ++ rest = g :: more ∧
      beginsLexeme (g :: more) = true ∧
      c.lexeme g = c.closing
        ({ c.advanceBy kind.spelling.length with
          nesting := (c.advanceBy kind.spelling.length).nesting.after kind },
          (Chain.opFace kind).placed c.offset) := by
  have hmem : ∀ kind ∈ selectorMarks, kind ∈ Token.Kind.marks := by decide
  have hread := hend.mark?_eq (hmem kind hkind) fun _ => hdigit
  rw [← hrest] at hread
  have hmark := @lexeme_mark c
  rw [atNumber, hread, hrest] at hmark
  simp only [selectorMarks, List.mem_cons, List.not_mem_nil, or_false] at hkind
  rcases hkind with rfl | rfl
  · exact ⟨_, _, rfl, rfl, hmark rfl hdigit (by decide) rfl (by decide)⟩
  · exact ⟨_, _, rfl, rfl, hmark rfl rfl (by decide) rfl (by decide)⟩

end Cursor

end TemplateScript
