import TemplateScript.Proofs.Spelling.Basic
import TemplateScript.Proofs.Template.Roundtrip

/-!
# Spellings of names and literals

A name, a literal and a word are one token each, which is read as the tree itself.
-/

namespace TemplateScript

open Cursor Parse Grammar
open Template (Unmarked)

variable {deep : Nested} {K : Token.Outlook} {m : Nat} {f g : Token.Face} {rest : List Token.Face}

/-! ### Texts -/

theorem oneLine_quote {text : String} (h : Unmarked text) : OneLine (Text.quote text) := by
  have hmarks : byteOrderMark ∉ text.toList.flatMap Text.quotedChar := by
    rw [← List.count_eq_zero, count_quote, List.count_eq_zero]
    exact fun hmem => h _ hmem rfl
  have hbreaks : '\n' ∉ text.toList.flatMap Text.quotedChar := by
    intro hmem
    obtain ⟨ch, -, hch⟩ := List.mem_flatMap.1 hmem
    exact lineBreak_not_mem_quotedChar ch hch
  intro ch hch
  rw [Text.quote, String.toList_ofList, List.cons_append, List.mem_cons, List.mem_append,
    List.mem_singleton] at hch
  rcases hch with rfl | hch | rfl
  · decide
  · exact ⟨fun hbreak => hbreaks (hbreak ▸ hch), fun hmark => hmarks (hmark ▸ hch)⟩
  · decide

theorem oneLine_quoteChar {c : Char} (h : c ≠ byteOrderMark) : OneLine (Text.quoteChar c) := by
  have hquoted : ∀ ch ∈ Text.quotedChar c, ch ≠ '\n' ∧ ch ≠ byteOrderMark := by
    have hmark : byteOrderMark ∉ Text.quotedChar c := by
      rw [← List.count_eq_zero, count_quotedChar, if_neg h]
    intro ch hch
    exact ⟨fun hbreak => lineBreak_not_mem_quotedChar c (hbreak ▸ hch),
      fun heq => hmark (heq ▸ hch)⟩
  intro ch hch
  rw [Text.quoteChar, String.toList_ofList, List.cons_append, List.mem_cons, List.mem_append,
    List.mem_singleton] at hch
  rcases hch with rfl | hch | rfl
  · decide
  · split at hch
    · obtain rfl := List.mem_singleton.1 hch
      decide
    split at hch
    · simp only [List.mem_cons, List.not_mem_nil, or_false] at hch
      rcases hch with rfl | rfl <;> decide
    · exact hquoted ch hch
  · decide

/-! ### Names and integers -/

namespace Atom

theorem written (a : Atom) : Written a.tree.print [a.face] := by
  rw [a.print_tree]
  exact ⟨fun _ _ hend => a.lexes rfl hend, a.oneLine⟩

theorem opens (a : Atom) : Opens a.tree.print [a.face] := by
  have hkinds : ∀ kind ∈ [Token.Kind.ident, .int, .uint],
      kind ∈ Token.Kind.operandHeads ∧ kind ≠ .lbrace := by
    decide
  obtain ⟨hhead, hbrace⟩ := hkinds _ a.face_kind
  obtain ⟨ch, chars, htext, hch⟩ := a.exists_first
  rw [a.print_tree]
  exact ⟨ch, chars, a.face, [], htext, rfl, hch, hhead, fun heq => absurd heq hbrace⟩

theorem operand_reads (a : Atom) (hg : g.kind ≠ .lambda) :
    (operand deep).ReadsIn K m (a.face :: g :: rest) (g :: rest)
      fun e => e.unplaced = a.tree := by
  cases a with
  | name x =>
    refine (operand_ident hg).mono ?_
    rintro e ⟨pos, rfl⟩
    rfl
  | integer n =>
    have hkind : integerKind n.isUnsigned ∈ literalKinds := by cases n.isUnsigned <;> decide
    refine (operand_literal hkind n.ofToken?_eq).mono ?_
    rintro e ⟨pos, rfl⟩
    rfl

/-- A name or an integer is spelled. -/
def spelling (a : Atom) : Spelling where
  built := a.tree
  faces := [a.face]
  read := a.tree
  written := a.written
  opens := a.opens
  endsStatement := a.endsStatement
  readsOn _ := .of_operand fun _ _ _ _ hg => a.operand_reads hg
  bare_read := rfl
  print_read := rfl
  isOperation_read := by cases a <;> rfl

end Atom

/-! ### Literals between quotes -/

/-- What stands between two quotes, as the text of a value. -/
structure Quotation where
  kind : Token.Kind
  value : Value
  text : String
  isQuoted : kind ∈ [Token.Kind.string, .char]
  written : Written text [⟨kind, text⟩]
  begins : ∃ quote ∈ ['"', '\''], text.toList.head? = some quote
  ofToken?_eq : Value.ofToken? kind text = some value

namespace Quotation

/-- The quotation of a text without byte order marks. -/
def string (text : String) (h : Unmarked text) : Quotation where
  kind := .string
  value := .string text
  text := Text.quote text
  isQuoted := by decide
  written := ⟨fun _ _ _ => .string rfl (Text.spells_quote text.toList) rfl (oneLine_quote h),
    oneLine_quote h⟩
  begins := ⟨'"', by decide, by rw [Text.quote, String.toList_ofList]; rfl⟩
  ofToken?_eq := congrArg (Option.map Value.string) (Text.unquote_quote text)

theorem written_quoteChar {c : Char} (h : c ≠ byteOrderMark) :
    Written (Text.quoteChar c) [⟨.char, Text.quoteChar c⟩] := by
  obtain ⟨inner, hspells, htext⟩ := Text.exists_spells_quoteChar c
  have hline := oneLine_quoteChar h
  exact ⟨fun _ _ _ => .char rfl rfl hspells htext hline, hline⟩

theorem char?_quoteChar (c : Char) : Value.char? (Text.quoteChar c) = some (.char c) := by
  obtain ⟨inner, hspells, htext⟩ := Text.exists_spells_quoteChar c
  rw [Value.char?, htext, hspells.unquote_eq (by decide), Option.map_some, String.toList_ofList]

/-- The quotation of a character that is no byte order mark. -/
def char (c : Char) (h : c ≠ byteOrderMark) : Quotation where
  kind := .char
  value := .char c
  text := Text.quoteChar c
  isQuoted := by decide
  written := written_quoteChar h
  begins := ⟨'\'', by decide,
    by rw [Text.quoteChar, String.toList_ofList, List.cons_append, List.head?_cons]⟩
  ofToken?_eq := char?_quoteChar c

/-- The tree of a quotation. -/
def tree (q : Quotation) : Expr := Build.literal q.value q.text

theorem opens (q : Quotation) : Opens q.text [⟨q.kind, q.text⟩] := by
  have hkinds : ∀ kind ∈ [Token.Kind.string, .char],
      kind ∈ Token.Kind.operandHeads ∧ kind ≠ .lbrace := by
    decide
  have hquotes : ∀ quote ∈ ['"', '\''], .char quote ∉ markTails :=
    List.forall_mem_cons.2 ⟨by decide, List.forall_mem_singleton.2 (by decide)⟩
  obtain ⟨hhead, hbrace⟩ := hkinds _ q.isQuoted
  obtain ⟨quote, hquote, hfirst⟩ := q.begins
  obtain ⟨chars, htext⟩ := List.head?_eq_some_iff.1 hfirst
  exact ⟨quote, chars, _, [], htext, rfl, hquotes _ hquote, hhead, fun heq => absurd heq hbrace⟩

theorem operand_reads (q : Quotation) :
    (operand deep).ReadsIn K m (⟨q.kind, q.text⟩ :: g :: rest) (g :: rest)
      fun e => e.unplaced = q.tree := by
  have hkinds : ∀ kind ∈ [Token.Kind.string, .char], kind ∈ literalKinds := by decide
  refine (operand_literal (hkinds _ q.isQuoted) q.ofToken?_eq).mono ?_
  rintro e ⟨pos, rfl⟩
  rfl

/-- A quotation is spelled. -/
def spelling (q : Quotation) : Spelling where
  built := q.tree
  faces := [⟨q.kind, q.text⟩]
  read := q.tree
  written := q.written
  opens := q.opens
  endsStatement := by
    have hkinds : ∀ kind ∈ [Token.Kind.string, .char], kind.endsStatement = true := by decide
    exact .singleton (hkinds _ q.isQuoted)
  readsOn _ := .of_operand fun _ _ _ _ _ => q.operand_reads
  bare_read := rfl
  print_read := rfl
  isOperation_read := rfl

end Quotation

/-! ### Words that are expressions -/

/-- A word that is an expression of its own, which has a value or is absent. -/
structure Constant where
  kind : Token.Kind
  tree : Expr
  isConstant : kind ∈ [Token.Kind.trueWord, .falseWord, .yesWord, .noWord, .nilWord]
  print_eq : tree.print = kind.spelling
  isOperation_tree : tree.isOperation = false
  operand_reads : ∀ {deep : Nested} {K : Token.Outlook} {m : Nat} {g : Token.Face}
    {rest : List Token.Face}, (operand deep).ReadsIn K m (⟨kind, kind.spelling⟩ :: g :: rest)
      (g :: rest) fun e => e.unplaced = tree

namespace Constant

/-- The word is used. -/
theorem single_reads {e : Expr} {P : Expr → Prop} (he : P e) :
    (single e).ReadsIn K m (f :: g :: rest) (g :: rest) P :=
  reads_next.bind fun _ _ => reads_pure he

/-- A truth value. -/
def bool : Bool → Constant
  | true =>
    ⟨.trueWord, Build.bool true, by decide, rfl, rfl, reads_token fun _ => single_reads rfl⟩
  | false =>
    ⟨.falseWord, Build.bool false, by decide, rfl, rfl, reads_token fun _ => single_reads rfl⟩

/-- A flag. -/
def flag : Bool → Constant
  | true =>
    ⟨.yesWord, Build.flag true, by decide, rfl, rfl, reads_token fun _ => single_reads rfl⟩
  | false =>
    ⟨.noWord, Build.flag false, by decide, rfl, rfl, reads_token fun _ => single_reads rfl⟩

/-- The absent value. -/
def nil : Constant :=
  ⟨.nilWord, Build.nil, by decide, rfl, rfl, reads_token fun _ => single_reads rfl⟩

variable (c : Constant)

theorem written : Written c.tree.print [⟨c.kind, c.kind.spelling⟩] := by
  have hwords : ∀ kind ∈ [Token.Kind.trueWord, .falseWord, .yesWord, .noWord, .nilWord],
      isWord kind.spelling = true ∧ Token.Kind.ofWord kind.spelling = kind ∧
        kind ∉ [Token.Kind.comment, .illegal] := by
    decide +kernel
  obtain ⟨hword, hof, hlegal⟩ := hwords _ c.isConstant
  rw [c.print_eq]
  exact ⟨fun _ _ hend => .keyword _ c.kind rfl hword hof hlegal hend.isLetter_eq, .of_isWord hword⟩

theorem opens : Opens c.tree.print [⟨c.kind, c.kind.spelling⟩] := by
  have hkind := c.isConstant
  rw [c.print_eq]
  generalize c.kind = kind at hkind
  simp only [List.mem_cons, List.not_mem_nil, or_false] at hkind
  rcases hkind with rfl | rfl | rfl | rfl | rfl <;>
    exact ⟨_, _, _, _, rfl, rfl, by decide, by decide, nofun⟩

/-- A word that is an expression is spelled. -/
def spelling : Spelling where
  built := c.tree
  faces := [⟨c.kind, c.kind.spelling⟩]
  read := c.tree
  written := c.written
  opens := c.opens
  endsStatement := by
    have hkinds : ∀ kind ∈ [Token.Kind.trueWord, .falseWord, .yesWord, .noWord, .nilWord],
        kind.endsStatement = true := by
      decide
    exact .singleton (hkinds _ c.isConstant)
  readsOn _ := .of_operand fun _ _ _ _ _ => c.operand_reads
  bare_read := rfl
  print_read := rfl
  isOperation_read := c.isOperation_tree

end Constant

end TemplateScript
