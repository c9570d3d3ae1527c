import TemplateScript.Proofs.Listing.Reads
import TemplateScript.Proofs.Tree.Bare

/-!
# Spellings

A tree that is built is printed as a text, the text is read as tokens, and these are read as a tree
again, in which there may be more parentheses. A spelling is a built tree with these tokens and this
tree, and knows that they are read so: the text before whatever may stand behind a number, and the
tokens before whatever goes on with an operand. So spellings are put together as their trees are.
-/

namespace TemplateScript

open Cursor Parse Grammar

/-! ### Operands with what goes on with them -/

/-- The tokens are read as an operand, with what goes on with it, of a tree without positions:
whatever is made of the tokens behind them from that tree on is made of all. -/
def ReadsOn (K : Token.Outlook) (faces : List Token.Face) (tree : Expr) : Prop :=
  ∀ (depth m : Nat) (g : Token.Face) (rest after : List Token.Face) (P : Expr → Prop),
    g.kind ≠ .lambda →
    (∀ e : Expr, e.unplaced = tree →
      LoopsIn (primaryRound (.ofDepth depth)) K m (g :: rest) after e P) →
    (primary (.ofDepth depth)).ReadsIn K m (faces ++ g :: rest) after P

namespace ReadsOn

variable {K : Token.Outlook} {faces more : List Token.Face} {tree next : Expr} {depth m : Nat}
  {f g : Token.Face} {rest : List Token.Face}

theorem of_operand (h : ∀ (depth m : Nat) (g : Token.Face) (rest : List Token.Face),
    g.kind ≠ .lambda → (operand (.ofDepth depth)).ReadsIn K m (faces ++ g :: rest) (g :: rest)
      fun e => e.unplaced = tree) : ReadsOn K faces tree :=
  fun depth m g rest _ _ hg hnext => (h depth m g rest hg).bind fun e he => (hnext e he).reads

/-- What one round makes of the tokens behind an operand goes on with it. -/
theorem again (h : ReadsOn K faces tree) (hf : f.kind ≠ .lambda)
    (hround : ∀ (depth m : Nat) (g : Token.Face) (rest : List Token.Face) (e : Expr),
      g.kind ≠ .lambda → e.unplaced = tree →
      (primaryRound (.ofDepth depth) e).ReadsIn K m (f :: more ++ g :: rest) (g :: rest)
        (Round.Again fun e => e.unplaced = next)) :
    ReadsOn K (faces ++ f :: more) next := by
  intro depth m g rest after P hg hnext
  rw [List.append_assoc]
  exact h _ _ _ _ _ _ hf fun e he => .step (hround depth m g rest e hg he) hnext

/-- An operand ends before what does not go on with it. -/
theorem primary_reads (h : ReadsOn K faces tree) (hlambda : g.kind ≠ .lambda)
    (hg : g.kind ∉ Token.Kind.extenders) :
    (primary (.ofDepth depth)).ReadsIn K m (faces ++ g :: rest) (g :: rest)
      fun e => e.unplaced = tree :=
  h _ _ _ _ _ _ hlambda fun _ he => .done (primaryRound_done hg he)

end ReadsOn

namespace Token.Kind

/-- The kinds with which an operand begins that can be built. -/
def operandHeads : List Kind :=
  [.ident, .int, .uint, .char, .string, .trueWord, .falseWord, .yesWord, .noWord, .nilWord,
    .lparen, .lbrack, .lbrace]

end Token.Kind

/-! ### Texts of operands -/

/-- The text is one line, and is read as the tokens. -/
structure Written (text : String) (faces : List Token.Face) : Prop where
  lexes : Lexes.BeforeEnd {} text faces
  oneLine : OneLine text

/-- A text is read on behind another one if a number may end there. -/
theorem Written.append {a b : String} {faces more : List Token.Face} (ha : Written a faces)
    (hb : Written b more) (hends : ∀ rest, Cursor.EndsNumber (Glyph.ofText b ++ rest)) :
    Written (a ++ b) (faces ++ more) :=
  ⟨fun _ rest hend => (ha.lexes _ _ (hends rest)).append (hb.lexes _ rest hend),
    ha.oneLine.append hb.oneLine⟩

/-- The text begins as no mark goes on, and the tokens as an operand. With a brace begins only what
is written with one. -/
def Opens (text : String) (faces : List Token.Face) : Prop :=
  ∃ ch chars f more, text.toList = ch :: chars ∧ faces = f :: more ∧
    .char ch ∉ markTails ∧ f.kind ∈ Token.Kind.operandHeads ∧ (f.kind = .lbrace → ch = '\x7b')

theorem Opens.append {text : String} {faces : List Token.Face} (h : Opens text faces)
    (behind : String) (more : List Token.Face) : Opens (text ++ behind) (faces ++ more) := by
  obtain ⟨ch, chars, f, others, htext, hfaces, hopens⟩ := h
  refine ⟨ch, chars ++ behind.toList, f, others ++ more, ?_, ?_, hopens⟩
  · rw [String.toList_append, htext, List.cons_append]
  · rw [hfaces, List.cons_append]

/-- A tree that is built, the tokens of its text, and the tree they are read as. What is read has the
same text, and is an operation only between parentheses. -/
structure Spelling where
  built : Expr
  faces : List Token.Face
  read : Expr
  written : Written built.print faces
  opens : Opens built.print faces
  endsStatement : EndsStatement faces
  readsOn : ∀ source, ReadsOn (.lines source) faces read
  bare_read : read.bare = built.bare
  print_read : read.print = built.print
  isOperation_read : read.isOperation = false

namespace Spelling

/-- The text of a spelling. -/
def text (s : Spelling) : String := s.built.print

/-- Spellings as operands that are read. -/
def operands : Operands Spelling := ⟨text, faces, read⟩

/-- Spellings as operands that are written. -/
def writing : Operands Spelling := ⟨text, faces, built⟩

variable {source : List Glyph} {depth m : Nat} {g : Token.Face} {rest : List Token.Face}

theorem exists_head (s : Spelling) :
    ∃ f more, s.faces = f :: more ∧ f.kind ∈ Token.Kind.operandHeads := by
  obtain ⟨_, _, f, more, -, hfaces, -, hf, -⟩ := s.opens
  exact ⟨f, more, hfaces, hf⟩

theorem exists_native (s : Spelling) :
    ∃ f more, s.faces = f :: more ∧ f.kind ∉ Token.Kind.foreign := by
  have hheads : ∀ kind ∈ Token.Kind.operandHeads, kind ∉ Token.Kind.foreign := by decide
  obtain ⟨f, more, hfaces, hf⟩ := s.exists_head
  exact ⟨f, more, hfaces, hheads _ hf⟩

/-- No line breaks are among the tokens of a spelling. -/
theorem count_lineBreak (s : Spelling) : s.faces.count .lineBreak = 0 := by
  have hends : EndsNumber [] := by rintro g ⟨⟩
  rw [← (s.written.lexes false [] hends).count_eq]
  refine List.count_eq_zero.2 fun hmem => ?_
  obtain ⟨ch, hch, heq⟩ := List.mem_map.1 hmem
  cases heq
  exact (s.written.oneLine _ hch).1 rfl

theorem lexed : operands.Lexed {} := ⟨fun s => s.written.lexes, fun s => s.endsStatement⟩

theorem endsMarks : operands.EndsMarks :=
  .of_first fun s =>
    have ⟨ch, chars, _, _, htext, _, hch, _⟩ := s.opens
    ⟨ch, chars, htext, hch⟩

/-- A spelling is an operation with one operand before what does not go on with it. -/
theorem unary_reads (s : Spelling) (hlambda : g.kind ≠ .lambda)
    (hg : g.kind ∉ Token.Kind.extenders) :
    (unary (.ofDepth depth)).ReadsIn (.lines source) m (s.faces ++ g :: rest) (g :: rest)
      fun e => e.unplaced = s.read := by
  have hunary : ∀ kind ∈ Token.Kind.operandHeads, unaryOp? kind = none := by decide
  obtain ⟨f, more, hfaces, hf⟩ := s.exists_head
  have hread : (primary (.ofDepth depth)).ReadsIn _ m (s.faces ++ g :: rest) _ _ :=
    (s.readsOn source).primary_reads hlambda hg
  rw [hfaces] at hread ⊢
  exact Grammar.unary_reads hread (hunary _ hf)

/-- A spelling is a whole expression before what ends one. -/
theorem expr_reads (s : Spelling) :
    (expr (.ofDepth depth)).ReadsAs (.lines source) m s.faces s.read := by
  intro g rest hg
  obtain ⟨-, hextender, -, hlambda⟩ := Token.Kind.endsExpr_iff.1 hg
  exact expr_of_unary (s.unary_reads hlambda hextender) hg

theorem reads : operands.Read (.lines source) where
  exists_head s := s.exists_native
  reads _ _ s := s.expr_reads

end Spelling

end TemplateScript
