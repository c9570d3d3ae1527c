import TemplateScript.Proofs.Spelling.Row

/-!
# Spellings of operations

An operation stands between parentheses, wherever it stands. So its operator is all that binds its
operands, and it is read as an operand itself.
-/

namespace TemplateScript

open Cursor Parse Grammar

variable {α : Type} {w : Operands α} {K : Token.Outlook} {depth m : Nat} {f g : Token.Face}
  {rest : List Token.Face}

/-! ### Parentheses -/

/-- What is between the parentheses around arguments: they are one expression, or a tuple. -/
def grouped (args : Args Expr) (separated : Bool) : Expr :=
  match args.single?, separated with
  | some e, false => .paren 0 e 0
  | _, _ => .tuple 0 args 0

namespace Grammar

/-- Parentheses around arguments are read as what the arguments are. -/
theorem parenthesized_reads {deep : Nested} {faces : List Token.Face} {args : Args Expr}
    {separated : Bool} (hhead : ∃ f more, faces ++ Chain.opFace .rparen :: g :: rest = f :: more ∧
      f.kind ≠ .semicolon)
    (hargs : (argList deep).ReadsIn K m (faces ++ Chain.opFace .rparen :: g :: rest)
      (Chain.opFace .rparen :: g :: rest)
      fun read => unplacedArgs read.1 = args ∧ (args.single?.isSome → read.2 = separated))
    (hg : g.kind ≠ .lambda) :
    (parenthesized deep).ReadsIn K m
      (Chain.opFace .lparen :: (faces ++ Chain.opFace .rparen :: g :: rest)) (g :: rest)
      fun e => e.unplaced = grouped args separated := by
  obtain ⟨f, more, hmore, hf⟩ := hhead
  refine (reads_expect_append rfl).bind fun lparen _ => ?_
  rw [hmore] at hargs ⊢
  apply reads_token
  intro pos
  rw [Token.isExplicitSemicolon, decide_eq_false hf, Bool.false_and, if_neg Bool.false_ne_true]
  refine hargs.bind fun read hread => ?_
  obtain ⟨found, wasSeparated⟩ := read
  obtain ⟨hfound, hseparated⟩ := hread
  refine (reads_expect rfl).bind fun rparen _ => reads_kind ?_
  rw [if_neg hg]
  unfold grouped
  simp only at hfound hseparated
  rw [← hfound, Args.single?_unplacedArgs] at hseparated ⊢
  cases hsingle : found.single? with
  | none => exact reads_pure rfl
  | some e =>
    rw [hsingle] at hseparated
    obtain rfl := hseparated rfl
    cases wasSeparated with
    | false => exact reads_pure rfl
    | true => exact reads_pure rfl

/-- An operand between parentheses is that operand. -/
theorem paren_reads (hw : w.Read K) (a : α) (hg : g.kind ≠ .lambda) :
    (parenthesized (.ofDepth depth)).ReadsIn K m
      (Chain.opFace .lparen :: (w.faces a ++ Chain.opFace .rparen :: g :: rest)) (g :: rest)
      fun e => e.unplaced = .paren 0 (w.tree a) 0 := by
  have hargs : (argList (.ofDepth depth)).ReadsIn K m
      (w.faces a ++ Chain.opFace .rparen :: g :: rest) (Chain.opFace .rparen :: g :: rest)
      fun read => unplacedArgs read.1 = { positional := [w.tree a] } ∧
        (Args.single? { positional := [w.tree a] } |>.isSome → read.2 = false) := by
    refine LoopsIn.reads (.done ?_)
    refine argRound_reads (l := {}) (e := .positional a) hw hw ⟨rfl, rfl⟩ ⟨rfl, rfl⟩ (by decide)
      fun next hnext hseparated => ?_
    refine (reads_skipLineBreaks rfl).bind fun _ _ => reads_kind ?_
    exact reads_pure ⟨hnext.1, fun _ => hseparated⟩
  obtain ⟨f, more, hfaces, hf⟩ := hw.exists_head a
  refine parenthesized_reads ⟨f, _, by rw [hfaces]; rfl, fun hkind => ?_⟩ hargs hg
  exact hf (hkind ▸ by decide)

end Grammar

/-! ### What stands between parentheses -/

/-- An expression that is built with parentheses around it, the tokens between these, and the
expression they are read as. -/
structure Enclosed where
  built : Expr
  text : String
  faces : List Token.Face
  read : Expr
  print_eq : built.print = Bracket.round.around text
  written : Written text faces
  exists_head : ∃ f more, faces = f :: more ∧ f.kind ∉ Token.Kind.foreign
  reads : ∀ source depth m, (expr (.ofDepth depth)).ReadsAs (.lines source) m faces read
  bare_read : read.bare = built.bare
  print_read : (Expr.paren 0 read 0).print = built.print

namespace Enclosed

/-- What is enclosed, as operands. -/
def operands : Operands Enclosed := ⟨text, faces, read⟩

theorem operands_read (source : List Glyph) : operands.Read (.lines source) :=
  ⟨fun e => e.exists_head, fun depth m e => e.reads source depth m⟩

/-- With its parentheses, what is enclosed is spelled. -/
def spelling (e : Enclosed) : Spelling :=
  .bracketed .round e.built (.paren 0 e.read 0) e.print_eq (e.print_read.trans e.print_eq) rfl
    e.written
    (fun source _ _ _ _ hg => by
      apply reads_token
      intro pos
      exact paren_reads (operands_read source) e hg)
    e.bare_read

end Enclosed

/-! ### Binary operations -/

theorem Expr.unplaced_operation (lhs : Expr) (op : Token.Kind) (pos : Pos) (rhs : Expr) :
    (operation lhs op pos rhs).unplaced = operation lhs.unplaced op 0 rhs.unplaced := by
  have hword {e : Expr} {word : Word} {pos : Pos} (h : e.unplaced = .word word pos) :
      ∃ stop, e = .word word stop := by
    cases e <;> cases h
    exact ⟨_, rfl⟩
  unfold operation
  split
  · rfl
  · rfl
  · next hequal hnotEqual =>
    split
    · next hrhs =>
      obtain ⟨stop, rfl⟩ := hword hrhs
      exact (hequal stop rfl rfl).elim
    · next hrhs =>
      obtain ⟨stop, rfl⟩ := hword hrhs
      exact (hnotEqual stop rfl rfl).elim
    · rfl

/-- A test for nil is printed as the comparison that it is written as. Its parentheses are not
doubled. -/
theorem Expr.print_operation (lhs : Expr) (op : Token.Kind) (pos : Pos) (rhs : Expr) :
    (Expr.paren 0 (operation lhs op pos rhs) 0).print = (Expr.binary lhs op pos rhs).print := by
  unfold operation
  split
  · simp only [print, isOperation, String.append_assoc]
    rfl
  · simp only [print, isOperation, String.append_assoc]
    rfl
  · rfl

namespace Spelling

variable {source : List Glyph}

/-- A spelling is the right operand of any operator before what binds nothing. -/
theorem binary_reads (s : Spelling) (least : Nat) (hg : g.kind.endsExpr = true) :
    ((Nested.ofDepth depth).binary least).ReadsIn (.lines source) m (s.faces ++ g :: rest)
      (g :: rest) fun e => e.unplaced = s.read := by
  obtain ⟨hprecedence, hextender, -, hlambda⟩ := Token.Kind.endsExpr_iff.1 hg
  cases depth with
  | zero => exact reads_fault _
  | succ depth => exact binary_of_unary (s.unary_reads hlambda hextender) hprecedence

theorem operation_reads (a b : Spelling) (op : Operator) :
    (expr (.ofDepth depth)).ReadsAs (.lines source) m
      (a.faces ++ Chain.opFace op.kind :: b.faces) (operation a.read op.kind 0 b.read) := by
  have hops : ∀ kind ∈ spacedMarks, kind ≠ .lambda ∧ kind ∉ Token.Kind.extenders := by decide
  obtain ⟨hlambda, hextender⟩ := hops _ (mem_spacedMarks op)
  intro g rest hg
  obtain ⟨hprecedence, -, hquestion, -⟩ := Token.Kind.endsExpr_iff.1 hg
  have hleft : (unary (.ofDepth depth)).ReadsIn (.lines source) m
      (a.faces ++ Chain.opFace op.kind :: (b.faces ++ g :: rest)) _ _ :=
    a.unary_reads hlambda hextender
  have hround (lhs : Expr) (hlhs : lhs.unplaced = a.read) :
      (binaryRound (.ofDepth depth) 1 lhs).ReadsIn (.lines source) m
        (Chain.opFace op.kind :: (b.faces ++ g :: rest)) (g :: rest)
        (Round.Again fun e => e.unplaced = operation a.read op.kind 0 b.read) := by
    have hbinds : ¬ (op.kind.precedence < 1 ∨ op.kind.precedence = 0) := by
      have := op.binds
      omega
    apply reads_token
    intro pos
    dsimp only [Chain.opFace]
    rw [if_neg (by simpa using hbinds)]
    refine reads_next_append.bind fun _ _ => (b.binary_reads _ hg).bind fun rhs hrhs => ?_
    refine reads_pure ?_
    change (operation lhs op.kind pos rhs).unplaced = _
    rw [Expr.unplaced_operation, hlhs, hrhs]
  rw [List.append_assoc, List.cons_append]
  refine expr_of_binary ?_ hquestion
  refine hleft.bind fun lhs hlhs => LoopsIn.reads (.step (hround lhs hlhs) fun e he => ?_)
  exact .done (binaryRound_done (.inr hprecedence) he)

theorem operation_written (a b : Spelling) (op : Operator) :
    Written (a.text ++ " " ++ op.kind.spelling ++ " " ++ b.text)
      (a.faces ++ Chain.opFace op.kind :: b.faces) := by
  have hlines : ∀ kind ∈ spacedMarks, OneLine kind.spelling := by decide
  have hspace : OneLine " " := by decide
  have hmark (pending : Bool) (rest : List Glyph) :
      Lexes {} pending op.kind.spelling (.char ' ' :: rest) [Chain.opFace op.kind] :=
    .spacedMark rfl (mem_spacedMarks op)
  have hleft (pending : Bool) (rest : List Glyph) :
      Lexes {} pending (a.text ++ " ") rest a.faces :=
    (a.written.lexes pending _ endsNumber_space).before_space
  refine ⟨fun pending rest hend => ?_, ?_⟩
  · have hall := ((hleft pending _).append (hmark _ _)).before_space.append
      (b.written.lexes _ rest hend)
    rwa [List.append_assoc, List.singleton_append] at hall
  · exact (((a.written.oneLine.append hspace).append (hlines _ (mem_spacedMarks op))).append
      hspace).append b.written.oneLine

end Spelling

namespace Enclosed

/-- A binary operation on what is spelled. -/
def binary (a b : Spelling) (op : Operator) : Enclosed where
  built := Build.binary a.built op.kind b.built
  text := a.text ++ " " ++ op.kind.spelling ++ " " ++ b.text
  faces := a.faces ++ Chain.opFace op.kind :: b.faces
  read := operation a.read op.kind 0 b.read
  print_eq := by
    simp only [Build.binary, Expr.print, Bracket.around, Spelling.text, String.append_assoc]
    rfl
  written := Spelling.operation_written a b op
  exists_head := by
    obtain ⟨f, more, hfaces, hf⟩ := a.exists_native
    exact ⟨f, more ++ _, by rw [hfaces]; rfl, hf⟩
  reads _ _ _ := Spelling.operation_reads a b op
  bare_read := by
    rw [Expr.bare_operation, Build.binary, Expr.bare, Expr.bare, a.bare_read, b.bare_read]
  print_read := by
    rw [Expr.print_operation, Build.binary, Expr.print, Expr.print, a.print_read, b.print_read]

end Enclosed

/-! ### Operations on one operand -/

theorem unaryOp?_eq_some {kind : Token.Kind} {op : UnaryOp} (h : unaryOp? kind = some op) :
    kind ∈ [Token.Kind.sub, .add, .not, .xor] ∧ op.spelling = kind.spelling ∧
      op.isTest = false := by
  unfold unaryOp? at h
  split at h <;> cases h <;> exact ⟨by decide, rfl, rfl⟩

/-- What is no test is written before its operand. -/
theorem exists_unaryOp? {op : UnaryOp} (h : op.isTest = false) :
    ∃ kind, unaryOp? kind = some op := by
  cases op with
  | neg => exact ⟨.sub, rfl⟩
  | plus => exact ⟨.add, rfl⟩
  | not => exact ⟨.not, rfl⟩
  | bitNot => exact ⟨.xor, rfl⟩
  | isNil | notNil => cases h

/-- The comparison that a test for nil is written as. -/
def UnaryOp.comparison : UnaryOp → Operator
  | .isNil => ⟨.equal, by decide⟩
  | _ => ⟨.notEqual, by decide⟩

namespace Spelling

variable {source : List Glyph} {kind : Token.Kind} {op : UnaryOp}

/-- The absent value. -/
def nil : Spelling := Constant.nil.spelling

theorem prefix_reads (s : Spelling) (hop : unaryOp? kind = some op) :
    (expr (.ofDepth depth)).ReadsAs (.lines source) m (Chain.opFace kind :: s.faces)
      (.unary op 0 s.read) := by
  intro g rest hg
  obtain ⟨-, hextender, -, hlambda⟩ := Token.Kind.endsExpr_iff.1 hg
  have hoperand : (Nested.ofDepth depth).unary.ReadsIn (.lines source) m (s.faces ++ g :: rest)
      (g :: rest) fun e => e.unplaced = s.read := by
    cases depth with
    | zero => exact reads_fault _
    | succ depth => exact s.unary_reads hlambda hextender
  refine expr_of_unary ?_ hg
  apply reads_token
  intro pos
  simp only [Chain.opFace, hop]
  refine reads_next_append.bind fun _ _ => hoperand.bind fun e he => reads_pure ?_
  rw [Expr.unplaced, he]

theorem prefix_written (s : Spelling) (hop : unaryOp? kind = some op) :
    Written (kind.spelling ++ s.text) (Chain.opFace kind :: s.faces) := by
  have hkinds : ∀ kind ∈ [Token.Kind.sub, .add, .not, .xor],
      kind ∈ plainMarks ∧ OneLine kind.spelling := by
    decide +kernel
  obtain ⟨hplain, hline⟩ := hkinds kind (unaryOp?_eq_some hop).1
  obtain ⟨ch, chars, _, _, htext, -, hch, -⟩ := s.opens
  have hmark (pending : Bool) (rest : List Glyph) :
      Lexes {} pending kind.spelling (Glyph.ofText s.text ++ rest) [Chain.opFace kind] := by
    refine .mark rfl hplain (.of_tail (fun g hg => ?_) (List.mem_filter.1 hplain).1)
    rw [Glyph.ofText, text, htext] at hg
    cases hg
    exact hch
  exact ⟨fun pending rest hend => (hmark pending rest).append (s.written.lexes _ rest hend),
    hline.append s.written.oneLine⟩

end Spelling

namespace Enclosed

/-- An operation that is written before its operand. -/
def unary (s : Spelling) {kind : Token.Kind} {op : UnaryOp} (hop : unaryOp? kind = some op) :
    Enclosed where
  built := Build.unary op s.built
  text := kind.spelling ++ s.text
  faces := Chain.opFace kind :: s.faces
  read := .unary op 0 s.read
  print_eq := by
    obtain ⟨-, hspelling, htest⟩ := unaryOp?_eq_some hop
    rw [Build.unary, Expr.print, htest, if_neg Bool.false_ne_true, hspelling, Bracket.around]
    simp only [Spelling.text, String.append_assoc]
    rfl
  written := s.prefix_written hop
  exists_head := by
    have hkinds : ∀ kind ∈ [Token.Kind.sub, .add, .not, .xor], kind ∉ Token.Kind.foreign := by
      decide
    exact ⟨_, _, rfl, hkinds kind (unaryOp?_eq_some hop).1⟩
  reads _ _ _ := s.prefix_reads hop
  bare_read := by rw [Build.unary, Expr.bare, Expr.bare, s.bare_read]
  print_read := by
    rw [Expr.print, Expr.isOperation, if_pos rfl, Build.unary, Expr.print, Expr.print, s.print_read]

/-- A test for nil, which is read as the comparison that it is written as. -/
def test (s : Spelling) (op : UnaryOp) (hop : op.isTest = true) : Enclosed :=
  have hprint : (Build.unary op s.built).print = (binary s .nil op.comparison).built.print := by
    rw [Build.unary, Expr.print, hop, if_pos rfl]
    cases op <;> cases hop <;>
      simp only [binary, Build.binary, Expr.print, String.append_assoc] <;> rfl
  { binary s .nil op.comparison with
    built := Build.unary op s.built
    print_eq := hprint.trans (binary s .nil op.comparison).print_eq
    print_read := (binary s .nil op.comparison).print_read.trans hprint.symm
    bare_read := by
      rw [Build.unary, Expr.bare, ← s.bare_read]
      cases op <;> cases hop <;> rfl }

end Enclosed

/-! ### Conditionals -/

namespace Spelling

variable {source : List Glyph}

theorem cond_reads (t y n : Spelling) :
    (expr (.ofDepth depth)).ReadsAs (.lines source) m
      (t.faces ++ Chain.opFace .question :: (y.faces ++ Chain.opFace .colon :: n.faces))
      (.cond t.read 0 y.read 0 n.read) := by
  intro g rest hg
  let behind := Chain.opFace .colon :: (n.faces ++ g :: rest)
  have htest : (Grammar.binary (.ofDepth depth) 1).ReadsIn (.lines source) m
      (t.faces ++ Chain.opFace .question :: (y.faces ++ behind)) _ _ :=
    binary_of_unary (t.unary_reads (by decide) (by decide)) (by decide)
  have hyes : (Nested.ofDepth depth).expr.ReadsIn (.lines source) m (y.faces ++ behind) behind _ :=
    reads.nested depth m y (Chain.opFace .colon) (n.faces ++ g :: rest) (by decide)
  have hno : (Nested.ofDepth depth).expr.ReadsIn (.lines source) m (n.faces ++ g :: rest) _ _ :=
    reads.nested depth m n g rest hg
  -- No line breaks stand between the two marks.
  have hcount : (Chain.opFace .question :: (y.faces ++ behind)).count .lineBreak =
      behind.count .lineBreak := by
    rw [List.count_cons_of_ne (by decide), List.count_append, y.count_lineBreak, Nat.zero_add]
  simp only [List.append_assoc, List.cons_append]
  refine htest.bind fun test htest => reads_kind ?_
  rw [if_neg (show ¬ (Chain.opFace .question).kind ≠ .question by decide)]
  apply reads_pos_onLine (by decide)
  intro question hquestion
  refine reads_next_append.bind fun _ _ => hyes.bind fun yes hyes => ?_
  apply reads_token_onLine (by decide)
  intro colon hcolon
  rw [if_neg (by exact Bool.false_ne_true), if_neg (by exact not_not.2 rfl)]
  refine reads_line (by decide) hcolon rfl (reads_line (by decide) hquestion hcount ?_)
  rw [if_neg (not_not.2 (hcolon.lineOf_eq hquestion hcount.symm))]
  refine reads_next_append.bind fun _ _ => hno.bind fun no hno => reads_pure ?_
  rw [Expr.unplaced, htest, hyes, hno]
  rfl

theorem cond_written (t y n : Spelling) :
    Written (t.text ++ " ? " ++ y.text ++ " : " ++ n.text)
      (t.faces ++ Chain.opFace .question :: (y.faces ++ Chain.opFace .colon :: n.faces)) := by
  have hplain : .question ∈ plainMarks ∧ .colon ∈ plainMarks := by decide +kernel
  have hquestion : OneLine " ? " := by decide
  have hcolon : OneLine " : " := by decide
  refine ⟨fun pending rest hend => ?_, ?_⟩
  · have hall : Lexes {} pending (t.text ++ " ? " ++ y.text ++ " : " ++ n.text) rest _ :=
      .append (.append (.append (.append (t.written.lexes _ _ endsNumber_space)
        (.betweenSpaces rfl hplain.1)) (y.written.lexes _ _ endsNumber_space))
        (.betweenSpaces rfl hplain.2)) (n.written.lexes _ rest hend)
    simpa only [List.append_assoc, List.cons_append, List.nil_append] using hall
  · exact (((t.written.oneLine.append hquestion).append y.written.oneLine).append hcolon).append
      n.written.oneLine

end Spelling

namespace Enclosed

/-- A conditional on what is spelled. -/
def cond (t y n : Spelling) : Enclosed where
  built := Build.cond t.built y.built n.built
  text := t.text ++ " ? " ++ y.text ++ " : " ++ n.text
  faces := t.faces ++ Chain.opFace .question :: (y.faces ++ Chain.opFace .colon :: n.faces)
  read := .cond t.read 0 y.read 0 n.read
  print_eq := by
    simp only [Build.cond, Expr.print, Bracket.around, Spelling.text, String.append_assoc]
    rfl
  written := t.cond_written y n
  exists_head := by
    obtain ⟨f, more, hfaces, hf⟩ := t.exists_native
    exact ⟨f, more ++ _, by rw [hfaces]; rfl, hf⟩
  reads _ _ _ := t.cond_reads y n
  bare_read := by
    rw [Build.cond, Expr.bare, Expr.bare, t.bare_read, y.bare_read, n.bare_read]
  print_read := by
    rw [Expr.print, Expr.isOperation, if_pos rfl, Build.cond, Expr.print, Expr.print, t.print_read,
      y.print_read, n.print_read]

end Enclosed

/-! ### Parentheses that are built -/

/-- Parentheses around what has none. -/
def Enclosed.paren (s : Spelling) (hbuilt : s.built.isOperation = false) : Enclosed where
  built := Build.paren s.built
  text := s.text
  faces := s.faces
  read := s.read
  print_eq := by
    rw [Build.paren, Expr.print, hbuilt, if_neg Bool.false_ne_true]
    rfl
  written := s.written
  exists_head := s.exists_native
  reads source depth m := s.expr_reads
  bare_read := by rw [Build.paren, Expr.bare, s.bare_read]
  print_read := by
    rw [Build.paren, Expr.print, Expr.print, s.isOperation_read, hbuilt, s.print_read]

/-- What is spelled is spelled between parentheses. Those of an operation are not doubled. -/
def Spelling.paren (s : Spelling) : Spelling :=
  if hbuilt : s.built.isOperation = false then (Enclosed.paren s hbuilt).spelling
  else
    have hprint : (Build.paren s.built).print = s.built.print := by
      rw [Build.paren, Expr.print, if_pos (Bool.not_eq_false _ |>.mp hbuilt)]
    { s with
      built := Build.paren s.built
      written := hprint ▸ s.written
      opens := hprint ▸ s.opens
      bare_read := by rw [Build.paren, Expr.bare, s.bare_read]
      print_read := s.print_read.trans hprint.symm }

theorem Spelling.built_paren (s : Spelling) : s.paren.built = Build.paren s.built := by
  unfold Spelling.paren
  split <;> rfl

end TemplateScript
