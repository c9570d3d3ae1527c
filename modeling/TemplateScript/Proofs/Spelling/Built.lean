import Mathlib.Data.Set.List
import TemplateScript.Proofs.Script.Fences
import TemplateScript.Proofs.Spelling.Call
import TemplateScript.Proofs.Tree.WellFormed

/-!
# Built trees are read back

The statements that can be built of names, literals, operations, calls and selections are printed as
a text that is parsed without a complaint, as the same statements. Only the parentheses around
operations are new, and comparisons with nil are tests. The tree that is read is printed as
the same text again.
-/

namespace TemplateScript

open Cursor Parse Grammar
open Template (Unmarked)

/-! ### What is built -/

/-- The named arguments have names. -/
def Args.HasNames (args : Args Expr) : Prop :=
  ∀ entry ∈ args.named, ∃ x : Template.Name, entry.1 = Build.ident x.text

/-- An expression that is built of names and literals. A name is one token, an integer has a value
of its kind, and there is no byte order mark in what is quoted. -/
inductive Expr.IsBuilt : Expr → Prop
  | ident (x : Template.Name) : IsBuilt (Build.ident x.text)
  | int (n : Nat) (h : n ≤ Number.maxInt) : IsBuilt (Build.int n)
  | uint (n : Nat) (h : n ≤ Number.maxUint) : IsBuilt (Build.uint n)
  | string (text : String) (h : Unmarked text) : IsBuilt (Build.string text)
  | char (c : Char) (h : c ≠ byteOrderMark) : IsBuilt (Build.char c)
  | bool (b : Bool) : IsBuilt (Build.bool b)
  | flag (b : Bool) : IsBuilt (Build.flag b)
  | nil : IsBuilt Build.nil
  | array (elements : List Expr) (h : ∀ e ∈ elements, IsBuilt e) : IsBuilt (Build.array elements)
  | dict (entries : List (String × Expr)) (hkeys : ∀ entry ∈ entries, Unmarked entry.1)
    (h : ∀ entry ∈ entries, IsBuilt entry.2) : IsBuilt (Build.dict entries)
  | binary (lhs : Expr) (op : Operator) (rhs : Expr) (hlhs : IsBuilt lhs) (hrhs : IsBuilt rhs) :
    IsBuilt (Build.binary lhs op.kind rhs)
  | unary (op : UnaryOp) (operand : Expr) (h : IsBuilt operand) : IsBuilt (Build.unary op operand)
  | cond (test yes no : Expr) (htest : IsBuilt test) (hyes : IsBuilt yes) (hno : IsBuilt no) :
    IsBuilt (Build.cond test yes no)
  | paren (inner : Expr) (h : IsBuilt inner) : IsBuilt (Build.paren inner)
  | index (base key : Expr) (hbase : IsBuilt base) (hkey : IsBuilt key) :
    IsBuilt (Build.index base key)
  | tuple (args : Args Expr) (hnames : args.HasNames) (h : ∀ e ∈ args.parts, IsBuilt e) :
    IsBuilt (Build.tuple args)
  | keyValues (entries : List (Template.Name × Option Expr))
    (h : ∀ entry ∈ entries, ∀ e ∈ entry.2, IsBuilt e) :
    IsBuilt (Build.keyValues (entries.map fun entry => (entry.1.text, entry.2)))
  | call (x : Template.Name) (args : Args Expr) (hnames : args.HasNames)
    (h : ∀ e ∈ args.parts, IsBuilt e) : IsBuilt (Build.call (Build.ident x.text) args)
  | pipe (first : Expr) (x : Template.Name) (args : Args Expr) (hfirst : IsBuilt first)
    (hnames : args.HasNames) (h : ∀ e ∈ args.parts, IsBuilt e) :
    IsBuilt (Build.pipe first (Build.ident x.text) args)
  | selector (x : Template.Name) (name : String) (h : Unmarked name)
    (hname : (Token.Kind.ofWord name).isKeyword = false) :
    IsBuilt (Build.selector (Build.ident x.text) name)
  | nullishSelector (x : Template.Name) (name : String) (h : Unmarked name)
    (hname : (Token.Kind.ofWord name).isKeyword = false) :
    IsBuilt (Build.nullishSelector (Build.ident x.text) name)

section Lists

variable {α β : Type} {f : α → β}

theorem exists_list_map_eq {list : List β} (h : ∀ b ∈ list, ∃ a, f a = b) :
    ∃ origins : List α, origins.map f = list := by
  have hrange : list ∈ Set.range (List.map f) := by
    rw [Set.range_list_map]
    exact h
  exact hrange

theorem exists_option_map_eq {value : Option β} (h : ∀ b ∈ value, ∃ a, f a = b) :
    ∃ origin : Option α, origin.map f = value := by
  cases value with
  | none => exact ⟨none, rfl⟩
  | some b =>
    obtain ⟨a, ha⟩ := h b rfl
    exact ⟨some a, congrArg some ha⟩

end Lists

/-- Arguments that are spelled are those of a list. -/
theorem Spelling.exists_listing {args : Args Expr} (hnames : args.HasNames)
    (h : ∀ e ∈ args.parts, ∃ s : Spelling, s.built = e) :
    ∃ l : Listing Spelling Spelling, l.args writing writing = args := by
  obtain ⟨positional, spread, named, namedSpread⟩ := args
  simp only [Args.parts, List.forall_mem_append, Option.mem_toList] at h
  obtain ⟨⟨⟨hpositional, hspread⟩, hnamed⟩, hnamedSpread⟩ := h
  have hentries : ∀ entry ∈ named, ∃ pair : Template.Name × Spelling,
      (Build.ident pair.1.text, pair.2.built) = entry := by
    intro entry hentry
    obtain ⟨x, hx⟩ := hnames entry hentry
    obtain ⟨s, hs⟩ := hnamed entry.2 (List.mem_flatMap.2 ⟨entry, hentry, by simp⟩)
    exact ⟨(x, s), Prod.ext hx.symm hs⟩
  obtain ⟨first, rfl⟩ := exists_list_map_eq hpositional
  obtain ⟨spread, rfl⟩ := exists_option_map_eq hspread
  obtain ⟨named, rfl⟩ := exists_list_map_eq hentries
  obtain ⟨namedSpread, rfl⟩ := exists_option_map_eq hnamedSpread
  exact ⟨⟨first, spread, named, namedSpread⟩, rfl⟩

/-- What is built can be spelled. -/
theorem Expr.IsBuilt.exists_spelling {e : Expr} (h : e.IsBuilt) :
    ∃ s : Spelling, s.built = e := by
  induction h with
  | ident x => exact ⟨(Atom.name x).spelling, rfl⟩
  | int n h => exact ⟨(Atom.integer (.ofNat false n h)).spelling, Atom.tree_ofNat n h⟩
  | uint n h => exact ⟨(Atom.integer (.ofNat true n h)).spelling, Atom.tree_ofNat_unsigned n h⟩
  | string text h => exact ⟨(Quotation.string text h).spelling, rfl⟩
  | char c h => exact ⟨(Quotation.char c h).spelling, rfl⟩
  | bool b => exact ⟨(Constant.bool b).spelling, by cases b <;> rfl⟩
  | flag b => exact ⟨(Constant.flag b).spelling, by cases b <;> rfl⟩
  | nil => exact ⟨.nil, rfl⟩
  | array elements _ ih =>
    obtain ⟨items, rfl⟩ := exists_list_map_eq ih
    exact ⟨.array items, rfl⟩
  | dict entries hkeys _ ih =>
    have hentries : ∀ entry ∈ entries, ∃ pair : Key × Spelling,
        (pair.1.text, pair.2.built) = entry := by
      intro entry hentry
      obtain ⟨s, hs⟩ := ih entry hentry
      exact ⟨(⟨entry.1, hkeys entry hentry⟩, s), Prod.ext rfl hs⟩
    obtain ⟨pairs, rfl⟩ := exists_list_map_eq hentries
    exact ⟨.dict pairs, rfl⟩
  | binary lhs op rhs _ _ ihl ihr =>
    obtain ⟨a, rfl⟩ := ihl
    obtain ⟨b, rfl⟩ := ihr
    exact ⟨(Enclosed.binary a b op).spelling, rfl⟩
  | unary op operand _ ih =>
    obtain ⟨s, rfl⟩ := ih
    cases htest : op.isTest with
    | true => exact ⟨(Enclosed.test s op htest).spelling, rfl⟩
    | false =>
      obtain ⟨kind, hkind⟩ := exists_unaryOp? htest
      exact ⟨(Enclosed.unary s hkind).spelling, rfl⟩
  | cond test yes no _ _ _ iht ihy ihn =>
    obtain ⟨t, rfl⟩ := iht
    obtain ⟨y, rfl⟩ := ihy
    obtain ⟨n, rfl⟩ := ihn
    exact ⟨(Enclosed.cond t y n).spelling, rfl⟩
  | paren inner _ ih =>
    obtain ⟨s, rfl⟩ := ih
    exact ⟨s.paren, s.built_paren⟩
  | index base key _ _ ihb ihk =>
    obtain ⟨s, rfl⟩ := ihb
    obtain ⟨k, rfl⟩ := ihk
    exact ⟨s.index k, rfl⟩
  | tuple args hnames _ ih =>
    obtain ⟨l, rfl⟩ := Spelling.exists_listing hnames ih
    exact ⟨.tuple l, rfl⟩
  | keyValues entries _ ih =>
    have hentries : ∀ entry ∈ entries, ∃ pair : Template.Name × Option Spelling,
        (pair.1, pair.2.map Spelling.built) = entry := by
      intro entry hentry
      obtain ⟨value, hvalue⟩ := exists_option_map_eq (ih entry hentry)
      exact ⟨(entry.1, value), Prod.ext rfl hvalue⟩
    obtain ⟨pairs, rfl⟩ := exists_list_map_eq hentries
    exact ⟨.keyValues pairs, by rw [List.map_map]; rfl⟩
  | call x args hnames _ ih =>
    obtain ⟨l, rfl⟩ := Spelling.exists_listing hnames ih
    exact ⟨.call x l, rfl⟩
  | pipe first x args _ hnames _ ihf ih =>
    obtain ⟨s, rfl⟩ := ihf
    obtain ⟨l, rfl⟩ := Spelling.exists_listing hnames ih
    exact ⟨.pipe s x l, rfl⟩
  | selector x name h hname =>
    obtain ⟨field, rfl⟩ := Field.exists_name ⟨name, h⟩ hname
    exact ⟨.selector x field false, rfl⟩
  | nullishSelector x name h hname =>
    obtain ⟨field, rfl⟩ := Field.exists_name ⟨name, h⟩ hname
    exact ⟨.selector x field true, rfl⟩

/-! ### Statements -/

/-- The expression is not printed with a brace at its beginning, which would open a block. -/
def Expr.IsPlain (e : Expr) : Prop := e.print.toList.head? ≠ some '\x7b'

instance (e : Expr) : Decidable e.IsPlain :=
  inferInstanceAs (Decidable (e.print.toList.head? ≠ some '\x7b'))

/-- A statement that is built of such expressions. A definition is an assignment. -/
inductive Stmt.IsBuilt : Stmt → Prop
  | assign (x : Template.Name) (op : Token.Kind) (value : Expr) (hop : op.isAssign = true)
    (h : value.IsBuilt) : IsBuilt (Build.assign (Build.ident x.text) op value)
  | ifElse (test : Expr) (body : List Stmt) (otherwise : Option (List Stmt)) (htest : test.IsBuilt)
    (hplain : test.IsPlain) (hbody : ∀ s ∈ body, IsBuilt s)
    (hotherwise : ∀ stmts ∈ otherwise, ∀ s ∈ stmts, IsBuilt s) :
    IsBuilt (Build.ifElse test body otherwise)
  | forIn (key : Template.Name) (value : Option Template.Name) (iterable : Expr) (body : List Stmt)
    (h : iterable.IsBuilt) (hbody : ∀ s ∈ body, IsBuilt s) :
    IsBuilt (Build.forIn key.text (value.map (·.text)) iterable body)
  | block (stmts : List Stmt) (h : ∀ s ∈ stmts, IsBuilt s) : IsBuilt (Build.blockStmt stmts)
  | ret (result : Option Expr) (h : ∀ e ∈ result, e.IsBuilt) : IsBuilt (Build.ret result)
  | expr (e : Expr) (h : e.IsBuilt) (hplain : e.IsPlain) : IsBuilt (Build.expr e)

namespace Spelling

/-- A spelling with which a statement may begin. -/
abbrev Plain : Type := { s : Spelling // s.built.IsPlain }

/-- Spellings with which a statement may begin, as operands that are read. -/
def plainOperands : Operands Plain :=
  ⟨fun s => s.1.text, fun s => s.1.faces, fun s => s.1.read⟩

/-- Spellings with which a statement may begin, as operands that are written. -/
def plainWriting : Operands Plain :=
  ⟨fun s => s.1.text, fun s => s.1.faces, fun s => s.1.built⟩

theorem plain_begins {source : List Glyph} : plainOperands.Begins (.lines source) where
  exists_head s := s.1.exists_native
  reads _ _ s := s.1.expr_reads
  head_kind s := by
    have hheads : ∀ kind ∈ Token.Kind.operandHeads, kind ≠ .lbrace →
        kind ∉ Token.Kind.stmtHeads := by
      decide
    obtain ⟨ch, chars, f, more, htext, hfaces, -, hf, hbrace⟩ := s.1.opens
    intro head hhead
    change head ∈ s.1.faces.head? at hhead
    rw [hfaces] at hhead
    obtain rfl : f = head := Option.some.inj hhead
    refine hheads _ hf fun hkind => s.2 ?_
    rw [htext, hbrace hkind]
    rfl

end Spelling

namespace Command

variable {α β : Type} {w w' : Operands α} {v v' : Operands β}

theorem trees_eq_map (script : List (Command α β)) : trees w v script = script.map (tree w v) := by
  induction script with
  | nil => rfl
  | cons s rest ih => rw [trees, ih, List.map_cons]

mutual

/-- The text of a statement is that of its operands, whatever these are read as. -/
theorem text_congr (hw : ∀ a, w.text a = w'.text a) (hv : ∀ b, v.text b = v'.text b) :
    ∀ s : Command α β, text w v s = text w' v' s
  | assign _ _ _ e => by simp only [text, hw]
  | ifThen _ _ body => by simp only [text, hv, texts_congr hw hv body]
  | ifElse _ _ body _ otherwise => by
    simp only [text, hv, texts_congr hw hv body, texts_congr hw hv otherwise]
  | each _ _ _ _ body => by simp only [text, hw, texts_congr hw hv body]
  | block _ body => by simp only [text, texts_congr hw hv body]
  | ret none => rfl
  | ret (some e) => by simp only [text, Option.map_some, hw]
  | expr e => hv e

theorem texts_congr (hw : ∀ a, w.text a = w'.text a) (hv : ∀ b, v.text b = v'.text b) :
    ∀ script : List (Command α β), texts w v script = texts w' v' script
  | [] => rfl
  | s :: rest => by simp only [texts, text_congr hw hv s, texts_congr hw hv rest]

end

mutual

/-- Statements are the same without parentheses if their operands are. -/
theorem bare_tree (hw : ∀ a, (w.tree a).bare = (w'.tree a).bare)
    (hv : ∀ b, (v.tree b).bare = (v'.tree b).bare) :
    ∀ s : Command α β, (tree w v s).bare = (tree w' v' s).bare
  | assign _ _ _ e => by simp only [tree, Build.assign, Stmt.bare, bareExprs, hw]
  | ifThen _ _ body => by
    simp only [tree, Build.ifElse, Build.block, Stmt.bare, bareBlock, hv, bare_trees hw hv body]
  | ifElse _ _ body _ otherwise => by
    simp only [tree, Build.ifElse, Build.block, Stmt.bare, bareBlock, hv, Option.map_some,
      bareStmt?, bare_trees hw hv body, bare_trees hw hv otherwise]
  | each _ _ _ _ body => by
    simp only [tree, Build.forIn, Build.block, Stmt.bare, bareBlock, hw, bare_trees hw hv body]
  | block _ body => by
    simp only [tree, Build.blockStmt, Build.block, Stmt.bare, bareBlock, bare_trees hw hv body]
  | ret none => rfl
  | ret (some e) => by simp only [tree, Build.ret, Option.map_some, Stmt.bare, bareExpr?, hw]
  | expr e => congrArg Stmt.expr (hv e)

theorem bare_trees (hw : ∀ a, (w.tree a).bare = (w'.tree a).bare)
    (hv : ∀ b, (v.tree b).bare = (v'.tree b).bare) :
    ∀ script : List (Command α β), bareStmts (trees w v script) = bareStmts (trees w' v' script)
  | [] => rfl
  | s :: rest => by simp only [trees, bareStmts, bare_tree hw hv s, bare_trees hw hv rest]

end

end Command

open Command Spelling in
/-- What is built is what a statement of a script stands for. -/
theorem Stmt.IsBuilt.exists_command {s : Stmt} (h : s.IsBuilt) :
    ∃ c : Command Spelling Plain, tree writing plainWriting c = s := by
  have htrees {body : List Stmt}
      (ih : ∀ s ∈ body, ∃ c : Command Spelling Plain, tree writing plainWriting c = s) :
      ∃ script : List (Command Spelling Plain), trees writing plainWriting script = body := by
    obtain ⟨script, rfl⟩ := exists_list_map_eq ih
    exact ⟨script, trees_eq_map script⟩
  induction h with
  | assign x op value hop h =>
    obtain ⟨s, rfl⟩ := h.exists_spelling
    exact ⟨.assign x op hop s, rfl⟩
  | ifElse test body otherwise htest hplain _ _ ihb iho =>
    obtain ⟨s, rfl⟩ := htest.exists_spelling
    obtain ⟨script, rfl⟩ := htrees ihb
    cases otherwise with
    | none => exact ⟨.ifThen ⟨s, hplain⟩ .braces script, rfl⟩
    | some others =>
      obtain ⟨others, rfl⟩ := htrees (iho others rfl)
      exact ⟨.ifElse ⟨s, hplain⟩ .braces script .braces others, rfl⟩
  | forIn key value iterable body h _ ihb =>
    obtain ⟨s, rfl⟩ := h.exists_spelling
    obtain ⟨script, rfl⟩ := htrees ihb
    exact ⟨.each key value s .braces script, rfl⟩
  | block stmts _ ih =>
    obtain ⟨script, rfl⟩ := htrees ih
    exact ⟨.block .braces script, rfl⟩
  | ret result h =>
    obtain ⟨result, rfl⟩ := exists_option_map_eq fun e he => (h e he).exists_spelling
    exact ⟨.ret result, rfl⟩
  | expr e h hplain =>
    obtain ⟨s, rfl⟩ := h.exists_spelling
    exact ⟨.expr ⟨s, hplain⟩, rfl⟩

open Command Spelling in
/-- Statements that are built are the trees of a script. -/
theorem Stmt.IsBuilt.exists_script {stmts : List Stmt} (h : ∀ s ∈ stmts, s.IsBuilt) :
    ∃ script : List (Command Spelling Plain), trees writing plainWriting script = stmts := by
  obtain ⟨script, hscript⟩ := exists_list_map_eq fun s hs => (h s hs).exists_command
  exact ⟨script, (trees_eq_map script).trans hscript⟩

/-! ### Scripts of what is spelled -/

namespace FileSet

open Command Spelling

/-- The trees of a script are printed alike as they are built and as they are read. -/
theorem printFile_of_views {view : Spelling → Expr} {plainView : Plain → Expr}
    (h : ∀ s, (view s).print = s.text) (hplain : ∀ s, (plainView s).print = s.1.text)
    (script : List (Command Spelling Plain)) :
    printFile (trees ⟨text, faces, view⟩ ⟨(·.1.text), (·.1.faces), plainView⟩ script) =
      Command.source operands plainOperands (allBraced script) := by
  have hw (s : Spelling) : (⟨text, faces, view⟩ : Operands Spelling).text s = operands.text s := rfl
  have hv (s : Plain) :
      (⟨(·.1.text), (·.1.faces), plainView⟩ : Operands Plain).text s = plainOperands.text s := rfl
  rw [printFile_trees h hplain, Command.source, Command.source, texts_congr hw hv]

/-- The text of a script is parsed without a complaint, as what its spellings are read as. -/
theorem parse_spelled (set : FileSet) (name : String) (options : ParseOptions)
    (hscan : options.scan = {}) (script : List (Command Spelling Plain)) :
    ∃ parsed later,
      set.parse name (Glyph.ofBytes (utf8 (printFile (trees writing plainWriting script))))
        options = .ok (parsed, later) ∧
      parsed.errors = [] ∧
      unplacedStmts parsed.document.stmts = trees operands plainOperands script := by
  have hunmarked (s : Spelling) : Unmarked s.text := fun ch hch => (s.written.oneLine ch hch).2
  have hlexed : plainOperands.Lexed {} :=
    ⟨fun s => s.1.written.lexes, fun s => s.1.endsStatement⟩
  obtain ⟨parsed, later, hparse, herrors, hstmts⟩ :=
    parse_script options (by rw [hscan]) (by rw [hscan]) (hscan ▸ lexed) (hscan ▸ hlexed)
      (fun _ => reads) (fun _ => plain_begins) hunmarked (fun s => hunmarked s.1) set name
      (allBraced script)
  refine ⟨parsed, later, ?_, herrors, hstmts.trans (trees_allBraced script)⟩
  rw [← hparse, ← printFile_of_views (fun _ => rfl) fun _ => rfl]
  rfl

/-- Statements that are built are printed as a text that is parsed without a complaint, as these
statements. Neither positions nor parentheses count, and comparisons with nil are tests. -/
theorem parse_built (set : FileSet) (name : String) (stmts : List Stmt)
    (h : ∀ s ∈ stmts, s.IsBuilt) :
    ∃ parsed later,
      set.parse name (Glyph.ofBytes (utf8 (Build.document stmts).print)) {} =
        .ok (parsed, later) ∧
      parsed.errors = [] ∧
      bareStmts (unplacedStmts parsed.document.stmts) = bareStmts stmts := by
  obtain ⟨script, rfl⟩ := Stmt.IsBuilt.exists_script h
  obtain ⟨parsed, later, hparse, herrors, hstmts⟩ := parse_spelled set name {} rfl script
  refine ⟨parsed, later, hparse, herrors, ?_⟩
  rw [hstmts]
  exact bare_trees bare_read (fun s => s.1.bare_read) script

/-- A conditional on a test, and a loop over a dict in which a value is piped into a function. -/
theorem parse_built_loop :
    let a := Build.ident "a"
    let choice := Build.cond (Build.unary .isNil a) (Build.unary .neg (Build.int 1))
      (Build.index (Build.array [Build.string "b"]) (Build.int 0))
    let args : Args Expr :=
      { positional := [Build.selector (Build.ident "v") "n"]
        named := [(Build.ident "c", Build.bool true)] }
    let body := [Build.expr (Build.pipe a (Build.ident "f") args)]
    let stmts := [Build.define "x" choice,
      Build.forIn "k" (some "v") (Build.dict [("if", a)]) body]
    (∀ s ∈ stmts, s.IsBuilt) ∧
    ∃ parsed later,
      FileSet.parse {} "main" (Glyph.ofBytes (utf8 <| "x := ((a == nil) ? (-1) : [\"b\"][0])\n" ++
        "for k, v in \x7bif: a\x7d \x7ba .| f(v.n; c=true)\x7d\n")) {} = .ok (parsed, later) ∧
      parsed.errors = [] ∧
      bareStmts (unplacedStmts parsed.document.stmts) = bareStmts stmts := by
  intro a choice args body stmts
  let name (text : String) (hbare : isBareName text = true)
      (hident : Token.Kind.ofWord text = .ident) : Template.Name := ⟨text, hbare, hident⟩
  let f := name "f" (by decide +kernel) (by decide +kernel)
  let v := name "v" (by decide +kernel) (by decide +kernel)
  have ha : a.IsBuilt := .ident (name "a" (by decide +kernel) (by decide +kernel))
  have hchoice : choice.IsBuilt :=
    .cond _ _ _ (.unary _ _ ha) (.unary _ _ (.int 1 (by decide)))
      (.index _ _ (.array _ (List.forall_mem_singleton.2 (.string "b" (by decide))))
        (.int 0 (by decide)))
  have hnames : args.HasNames :=
    List.forall_mem_singleton.2 ⟨name "c" (by decide +kernel) (by decide +kernel), rfl⟩
  have hargs : ∀ e ∈ args.parts, e.IsBuilt :=
    List.forall_mem_cons.2 ⟨.selector v "n" (by decide) (by decide +kernel),
      List.forall_mem_cons.2 ⟨.ident (name "c" (by decide +kernel) (by decide +kernel)),
        List.forall_mem_singleton.2 (.bool true)⟩⟩
  have hbody : ∀ s ∈ body, s.IsBuilt :=
    List.forall_mem_singleton.2 (.expr _ (.pipe _ f args ha hnames hargs) (by decide +kernel))
  have hdict : (Build.dict [("if", a)]).IsBuilt :=
    .dict _ (List.forall_mem_singleton.2 (by decide)) (List.forall_mem_singleton.2 ha)
  have hstmts : ∀ s ∈ stmts, s.IsBuilt :=
    List.forall_mem_cons.2
      ⟨.assign (name "x" (by decide +kernel) (by decide +kernel)) .define _ rfl hchoice,
        List.forall_mem_singleton.2
          (.forIn (name "k" (by decide +kernel) (by decide +kernel)) (some v) _ body hdict hbody)⟩
  exact ⟨hstmts, parse_built {} "main" stmts hstmts⟩

/-- The canonical text of a document whose statements could have been built is parsed without a
complaint, however many errors are allowed, and its canonical text is the same. -/
theorem parse_print (set : FileSet) (name : String) {options : ParseOptions} {document : Document}
    (hscan : options.scan = {}) (h : ∀ s ∈ unplacedStmts document.stmts, s.IsBuilt) :
    ∃ parsed later,
      set.parse name (Glyph.ofBytes (utf8 document.print)) options = .ok (parsed, later) ∧
      parsed.errors = [] ∧ parsed.document.print = document.print := by
  obtain ⟨script, hscript⟩ := Stmt.IsBuilt.exists_script h
  have hprint : printFile (trees writing plainWriting script) = document.print := by
    rw [hscript, printFile_unplaced, Document.print]
  obtain ⟨parsed, later, hparse, herrors, hstmts⟩ := parse_spelled set name options hscan script
  rw [hprint] at hparse
  refine ⟨parsed, later, hparse, herrors, ?_⟩
  calc
    parsed.document.print = printFile (trees operands plainOperands script) := by
      rw [← hstmts, printFile_unplaced, Document.print]
    _ = Command.source operands plainOperands (allBraced script) :=
      printFile_of_views print_read (fun s => s.1.print_read) script
    _ = printFile (trees writing plainWriting script) :=
      (printFile_of_views (fun _ => rfl) (fun _ => rfl) script).symm
    _ = document.print := hprint

/-- The canonical text of the tree of `x := a + 1`, in which the sum stands between parentheses. -/
theorem parse_print_sum :
    let one : Literal := ⟨.int 1, "1", 10⟩
    let sum : Expr := .binary (.ident ⟨"a", 6⟩) .add 8 (.literal one)
    let document : Document := ⟨[.assign [.ident ⟨"x", 1⟩] .define 3 [sum]], []⟩
    document.print = "x := (a + 1)\n" ∧ (∀ s ∈ unplacedStmts document.stmts, s.IsBuilt) ∧
      ∃ parsed later,
        FileSet.parse {} "main" (Glyph.ofBytes (utf8 document.print)) {} = .ok (parsed, later) ∧
        parsed.errors = [] ∧ parsed.document.print = document.print := by
  intro one sum document
  let name (text : String) (hbare : isBareName text = true)
      (hident : Token.Kind.ofWord text = .ident) : Template.Name := ⟨text, hbare, hident⟩
  have hsum : sum.unplaced.IsBuilt :=
    .binary _ ⟨.add, by decide⟩ _ (.ident (name "a" (by decide +kernel) (by decide +kernel)))
      (.int 1 (by decide))
  have hstmts : ∀ s ∈ unplacedStmts document.stmts, s.IsBuilt :=
    List.forall_mem_singleton.2
      (.assign (name "x" (by decide +kernel) (by decide +kernel)) .define _ rfl hsum)
  exact ⟨rfl, hstmts, parse_print {} "main" rfl hstmts⟩

/-- The head of a branch may begin with a semicolon, and an empty dict behind it is the test. Without
the semicolon, which is not printed, the braces of the dict are a block. -/
theorem parse_print_semicolon :
    ∃ parsed later again last,
      FileSet.parse {} "main" (Glyph.ofBytes (utf8 "if ; \x7b\x7d \x7b\x7d")) {} =
        .ok (parsed, later) ∧
      parsed.errors = [] ∧
      FileSet.parse {} "main" (Glyph.ofBytes (utf8 parsed.document.print)) {} =
        .ok (again, last) ∧
      again.errors ≠ [] := by
  let glyphs := Glyph.ofBytes (utf8 "if ; \x7b\x7d \x7b\x7d")
  let reprinted := Glyph.ofBytes (utf8 "if \x7b\x7d \x7b\x7d\n")
  have hfirst : (match Parse.source (reader {} "main" glyphs {}) with
      | .ok stmts r => some (r.errors, printFile (shiftStmts 1 stmts))
      | .error _ _ => none) = some ([], "if \x7b\x7d \x7b\x7d\n") := by
    decide +kernel
  have hsecond : (match Parse.source (reader {} "main" reprinted {}) with
      | .ok _ r => some (r.errors.map (·.cause))
      | .error _ _ => none) = some [.expected "condition" "\x7b"] := by
    decide +kernel
  cases hrun : Parse.source (reader {} "main" glyphs {}) with
  | error e r =>
    rw [hrun] at hfirst
    cases hfirst
  | ok stmts r =>
    rw [hrun] at hfirst
    obtain ⟨herrors, hprint⟩ := Prod.mk.inj (Option.some.inj hfirst)
    obtain ⟨later, hparse⟩ := parse_eq_ok_iff_source.2 ⟨stmts, r, hrun, rfl⟩
    cases hrunAgain : Parse.source (reader {} "main" reprinted {}) with
    | error e end_ =>
      rw [hrunAgain] at hsecond
      cases hsecond
    | ok stmtsAgain end_ =>
      rw [hrunAgain] at hsecond
      have hcauses : end_.errors.map (·.cause) = _ := Option.some.inj hsecond
      obtain ⟨last, hagain⟩ := parse_eq_ok_iff_source.2 ⟨stmtsAgain, end_, hrunAgain, rfl⟩
      have hwrong : Diagnostic.sort end_.errors ≠ [] := by
        intro hnone
        have hperm := Diagnostic.sort_perm end_.errors
        rw [hnone] at hperm
        rw [← hperm.nil_eq] at hcauses
        cases hcauses
      have hreprinted : reprinted = Glyph.ofBytes (utf8 (printFile (shiftStmts 1 stmts))) := by
        rw [show printFile (shiftStmts 1 stmts) = _ from hprint]
      rw [hreprinted] at hagain
      have hright : Diagnostic.sort r.errors = [] := by
        rw [show r.errors = [] from herrors, Diagnostic.sort, List.mergeSort_nil]
      exact ⟨_, later, _, last, hparse, hright, hagain, hwrong⟩

end FileSet

end TemplateScript
