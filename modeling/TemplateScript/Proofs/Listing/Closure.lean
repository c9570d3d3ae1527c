import TemplateScript.Proofs.Listing.Reads
import TemplateScript.Proofs.Script.Fences

/-!
# Closures in both notations

A closure is written as parameters and an arrow, with the word for functions before them or without
it. With the word, what stands between the parentheses is read as parameters. Without it, it is read
as arguments, and made parameters where the arrow shows. Both notations are read as the closure.
-/

namespace TemplateScript

open Cursor Parse Grammar
open Template (Unmarked)

variable {β : Type} {v : Operands β} {K : Token.Outlook} {m depth : Nat}
  {rest : List Token.Face} {f g : Token.Face} {options : ScanOptions}

/-! ### Parameters written as arguments -/

namespace Grammar

theorem paramsOfExprs_names {list : List Expr} {names : List Template.Name}
    (h : unplacedExprs list = names.map Template.Name.operands.tree) :
    ∃ idents, paramsOfExprs list = pure idents ∧
      idents.map (·.unplaced) = names.map Listing.typed := by
  induction names generalizing list with
  | nil =>
    cases list with
    | nil => exact ⟨[], rfl, rfl⟩
    | cons e list => cases h
  | cons x names ih =>
    cases list with
    | nil => cases h
    | cons e list =>
      obtain ⟨he, hlist⟩ := List.cons.inj h
      obtain ⟨pos, rfl⟩ := Expr.ident_of_unplaced he
      obtain ⟨idents, hidents, hnames⟩ := ih hlist
      refine ⟨⟨⟨x.text, pos⟩, []⟩ :: idents, ?_, ?_⟩
      · rw [paramsOfExprs, hidents]
        rfl
      · rw [List.map_cons, hnames]
        rfl

theorem paramOfExpr?_name {e : Option Expr} {x : Option Template.Name}
    (h : unplacedExpr? e = x.map Template.Name.operands.tree) :
    ∃ ident, paramOfExpr? e = pure ident ∧ ident.map (·.unplaced) = x.map Listing.typed := by
  cases e with
  | none =>
    cases x with
    | none => exact ⟨none, rfl, rfl⟩
    | some x => cases h
  | some e =>
    cases x with
    | none => cases h
    | some x =>
      obtain ⟨pos, rfl⟩ := Expr.ident_of_unplaced (Option.some.inj h)
      exact ⟨some ⟨⟨x.text, pos⟩, []⟩, rfl, rfl⟩

theorem paramsOfNamed_names {list : List (Expr × Expr)} {named : List (Template.Name × β)}
    (h : unplacedNamed list = named.map fun (x, b) => (Build.ident x.text, v.tree b)) :
    ∃ params, paramsOfNamed list = pure params ∧
      unplacedDefaults params = named.map fun (x, b) => (Listing.typed x, v.tree b) := by
  induction named generalizing list with
  | nil =>
    cases list with
    | nil => exact ⟨[], rfl, rfl⟩
    | cons e list => cases h
  | cons first named ih =>
    obtain ⟨x, b⟩ := first
    cases list with
    | nil => cases h
    | cons entry list =>
      obtain ⟨name, value⟩ := entry
      obtain ⟨hentry, hlist⟩ := List.cons.inj h
      obtain ⟨hname, hvalue⟩ := Prod.mk.inj hentry
      obtain ⟨pos, rfl⟩ := Expr.ident_of_unplaced hname
      obtain ⟨params, hparams, hnames⟩ := ih hlist
      refine ⟨(⟨⟨x.text, pos⟩, []⟩, value) :: params, ?_, ?_⟩
      · rw [paramsOfNamed, hparams]
        rfl
      · rw [unplacedDefaults, hnames, hvalue]
        rfl

/-- Arguments that are those of a list of names are its parameters. -/
theorem paramsOfArgs_names {args : Args Expr} {l : Listing Template.Name β}
    (h : unplacedArgs args = l.args Template.Name.operands v) (lparen rparen : Pos) :
    ∃ params, paramsOfArgs lparen args rparen = pure params ∧
      unplacedParams params = l.params v := by
  obtain ⟨positional, spread, named, namedSpread⟩ := args
  simp only [unplacedArgs, Listing.args, Args.mk.injEq] at h
  obtain ⟨hpositional, hspread, hnamed, hnamedSpread⟩ := h
  obtain ⟨idents, hidents, hpositional⟩ := paramsOfExprs_names hpositional
  obtain ⟨variadic, hvariadic, hspread⟩ := paramOfExpr?_name hspread
  obtain ⟨defaults, hdefaults, hnamed⟩ := paramsOfNamed_names hnamed
  obtain ⟨namedVariadic, hnamedVariadic, hnamedSpread⟩ := paramOfExpr?_name hnamedSpread
  refine ⟨⟨lparen, idents, variadic, defaults, namedVariadic, rparen⟩, ?_, ?_⟩
  · simp only [paramsOfArgs, hidents, hvariadic, hdefaults, hnamedVariadic, pure_bind]
  · simp only [unplacedParams, hpositional, hspread, hnamed, hnamedSpread, Listing.params]

end Grammar

/-! ### Closures -/

/-- A closure over names, with the word for functions before it or without it. -/
structure Closure where
  isFunc : Bool
  params : Listing Template.Name Atom
  body : Template.Name

namespace Closure

/-- The text of a closure. -/
def text (c : Closure) : String :=
  (if c.isFunc then "func" else "") ++ printParams (c.params.params Atom.operands) ++ " => " ++
    c.body.text

/-- The tokens of a closure. -/
def faces (c : Closure) : List Token.Face :=
  (if c.isFunc then [⟨.funcWord, "func"⟩] else []) ++ Chain.opFace .lparen ::
    (Entry.allFaces Template.Name.operands Atom.operands c.params.entries ++
      [Chain.opFace .rparen, Chain.opFace .lambda, c.body.face])

/-- The tree of a closure, in which the notation does not show. -/
def tree (c : Closure) : Expr :=
  .closure 0 (c.params.params Atom.operands) 0 (Build.ident c.body.text)

/-- Closures as operands. -/
def operands : Operands Closure := ⟨text, faces, tree⟩

end Closure

/-! ### Texts -/

theorem printDefaults_named (hprint : ∀ b, (v.tree b).print = v.text b)
    (named : List (Template.Name × β)) :
    printDefaults (named.map fun (x, b) => (Listing.typed x, v.tree b)) =
      (named.map fun (x, b) => Entry.named x b).map (Entry.text Template.Name.operands v) := by
  induction named with
  | nil => rfl
  | cons first named ih =>
    have htyped : (Listing.typed first.1).print = first.1.text := rfl
    rw [List.map_cons, printDefaults, ih, htyped, hprint]
    rfl

/-- Parameters are printed as the list they stand for. -/
theorem Listing.printParams_eq (hprint : ∀ b, (v.tree b).print = v.text b)
    (l : Listing Template.Name β) :
    printParams (l.params v) = "(" ++
      printGroups (l.first.map (Entry.text Template.Name.operands v))
        (l.second.map (Entry.text Template.Name.operands v)) ++ ")" := by
  have htyped (x : Template.Name) : (Listing.typed x).print = x.text := rfl
  have hspread (lead : String) (x : Option Template.Name) :
      ((x.map Listing.typed).map (lead ++ ·.print)).toList =
        x.toList.map fun x => lead ++ x.text := by
    cases x <;> simp [htyped]
  have hpositional (list : List Template.Name) :
      (list.map Listing.typed).map TypedIdent.print = list.map Template.Name.text := by
    simp [htyped]
  simp only [printParams, Listing.params, hspread, hpositional, printDefaults_named hprint,
    Listing.first, Listing.second, List.map_append, List.map_map]
  rfl

/-! ### Tokens -/

theorem Template.Name.lexed (hmixed : options.mixed = false) :
    Template.Name.operands.Lexed options :=
  ⟨fun x _ _ hend => .name hmixed x hend.isLetter_eq, fun _ => .singleton rfl⟩

namespace Closure

/-- A closure is read as its tokens. -/
theorem lexes (hmixed : options.mixed = false) (c : Closure) :
    Lexes.BeforeEnd options c.text c.faces := by
  intro pending rest hend
  let params := printParams (c.params.params Atom.operands)
  have hnames := Template.Name.lexed hmixed
  have hparams (pending : Bool) (rest : List Glyph) : Lexes options pending params rest
      (Chain.opFace .lparen ::
        (Entry.allFaces Template.Name.operands Atom.operands c.params.entries ++
          [Chain.opFace .rparen])) := by
    change Lexes options pending (printParams (c.params.params Atom.operands)) _ _
    rw [c.params.printParams_eq Atom.print_tree]
    exact c.params.lexes hmixed hnames (Atom.lexed hmixed) (.of_first Template.Name.exists_first)
      (.of_first Atom.exists_first)
  have harrow (pending : Bool) (rest : List Glyph) :
      Lexes options pending " => " rest [Chain.opFace .lambda] := by
    have hplain : .lambda ∈ plainMarks := by decide +kernel
    exact .betweenSpaces hmixed hplain
  have hbody (pending : Bool) : Lexes options pending c.body.text rest [c.body.face] :=
    .name hmixed c.body hend.isLetter_eq
  have hclosure (pending : Bool) : Lexes options pending (params ++ " => " ++ c.body.text) rest _ :=
    ((hparams _ _).append (harrow _ _)).append (hbody _)
  rw [text, faces]
  cases c.isFunc with
  | false =>
    simpa only [params, Bool.false_eq_true, if_false, String.empty_append, List.nil_append,
      List.cons_append, List.append_assoc] using hclosure pending
  | true =>
    have hspaceless : ∀ g ∈ (Glyph.ofText (params ++ " => " ++ c.body.text) ++ rest).head?,
        (g.isLetter || g.isDigit) = false := by
      simp only [params]
      rw [c.params.printParams_eq Atom.print_tree]
      simp only [String.append_assoc, Glyph.ofText_append, List.append_assoc]
      rintro g ⟨⟩
      decide +kernel
    have hfunc : Lexes options pending "func"
        (Glyph.ofText (params ++ " => " ++ c.body.text) ++ rest) [⟨.funcWord, "func"⟩] :=
      .keyword "func" .funcWord hmixed rfl rfl (by decide) hspaceless
    simpa only [params, if_true, String.append_assoc, List.cons_append, List.nil_append,
      List.append_assoc] using hfunc.append (hclosure _)

theorem lexed (hmixed : options.mixed = false) : operands.Lexed options where
  lexes := lexes hmixed
  endsStatement c := by
    have hbody : EndsStatement [c.body.face] := .singleton rfl
    have hall := hbody.append ((if c.isFunc then [⟨.funcWord, "func"⟩] else []) ++
      Chain.opFace .lparen ::
        (Entry.allFaces Template.Name.operands Atom.operands c.params.entries ++
          [Chain.opFace .rparen, Chain.opFace .lambda]))
    simpa only [operands, faces, List.append_assoc, List.cons_append, List.nil_append] using hall

/-! ### Reading -/

/-- The body of a closure is read behind its parameters. -/
theorem closure_reads {pos : Pos} {params : Params Expr} {body : Template.Name}
    (hg : g.kind.endsExpr = true) :
    (closure (.ofDepth depth) pos params).ReadsIn K m
      (Chain.opFace .lambda :: body.face :: g :: rest) (g :: rest)
      fun e => e.unplaced = .closure 0 (unplacedParams params) 0 (Build.ident body.text) := by
  refine (reads_expect rfl).bind fun arrow _ => ?_
  refine ((Template.Name.read (K := K)).nested depth m body g rest hg).bind fun e he => ?_
  refine reads_pure ?_
  rw [Expr.unplaced, he]
  rfl

/-- Without the word, the parentheses of a closure are read as arguments first. -/
theorem parenthesized_reads (l : Listing Template.Name Atom) (body : Template.Name)
    (hg : g.kind.endsExpr = true) :
    (parenthesized (.ofDepth depth)).ReadsIn K m
      (Chain.opFace .lparen :: (Entry.allFaces Template.Name.operands Atom.operands l.entries ++
        Chain.opFace .rparen :: Chain.opFace .lambda :: body.face :: g :: rest)) (g :: rest)
      fun e => e.unplaced = .closure 0 (l.params Atom.operands) 0 (Build.ident body.text) := by
  let behind := Chain.opFace .lambda :: body.face :: g :: rest
  have hread : (argList (.ofDepth depth)).ReadsIn K m
      (Entry.allFaces Template.Name.operands Atom.operands l.entries ++
        Chain.opFace .rparen :: behind) (Chain.opFace .rparen :: behind) _ :=
    argList_reads Template.Name.read Atom.begins.toRead l
  refine (reads_expect_append rfl).bind fun lparen _ => ?_
  obtain ⟨f, more, hfirst, hsemicolon⟩ : ∃ f more,
      Entry.allFaces Template.Name.operands Atom.operands l.entries ++
        Chain.opFace .rparen :: behind = f :: more ∧ f.kind ≠ .semicolon :=
    Entry.exists_head_all (Template.Name.read (K := K)) l.entries (by decide)
  rw [hfirst] at hread ⊢
  apply reads_token
  intro pos
  rw [Token.isExplicitSemicolon, decide_eq_false hsemicolon, Bool.false_and,
    if_neg Bool.false_ne_true]
  refine hread.bind fun read hargs => ?_
  obtain ⟨args, separated⟩ := read
  refine (reads_expect rfl).bind fun rparen _ => reads_kind ?_
  rw [if_pos (show (Chain.opFace .lambda).kind = .lambda from rfl)]
  obtain ⟨params, hparams, htree⟩ := paramsOfArgs_names hargs lparen rparen
  rw [hparams, pure_bind]
  refine (closure_reads hg).mono fun e he => ?_
  rw [he, htree]

/-- With the word, they are read as parameters. -/
theorem func_reads (l : Listing Template.Name Atom) (body : Template.Name)
    (hg : g.kind.endsExpr = true) :
    (func (.ofDepth depth)).ReadsIn K m
      (⟨.funcWord, "func"⟩ :: Chain.opFace .lparen ::
        (Entry.allFaces Template.Name.operands Atom.operands l.entries ++
          Chain.opFace .rparen :: Chain.opFace .lambda :: body.face :: g :: rest)) (g :: rest)
      fun e => e.unplaced = .closure 0 (l.params Atom.operands) 0 (Build.ident body.text) := by
  refine (reads_expect rfl).bind fun pos _ => reads_kind ?_
  refine (reads_expect_append rfl).bind fun lparen _ => ?_
  refine (paramList_reads Atom.begins.toRead lparen l).bind fun params hparams => ?_
  refine (reads_expect rfl).bind fun rparen _ => reads_kind ?_
  refine (closure_reads hg).mono fun e he => ?_
  have hrparen : unplacedParams { params with rparen } = unplacedParams params := by
    rw [unplacedParams, unplacedParams]
  rw [he, hrparen, hparams]

/-- A closure is read as its tree, whatever its notation. -/
theorem read : operands.Read K where
  exists_head c := by
    cases hfunc : c.isFunc with
    | false => exact ⟨_, _, by simp only [operands, faces, hfunc]; rfl, by decide⟩
    | true => exact ⟨_, _, by simp only [operands, faces, hfunc]; rfl, by decide⟩
  reads depth m c g rest hg := by
    simp only [operands, faces]
    cases c.isFunc with
    | false =>
      have hread : (operand (.ofDepth depth)).ReadsIn K m _ (g :: rest) _ :=
        reads_token fun _ => parenthesized_reads c.params c.body hg
      simpa [tree] using expr_reads hread rfl hg
    | true =>
      have hread : (operand (.ofDepth depth)).ReadsIn K m _ (g :: rest) _ :=
        reads_token fun _ => func_reads c.params c.body hg
      simpa [tree] using expr_reads hread rfl hg

theorem oneLine (c : Closure) : OneLine c.text := by
  have hword : OneLine (if c.isFunc then "func" else "") := by cases c.isFunc <;> decide
  have hopen : OneLine "(" := by decide
  have hparams : OneLine (printParams (c.params.params Atom.operands)) := by
    rw [c.params.printParams_eq Atom.print_tree]
    exact (hopen.append (c.params.oneLine Template.Name.oneLine Atom.oneLine)).append (by decide)
  exact ((hword.append hparams).append (by decide)).append c.body.oneLine

theorem unmarked_text (c : Closure) : Unmarked c.text := fun ch hch => (c.oneLine ch hch).2

end Closure

namespace FileSet

open Command

/-- Parameters and an arrow, with the word for functions before them and without it, are parsed
without a complaint, and both as the closure with these parameters, whose text the list is. -/
theorem parse_closures (set : FileSet) (name : String) (options : ParseOptions)
    (hmixed : options.scan.mixed = false) (hauto : options.scan.noAutoSemicolons = false)
    (target : Template.Name) (op : Token.Kind) (hop : op.isAssign = true)
    (l : Listing Template.Name Atom) (body : Template.Name) :
    let params := l.params Atom.operands
    let line (rhs : String) := target.text ++ " " ++ op.spelling ++ " " ++ rhs ++ "\n"
    let stmts := [Build.assign (Build.ident target.text) op
      (.closure 0 params 0 (Build.ident body.text))]
    ∃ parsed later other last,
      set.parse name (Glyph.ofBytes (utf8 (line (printParams params ++ " => " ++ body.text))))
        options = .ok (parsed, later) ∧
      set.parse name (Glyph.ofBytes (utf8 (line ("func" ++ printParams params ++ " => " ++
        body.text)))) options = .ok (other, last) ∧
      parsed.errors = [] ∧ other.errors = [] ∧
      unplacedStmts parsed.document.stmts = stmts ∧
      unplacedStmts other.document.stmts = stmts := by
  intro params line stmts
  have hparse (isFunc : Bool) : ∃ parsed later,
      set.parse name (Glyph.ofBytes (utf8 (line (Closure.text ⟨isFunc, l, body⟩)))) options =
        .ok (parsed, later) ∧
      parsed.errors = [] ∧ unplacedStmts parsed.document.stmts = stmts := by
    have hscript := parse_script options hmixed hauto (Closure.lexed hmixed) (Atom.lexed hmixed)
      (fun _ => Closure.read) (fun _ => Atom.begins) Closure.unmarked_text Atom.unmarked set name
      [.assign target op hop ⟨isFunc, l, body⟩]
    rw [Command.source, texts, texts, List.map_singleton, String.join_cons, String.join_nil,
      String.append_empty] at hscript
    exact hscript
  obtain ⟨parsed, later, hfirst, herrors, hstmts⟩ := hparse false
  obtain ⟨other, last, hsecond, herrors', hstmts'⟩ := hparse true
  simp only [Closure.text, Bool.false_eq_true, if_false, String.empty_append] at hfirst
  exact ⟨parsed, later, other, last, hfirst, hsecond, herrors, herrors', hstmts, hstmts'⟩

/-- A closure with parameters of all sorts. -/
theorem parse_closures_all :
    let params : Params Expr :=
      { lparen := 0, positional := [⟨Build.name "a", []⟩], variadic := some ⟨Build.name "b", []⟩,
        named := [(⟨Build.name "c", []⟩, Build.int 1), (⟨Build.name "d", []⟩, Build.ident "a")],
        namedVariadic := some ⟨Build.name "e", []⟩, rparen := 0 }
    let stmts := [Build.define "f" (.closure 0 params 0 (Build.ident "a"))]
    ∃ parsed later other last,
      FileSet.parse {} "main" (Glyph.ofBytes (utf8 "f := (a, *b; c=1, d=a, **e) => a\n")) {} =
        .ok (parsed, later) ∧
      FileSet.parse {} "main" (Glyph.ofBytes (utf8 "f := func(a, *b; c=1, d=a, **e) => a\n")) {} =
        .ok (other, last) ∧
      parsed.errors = [] ∧ other.errors = [] ∧
      unplacedStmts parsed.document.stmts = stmts ∧
      unplacedStmts other.document.stmts = stmts := by
  intro params stmts
  let name (text : String) (hbare : isBareName text = true)
      (hident : Token.Kind.ofWord text = .ident) : Template.Name := ⟨text, hbare, hident⟩
  let one : Integer := .ofNat false 1 (by decide)
  let a := name "a" (by decide +kernel) (by decide +kernel)
  let l : Listing Template.Name Atom :=
    { positional := [a]
      spread := some (name "b" (by decide +kernel) (by decide +kernel))
      named := [(name "c" (by decide +kernel) (by decide +kernel), .integer one),
        (name "d" (by decide +kernel) (by decide +kernel), .name a)]
      namedSpread := some (name "e" (by decide +kernel) (by decide +kernel)) }
  have hone : (Atom.integer one).tree = Build.int 1 := Atom.tree_ofNat 1 (by decide)
  have hparams : l.params Atom.operands = params := by
    simp only [l, params, Listing.params, Atom.operands, List.map_cons, List.map_nil, hone]
    rfl
  have hparse := parse_closures {} "main" {} rfl rfl
    (name "f" (by decide +kernel) (by decide +kernel)) .define rfl l a
  rw [hparams] at hparse
  exact hparse

end FileSet

end TemplateScript
