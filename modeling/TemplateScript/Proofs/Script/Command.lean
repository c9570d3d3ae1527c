import TemplateScript.Proofs.Script.Atom
import TemplateScript.Proofs.Template.Canonical

/-!
# Scripts with fenced blocks

The statements of a script are assignments, branches, loops, blocks, results and expressions, over
any sort of operands that can be written. Each block stands between braces or between words of its
own. A script has a text and tokens, in which the fences show, and trees, in which they do not. With
braces around all blocks, the text of the script is the canonical text of its trees.
-/

namespace TemplateScript

/-- How operands are written: as a text, and as tokens. The tree is what they stand for. -/
structure Operands (α : Type) where
  text : α → String
  faces : α → List Token.Face
  tree : α → Expr

/-- Names and integers as operands. -/
def Atom.operands : Operands Atom := ⟨text, fun a => [a.face], tree⟩

/-- What stands around a block: braces, or a word that opens a block and one that closes it. -/
inductive Fence where
  | braces
  | words (opening : { word : String // word ∈ Token.Kind.blockOpeners })
      (closing : { word : String // word ∈ Token.Kind.blockClosers })

namespace Fence

/-- A text between the fence. Words are set apart from it by spaces. -/
def around (fence : Fence) (body : String) : String :=
  match fence with
  | braces => "\x7b" ++ body ++ "\x7d"
  | words opening closing => opening ++ " " ++ body ++ " " ++ closing

/-- The token that opens the block. -/
def opener : Fence → Token.Face
  | braces => Chain.opFace .lbrace
  | words opening _ => ⟨.lbrace, opening⟩

/-- The token that closes the block. -/
def closer : Fence → Token.Face
  | braces => Chain.opFace .rbrace
  | words _ closing => ⟨.rbrace, closing⟩

theorem opener_kind (fence : Fence) : fence.opener.kind = .lbrace := by cases fence <;> rfl

theorem closer_kind (fence : Fence) : fence.closer.kind = .rbrace := by cases fence <;> rfl

end Fence

/-- A statement of a script, over operands, and over those that may begin a statement or be the test
of a branch. -/
inductive Command (α β : Type) where
  /-- The definition of a name, or another assignment to it. -/
  | assign (x : Template.Name) (op : Token.Kind) (isAssign : op.isAssign = true) (e : α)
  | ifThen (test : β) (fence : Fence) (body : List (Command α β))
  | ifElse (test : β) (fence : Fence) (body : List (Command α β))
      (elseFence : Fence) (otherwise : List (Command α β))
  | each (key : Template.Name) (value : Option Template.Name) (list : α) (fence : Fence)
      (body : List (Command α β))
  | block (fence : Fence) (body : List (Command α β))
  | ret (result : Option α)
  | expr (e : β)

namespace Command

variable {α β : Type}

section Writing

variable (w : Operands α) (v : Operands β)

mutual

/-- The text of a statement. -/
def text : Command α β → String
  | assign x op _ e => x.text ++ " " ++ op.spelling ++ " " ++ w.text e
  | ifThen test fence body =>
    "if " ++ v.text test ++ " " ++ fence.around ("; ".intercalate (texts body))
  | ifElse test fence body elseFence otherwise =>
    "if " ++ v.text test ++ " " ++ fence.around ("; ".intercalate (texts body)) ++ " else " ++
      elseFence.around ("; ".intercalate (texts otherwise))
  | each key value list fence body =>
    "for " ++ key.text ++ led ", " (value.map (·.text)) ++ " in " ++ w.text list ++ " " ++
      fence.around ("; ".intercalate (texts body))
  | block fence body => fence.around ("; ".intercalate (texts body))
  | ret result => "return" ++ led " " (result.map w.text)
  | expr e => v.text e

/-- The texts of statements. -/
def texts : List (Command α β) → List String
  | [] => []
  | s :: rest => text s :: texts rest

end

/-- The text of a script: each statement stands on a line of its own. -/
def source (script : List (Command α β)) : String :=
  String.join ((texts w v script).map (· ++ "\n"))

/-- The token of a semicolon between statements. -/
def semicolon : Token.Face := ⟨.semicolon, ";"⟩

/-- Statements with semicolons between them, from the tokens of each. -/
def bodyFaces (rows : List (List Token.Face)) : List Token.Face := separated semicolon rows

mutual

/-- The tokens of a statement. -/
def faces : Command α β → List Token.Face
  | assign x op _ e => x.face :: Chain.opFace op :: w.faces e
  | ifThen test fence body =>
    ⟨.ifWord, "if"⟩ :: (v.faces test ++
      fence.opener :: (bodyFaces (allFaces body) ++ [fence.closer]))
  | ifElse test fence body elseFence otherwise =>
    ⟨.ifWord, "if"⟩ :: (v.faces test ++
      fence.opener :: (bodyFaces (allFaces body) ++
        fence.closer :: ⟨.elseWord, "else"⟩ :: elseFence.opener ::
          (bodyFaces (allFaces otherwise) ++ [elseFence.closer])))
  | each key value list fence body =>
    ⟨.forWord, "for"⟩ :: key.face :: ((value.map fun x => [Chain.opFace .comma, x.face]).getD [] ++
      ⟨.inWord, "in"⟩ :: (w.faces list ++
        fence.opener :: (bodyFaces (allFaces body) ++ [fence.closer])))
  | block fence body =>
    fence.opener :: (bodyFaces (allFaces body) ++ [fence.closer])
  | ret result => ⟨.returnWord, "return"⟩ :: (result.map w.faces).getD []
  | expr e => v.faces e

/-- The tokens of each of some statements. -/
def allFaces : List (Command α β) → List (List Token.Face)
  | [] => []
  | s :: rest => faces s :: allFaces rest

end

/-- The tokens of a script. -/
def sourceFaces (script : List (Command α β)) : List Token.Face :=
  (allFaces w v script).flatMap (· ++ [.lineBreak])

mutual

/-- The tree of a statement. -/
def tree : Command α β → Stmt
  | assign x op _ e => Build.assign (Build.ident x.text) op (w.tree e)
  | ifThen test _ body => Build.ifElse (v.tree test) (trees body) none
  | ifElse test _ body _ otherwise =>
    Build.ifElse (v.tree test) (trees body) (some (trees otherwise))
  | each key value list _ body =>
    Build.forIn key.text (value.map (·.text)) (w.tree list) (trees body)
  | block _ body => Build.blockStmt (trees body)
  | ret result => Build.ret (result.map w.tree)
  | expr e => Build.expr (v.tree e)

/-- The trees of statements. -/
def trees : List (Command α β) → List Stmt
  | [] => []
  | s :: rest => tree s :: trees rest

end

end Writing

mutual

/-- The statement with braces around all its blocks. -/
def braced : Command α β → Command α β
  | assign x op isAssign e => assign x op isAssign e
  | ifThen test _ body => ifThen test .braces (allBraced body)
  | ifElse test _ body _ otherwise =>
    ifElse test .braces (allBraced body) .braces (allBraced otherwise)
  | each key value list _ body => each key value list .braces (allBraced body)
  | block _ body => block .braces (allBraced body)
  | ret result => ret result
  | expr e => expr e

/-- Statements with braces around all their blocks. -/
def allBraced : List (Command α β) → List (Command α β)
  | [] => []
  | s :: rest => braced s :: allBraced rest

end

variable {w : Operands α} {v : Operands β}

mutual

/-- Trees do not tell what stood around the blocks. -/
theorem tree_braced : ∀ s : Command α β, tree w v s.braced = tree w v s
  | assign .. | ret _ | expr _ => rfl
  | ifThen _ _ body | each _ _ _ _ body | block _ body => by
    simp only [braced, tree, trees_allBraced body]
  | ifElse _ _ body _ otherwise => by
    simp only [braced, tree, trees_allBraced body, trees_allBraced otherwise]

theorem trees_allBraced : ∀ script : List (Command α β),
    trees w v (allBraced script) = trees w v script
  | [] => rfl
  | s :: rest => by simp only [allBraced, trees, tree_braced s, trees_allBraced rest]

end

end Command

/-! ### Canonical text -/

/-- What is so of the characters of texts and of what is put between them is so when they are
joined. -/
theorem forall_mem_intercalate {P : Char → Prop} {separator : String} {texts : List String}
    (hseparator : ∀ ch ∈ separator.toList, P ch) (h : ∀ text ∈ texts, ∀ ch ∈ text.toList, P ch) :
    ∀ ch ∈ (separator.intercalate texts).toList, P ch := by
  induction texts with
  | nil => exact fun _ hch => absurd hch List.not_mem_nil
  | cons first texts ih =>
    obtain ⟨hfirst, hmore⟩ := List.forall_mem_cons.1 h
    cases texts with
    | nil => exact hfirst
    | cons second texts =>
      rw [String.intercalate_cons_cons, String.toList_append, String.toList_append]
      exact List.forall_mem_append.2 ⟨List.forall_mem_append.2 ⟨hfirst, hseparator⟩, ih hmore⟩

theorem OneLine.intercalate {separator : String} {texts : List String}
    (hseparator : OneLine separator) (h : ∀ text ∈ texts, OneLine text) :
    OneLine (separator.intercalate texts) :=
  forall_mem_intercalate hseparator h

/-- Between two statements of code stands what is put there. -/
theorem separator_code {between text : String} {before after : Stmt}
    (hbefore : before.isMixedBoundary = false) (hafter : after.isMixedBoundary = false) :
    separator between before text after = between := by
  cases before <;> cases hbefore <;> cases after <;> first | rfl | cases hafter

/-- The texts of statements of code are joined by what is put between them. -/
theorem joinStmts_eq_intercalate {between : String} {parts : List (Stmt × String)}
    (h : ∀ part ∈ parts, part.1.isMixedBoundary = false) :
    joinStmts between parts = between.intercalate (parts.map (·.2)) := by
  fun_induction joinStmts between parts with
  | case1 => rfl
  | case2 => rfl
  | case3 before text after next rest ih =>
    obtain ⟨hbefore, hrest⟩ := List.forall_mem_cons.1 h
    have hafter := hrest _ List.mem_cons_self
    rw [ih hrest, separator_code hbefore hafter]
    exact (String.intercalate_cons_cons ..).symm

/-- A block of code is written between braces. -/
theorem printBlock_code {parts : List (Stmt × String)}
    (h : ∀ part ∈ parts, part.1.isMixedBoundary = false) :
    printBlock parts = Fence.braces.around ("; ".intercalate (parts.map (·.2))) := by
  have hany : parts.any (·.1.isMixedBoundary) = false := List.any_eq_false.2 fun part hpart => by
    rw [h part hpart]
    exact Bool.false_ne_true
  rw [printBlock, hany, if_neg Bool.false_ne_true, joinStmts_eq_intercalate h]
  rfl

/-- A file of code has each statement on a line of its own. -/
theorem printFile_code {stmts : List Stmt}
    (h : ∀ part ∈ printStmts stmts, part.1.isMixedBoundary = false) :
    printFile stmts = String.join ((printStmts stmts).map (·.2 ++ "\n")) := by
  have hlines (parts : List (Stmt × String)) (hparts : parts ≠ []) :
      "\n".intercalate (parts.map (·.2)) ++ "\n" = String.join (parts.map (·.2 ++ "\n")) := by
    induction parts with
    | nil => exact absurd rfl hparts
    | cons first parts ih =>
      cases parts with
      | nil => simp
      | cons second parts =>
        have hrest := ih (List.cons_ne_nil _ _)
        rw [List.map_cons, List.map_cons, String.intercalate_cons_cons, String.append_assoc,
          ← List.map_cons, hrest]
        simp
  unfold printFile
  dsimp only
  rw [joinStmts_eq_intercalate h]
  cases hlast : (printStmts stmts).getLast? with
  | none => simp [List.getLast?_eq_none_iff.1 hlast]
  | some part =>
    have hmem := List.mem_of_getLast? hlast
    rw [← hlines _ (List.ne_nil_of_mem hmem), Option.map_some, Option.any_some, h part hmem]
    rfl

namespace Command

variable {α β : Type} {w : Operands α} {v : Operands β}

/-- The statement is code, of which there is something to print. -/
theorem tree_isCode (s : Command α β) :
    (tree w v s).isEmpty = false ∧ (tree w v s).isMixedBoundary = false := by
  cases s <;> exact ⟨rfl, rfl⟩

/-- All that is printed of a script is code. -/
theorem printStmts_isCode (script : List (Command α β)) :
    ∀ part ∈ printStmts (trees w v script), part.1.isMixedBoundary = false := by
  induction script with
  | nil => exact List.forall_mem_nil _
  | cons s rest ih =>
    rw [trees, Template.printStmts_cons s.tree_isCode.1]
    exact List.forall_mem_cons.2 ⟨s.tree_isCode.2, ih⟩

mutual

/-- The tree of a statement is printed as the statement with braces around all blocks. -/
theorem print_tree (hw : ∀ e, (w.tree e).print = w.text e)
    (hv : ∀ e, (v.tree e).print = v.text e) :
    ∀ s : Command α β, (tree w v s).print = text w v s.braced
  | assign x op _ e => by
    simp only [tree, braced, text, Build.assign, Stmt.print, printExprs,
      String.intercalate_singleton, hw]
    rfl
  | ifThen test _ body => by
    have hbody := print_trees hw hv body
    simp only [tree, braced, text, Build.ifElse, Build.block, Stmt.print, printBody, hv]
    rw [printBlock_code (printStmts_isCode body), hbody]
    simp [printStmt?, tailed, led]
  | ifElse test _ body _ otherwise => by
    have hbody := print_trees hw hv body
    have hotherwise := print_trees hw hv otherwise
    simp only [tree, braced, text, Build.ifElse, Build.block, Stmt.print, printBody, hv, printStmt?,
      Option.map_some]
    rw [printBlock_code (printStmts_isCode body), hbody,
      printBlock_code (printStmts_isCode otherwise), hotherwise]
    simp [tailed, led, String.append_assoc]
  | each key value list _ body => by
    have hbody := print_trees hw hv body
    simp only [tree, braced, text, Build.forIn, Build.block, Stmt.print, printBody, hw]
    rw [printBlock_code (printStmts_isCode body), hbody]
    cases value <;> simp [printBody?, led, Build.name]
  | block _ body => by
    have hbody := print_trees hw hv body
    simp only [tree, braced, text, Build.blockStmt, Build.block, Stmt.print, printBody]
    rw [printBlock_code (printStmts_isCode body), hbody]
  | ret none => rfl
  | ret (some e) => by
    simp only [tree, braced, text, Build.ret, Option.map_some, Stmt.print, printExpr?, hw]
  | expr e => hv e

theorem print_trees (hw : ∀ e, (w.tree e).print = w.text e)
    (hv : ∀ e, (v.tree e).print = v.text e) : ∀ script : List (Command α β),
    (printStmts (trees w v script)).map (·.2) = texts w v (allBraced script)
  | [] => rfl
  | s :: rest => by
    rw [trees, Template.printStmts_cons s.tree_isCode.1, List.map_cons,
      print_trees hw hv rest]
    simp only [print_tree hw hv s, allBraced, texts]

end

/-- The trees of a script are printed as the script with braces around all blocks. -/
theorem printFile_trees (hw : ∀ e, (w.tree e).print = w.text e)
    (hv : ∀ e, (v.tree e).print = v.text e) (script : List (Command α β)) :
    printFile (trees w v script) = source w v (allBraced script) := by
  rw [printFile_code (printStmts_isCode script), source, ← print_trees hw hv script, List.map_map]
  rfl

end Command

end TemplateScript
