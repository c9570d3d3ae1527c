import TemplateScript.Options
import TemplateScript.Text.Alphabetic
import TemplateScript.Text.Numeric
import TemplateScript.Text.Quoted
import TemplateScript.Tree.Basic

/-!
# Canonical text

Every tree has one canonical text. Operators are put between parentheses, so that the text is read
back as the same tree whatever stands around it, and the text of a template is written as it stands.
Statements of a file stand on lines of their own, and nothing is ever written next to the text of a
template, which would become part of it.
-/

namespace TemplateScript

/-! ### Names -/

/-- A name that can be written without quotes after a point and as a dict key: a word, but not one
that stands for a brace. -/
def isBareName (name : String) : Bool :=
  match name.toList with
  | [] => false
  | c :: rest =>
    let kind := Token.Kind.ofWord name
    (c = '_' || Text.isAlphabetic c) &&
      rest.all (fun c => c = '_' || Text.isAlphabetic c || Text.isNumeric c) &&
      (kind = .ident || kind.isKeyword)

/-- The text of a dict key. -/
def printKey (name : String) : String := if isBareName name then name else Text.quote name

/-- The text of a name with its types. -/
def TypedIdent.print (t : TypedIdent) : String :=
  match t.types with
  | [] => t.ident.name
  | types => t.ident.name ++ " " ++ "|".intercalate (types.map (·.name))

/-! ### Lists -/

/-- Parts of a list in two groups, with a comma between two parts and a semicolon between the
groups. -/
def printGroups (positional named : List String) : String :=
  ", ".intercalate positional ++
    (if positional.isEmpty || named.isEmpty then "" else "; ") ++ ", ".intercalate named

/-- What stands between two statements. A pragma begins on a line of its own; next to text nothing
may be written. -/
def separator (between : String) (before : Stmt) (textBefore : String) (after : Stmt) : String :=
  if after.isPragma then
    if textBefore.toList.getLast? = some '\n' then "" else "\n"
  else
    match before, after with
    | .mixedText _, _ | .mixedValue .., _ | .codeEnd _, _ | .pragma .., _ => ""
    | _, .mixedText _ | _, .mixedValue .. | _, .codeBegin _ => ""
    | .codeBegin _, _ | _, .codeEnd _ => " "
    | _, _ => between

/-- The text of statements, from each with its own text. -/
def joinStmts (between : String) : List (Stmt × String) → String
  | [] => ""
  | [(_, text)] => text
  | (before, text) :: (after, next) :: rest =>
    text ++ separator between before text after ++ joinStmts between ((after, next) :: rest)

/-- The text of a block, from each of its statements with its own text. Braces would count as
brackets in the code of a template, so a block that holds text is written between words. -/
def printBlock (stmts : List (Stmt × String)) : String :=
  let body := joinStmts "; " stmts
  if stmts.any (·.1.isMixedBoundary) then
    let lead := if (stmts.head?.map (·.1)).any Stmt.isPragma then "\n" else " "
    let last := (lead ++ body).toList.getLast?
    "do" ++ lead ++ body ++ (if last = some ' ' ∨ last = some '\n' then "" else " ") ++ "end"
  else "\x7b" ++ body ++ "\x7d"

/-! ### Parts that may be missing -/

/-- A text behind a lead, if there is a text. -/
def led (lead : String) (text : Option String) : String :=
  match text with
  | some text => lead ++ text
  | none => ""

/-- A text before a tail, if there is a text. -/
def tailed (text : Option String) (tail : String) : String :=
  match text with
  | some text => text ++ tail
  | none => ""

/-- The head of a loop: three parts between semicolons, or the condition alone. -/
def loopHead (init test post : Option String) : String :=
  if init.isSome || post.isSome then
    init.getD "" ++ "; " ++ test.getD "" ++ "; " ++ tailed post " "
  else tailed test " "

/-- A call: the first argument of a piped one is written before the function. -/
def printCall (piped : Bool) (func : String) (positional named : List String) : String :=
  match piped, positional with
  | true, first :: rest => first ++ " .| " ++ func ++ "(" ++ printGroups rest named ++ ")"
  | _, _ => func ++ "(" ++ printGroups positional named ++ ")"

/-- The expression is printed between parentheses of its own. -/
def Expr.isOperation : Expr → Bool
  | .binary .. | .unary .. | .cond .. => true
  | _ => false

/-- What is written behind the point of a selection, where the expression has a text: a bare name,
or else the expression between parentheses. -/
def selected (name : Expr) (text : String) : String :=
  match name with
  | .literal ⟨.string value, _, _⟩ => if isBareName value then value else "(" ++ text ++ ")"
  | _ => "(" ++ text ++ ")"

/-! ### Expressions and statements -/

mutual

/-- The text of an expression. -/
def Expr.print : Expr → String
  | .ident id => id.name
  | .literal lit => lit.text
  | .word word _ => word.spelling
  | .array _ elements _ => "[" ++ ", ".intercalate (printExprs elements) ++ "]"
  | .dict _ entries _ => "\x7b" ++ ", ".intercalate (printEntries entries) ++ "\x7d"
  | .binary lhs op _ rhs => "(" ++ lhs.print ++ " " ++ op.spelling ++ " " ++ rhs.print ++ ")"
  | .unary op _ operand =>
    if op.isTest then "(" ++ operand.print ++ " " ++ op.spelling ++ ")"
    else "(" ++ op.spelling ++ operand.print ++ ")"
  | .cond test _ yes _ no =>
    "(" ++ test.print ++ " ? " ++ yes.print ++ " : " ++ no.print ++ ")"
  | .call func _ args _ piped => printCall piped func.print (printArgs args).1 (printArgs args).2
  | .index base _ index _ => base.print ++ "[" ++ index.print ++ "]"
  | .slice base _ low high _ =>
    base.print ++ "[" ++ (printExpr? low).getD "" ++ ":" ++ (printExpr? high).getD "" ++ "]"
  | .selector base name nullish =>
    base.print ++ (if nullish then "?." else ".") ++ selected name name.print
  | .paren _ inner _ => if inner.isOperation then inner.print else "(" ++ inner.print ++ ")"
  | .tuple _ args _ =>
    "(" ++ printGroups (printArgs args).1 (printArgs args).2 ++
      (if args.single?.isSome then "," else "") ++ ")"
  | .keyValues _ entries _ => "(;" ++ ", ".intercalate (printKeyValues entries) ++ ")"
  | .func _ name params body =>
    "func" ++ led " " (name.map (·.name)) ++ printParams params ++ " " ++
      printBlock (printBody body)
  | .closure _ params _ body => "func" ++ printParams params ++ " => " ++ body.print
  | .load kind _ path _ =>
    (match kind with | .imported => "import(" | .embedded => "embed(") ++ Text.quote path ++ ")"
  | .ret _ result => "return" ++ led " " (printExpr? result)
  | .bad .. => "<bad expression>"

/-- The texts of expressions. -/
def printExprs : List Expr → List String
  | [] => []
  | e :: rest => e.print :: printExprs rest

/-- The text of an expression, if there is one. -/
def printExpr? : Option Expr → Option String
  | none => none
  | some e => some e.print

/-- The texts of dict entries. -/
def printEntries : List (DictEntry Expr) → List String
  | [] => []
  | ⟨key, _, value⟩ :: rest => (printKey key ++ ": " ++ value.print) :: printEntries rest

/-- The texts of keys with their values. -/
def printKeyValues : List (KeyValue Expr) → List String
  | [] => []
  | ⟨key, value⟩ :: rest => (key.print ++ led "=" (printExpr? value)) :: printKeyValues rest

/-- The texts of named arguments. -/
def printNamed : List (Expr × Expr) → List String
  | [] => []
  | (name, value) :: rest => (name.print ++ "=" ++ value.print) :: printNamed rest

/-- The texts of arguments: the positional ones, and the named ones. -/
def printArgs : Args Expr → List String × List String
  | ⟨positional, spread, named, namedSpread⟩ =>
    (printExprs positional ++ ((printExpr? spread).map ("*" ++ ·)).toList,
      printNamed named ++ ((printExpr? namedSpread).map ("**" ++ ·)).toList)

/-- The texts of parameters with defaults. -/
def printDefaults : List (TypedIdent × Expr) → List String
  | [] => []
  | (ident, value) :: rest => (ident.print ++ "=" ++ value.print) :: printDefaults rest

/-- The text of parameters between their parentheses. -/
def printParams : Params Expr → String
  | ⟨_, positional, variadic, named, namedVariadic, _⟩ =>
    "(" ++
      printGroups
        (positional.map TypedIdent.print ++ (variadic.map ("*" ++ ·.print)).toList)
        (printDefaults named ++ (namedVariadic.map ("**" ++ ·.print)).toList) ++
      ")"

/-- The texts of the entries of a declaration: the positional parameters, and all others. -/
def printSpecs : List (Spec Expr) → List String × List String
  | [] => ([], [])
  | .param ident variadic :: rest =>
    (((if variadic then "*" else "") ++ ident.print) :: (printSpecs rest).1, (printSpecs rest).2)
  | .named ident value variadic :: rest =>
    ((printSpecs rest).1,
      ((if variadic then "**" else "") ++ ident.print ++ led "=" (printExpr? value)) ::
        (printSpecs rest).2)
  | .value ident value :: rest =>
    ((printSpecs rest).1, (ident.name ++ led " = " (printExpr? value)) :: (printSpecs rest).2)

/-- The statements of a block that are not empty, each with its text. -/
def printBody : Block Stmt → List (Stmt × String)
  | ⟨_, stmts, _⟩ => printStmts stmts

/-- The text of a block, if there is one. -/
def printBody? : Option (Block Stmt) → Option String
  | none => none
  | some body => some (printBlock (printBody body))

/-- The text of the clause that handles what is thrown, if there is one. -/
def printCatch? : Option (CatchClause Stmt) → Option String
  | none => none
  | some ⟨_, ident, body⟩ =>
    some (tailed (ident.map (·.name)) " " ++ printBlock (printBody body))

/-- The text of the clause that is always run, if there is one. -/
def printFinally? : Option (FinallyClause Stmt) → Option String
  | none => none
  | some ⟨_, body⟩ => some (printBlock (printBody body))

/-- The statements that are not empty, each with its text. -/
def printStmts : List Stmt → List (Stmt × String)
  | [] => []
  | s :: rest => if s.isEmpty then printStmts rest else (s, s.print) :: printStmts rest

/-- The text of a statement, if there is one. -/
def printStmt? : Option Stmt → Option String
  | none => none
  | some s => some s.print

/-- The text of a statement. -/
def Stmt.print : Stmt → String
  | .expr e => e.print
  | .empty .. => ""
  | .block body => printBlock (printBody body)
  | .assign targets op _ values =>
    ", ".intercalate (printExprs targets) ++ " " ++ op.spelling ++ " " ++
      ", ".intercalate (printExprs values)
  | .decl kind _ lparen specs _ =>
    let entries := printGroups (printSpecs specs).1 (printSpecs specs).2
    kind.spelling ++ " " ++
      (if lparen.isSome || 1 < specs.length then "(" ++ entries ++ ")" else entries)
  | .ifElse _ init test body otherwise =>
    "if " ++ tailed (printStmt? init) "; " ++ test.print ++ " " ++ printBlock (printBody body) ++
      led " else " (printStmt? otherwise)
  | .forLoop _ init test post body otherwise =>
    "for " ++ loopHead (printStmt? init) (printExpr? test) (printStmt? post) ++
      printBlock (printBody body) ++ led " else " (printBody? otherwise)
  | .forIn _ key value iterable body otherwise =>
    "for " ++ key.name ++ led ", " (value.map (·.name)) ++ " in " ++ iterable.print ++ " " ++
      printBlock (printBody body) ++ led " else " (printBody? otherwise)
  | .branch kind _ => kind.spelling
  | .ret _ result => "return" ++ led " " (printExpr? result)
  | .incDec target op _ => target.print ++ op.spelling
  | .tryCatch _ body handler finalizer =>
    "try " ++ printBlock (printBody body) ++ led " catch " (printCatch? handler) ++
      led " finally " (printFinally? finalizer)
  | .throw _ e => "throw " ++ e.print
  | .mixedText text => text.literal
  | .codeBegin d => d.literal
  | .codeEnd d => d.literal
  | .mixedValue opening e closing => opening.literal ++ " " ++ e.print ++ " " ++ closing.literal
  | .pragma _ entries _ _ =>
    "# " ++ pragmaMarker ++ " " ++ ", ".intercalate (printKeyValues entries) ++ "\n"
  | .bad .. => "<bad statement>"

end

/-- The text of a list of statements: code ends with a line break, text as it stands. -/
def printFile (stmts : List Stmt) : String :=
  let parts := printStmts stmts
  joinStmts "\n" parts ++
    (if (parts.getLast?.map (·.1)).any (!·.isMixedBoundary) then "\n" else "")

/-- The canonical text of a document. -/
def Document.print (d : Document) : String := printFile d.stmts

/-- The text of a block. -/
def Block.print (b : Block Stmt) : String := printBlock (printBody b)

end TemplateScript
