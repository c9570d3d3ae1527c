import TemplateScript.Grammar.Expression

/-!
# Statements of code

Assignments, branches, loops, handlers and declarations. A block may be closed by the `else` of its
statement, and then the `else` branch shares the closing brace.
-/

namespace TemplateScript

namespace Grammar

open Parse

/-! ### Simple statements -/

/-- A target can be assigned to; what a definition defines must be a name. -/
def isTarget (op : Token.Kind) (e : Expr) : Bool :=
  if op = .define then e.ident?.isSome else e.isAssignable

/-- Record every target that cannot be assigned to. -/
def checkTargets (op : Token.Kind) : List Expr → Parse Unit
  | [] => return ()
  | e :: rest => do
    if !isTarget op e then errorAt e.pos (.invalidAssignTarget e.print)
    checkTargets op rest

/-- Values go to targets one to one, or one value to all of them. Operators that combine have one of
each. -/
def isBalanced (op : Token.Kind) (targets values : List Expr) : Bool :=
  if op = .assign || op = .define then values.length = targets.length || values.length = 1
  else targets.length = 1 && values.length = 1

/-- An assignment behind its targets. -/
def assignment (deep : Nested) (targets : List Expr) : Parse Stmt := do
  let token ← token
  next
  checkTargets token.kind targets
  let values ← exprs deep
  if !isBalanced token.kind targets values then
    errorAt token.pos (.assignArity token.kind.spelling)
  return .assign targets token.kind token.pos values

/-- An increment or a decrement behind its target. -/
def increment (target : Expr) : Parse Stmt := do
  let token ← token
  if !target.isAssignable then errorAt target.pos (.invalidAssignTarget target.print)
  next
  return .incDec target token.kind token.pos

/-- A statement that begins with given expressions: an assignment, an increment, or one expression.
-/
def simpleStmtFrom (deep : Nested) (list : List Expr) : Parse Stmt := do
  let kind ← kind
  if kind.isAssign then assignment deep list
  else
    match list with
    | [e] => if kind = .inc || kind = .dec then increment e else return .expr e
    | [] => failExpected "expression"
    | _ => failExpected ":= or ="

/-- A statement without blocks and keywords. -/
def simpleStmt (deep : Nested) : Parse Stmt := do
  let list ← exprs deep
  simpleStmtFrom deep list

/-! ### Blocks and branches -/

/-- A block that a closing brace or an `else` ends, and whether it was an `else`. -/
def openBlock (deep : Nested) : Parse (Block Stmt × Bool) := do
  let lbrace ← expect .lbrace
  let stmts ← deep.stmts
  if (← kind) = .elseWord then return (⟨lbrace, stmts, ← pos⟩, true)
  else
    let rbrace ← closeBlock
    return (⟨lbrace, stmts, rbrace⟩, false)

/-- The statements behind an `else` that closed a block, up to the brace that both share. -/
def sharedBlock (deep : Nested) : Parse (Block Stmt) := do
  let lbrace ← pos
  let stmts ← deep.stmts
  let rbrace ← closeBlock
  return ⟨lbrace, stmts, rbrace⟩

/-- A statement in place of a condition. -/
def failCondition {α : Type} (wanted : String) (s : Stmt) : Parse α :=
  failAt s.pos (.expected wanted s.print)

/-- What stands between `if` and its block: perhaps a statement, and the condition. -/
def ifHead (deep : Nested) : Parse (Option Stmt × Expr) := do
  match ← kind with
  | .lbrace => failExpected "condition"
  | .semicolon =>
    next
    let test ← expr deep
    return (none, test)
  | _ =>
    let first ← simpleStmt deep
    if ← accept .semicolon then
      let test ← expr deep
      return (some first, test)
    else
      match first with
      | .expr test => return (none, test)
      | other => failCondition "condition" other

/-- What stands behind the `else` of an `if`. -/
def ifElse (deep : Nested) (isShared : Bool) : Parse Stmt := do
  match ← kind with
  | .ifWord => deep.ifStmt
  | .lbrace =>
    let body ← block deep
    expectSemicolon
    return .block body
  | _ =>
    if isShared then
      let body ← sharedBlock deep
      expectSemicolon
      return .block body
    else failExpected "if statement or block"

/-- A branch. -/
def ifStmt (deep : Nested) : Parse Stmt := do
  let pos ← expect .ifWord
  let (init, test) ← ifHead deep
  let (body, isShared) ← openBlock deep
  if ← accept .elseWord then
    let otherwise ← ifElse deep isShared
    return .ifElse pos init test body (some otherwise)
  else
    expectSemicolon
    return .ifElse pos init test body none

/-! ### Loops -/

/-- The `else` of a loop, if there is one. -/
def loopElse (deep : Nested) (isShared : Bool) : Parse (Option (Block Stmt)) := do
  if ← accept .elseWord then
    if (← kind) = .lbrace then return some (← block deep)
    else if isShared then return some (← sharedBlock deep)
    else failExpected "\x7b"
  else return none

/-- The body of a loop, and its `else`. -/
def loopBody (deep : Nested) : Parse (Block Stmt × Option (Block Stmt)) := do
  let (body, isShared) ← openBlock deep
  let otherwise ← loopElse deep isShared
  expectSemicolon
  return (body, otherwise)

/-- The names that expressions are. -/
def loopNames : List Expr → Parse (List Ident)
  | [] => return []
  | e :: rest => do
    match e.ident? with
    | some ident =>
      let others ← loopNames rest
      return ident :: others
    | none => failAt e.pos (.expected "identifier" e.print)

/-- A loop over the elements of a collection, from its `in` on. -/
def forIn (deep : Nested) (forPos : Pos) (list : List Expr) : Parse Stmt := do
  let inPos ← pos
  let names ← loopNames list
  let (key, value) ← match names with
    | [key] => pure (key, none)
    | [key, value] => pure (key, some value)
    | [] => failExpected "identifier"
    | _ => failAt inPos (.expected "at most 2 loop variables" (toString names.length))
  next
  let iterable ← expr deep
  let (body, otherwise) ← loopBody deep
  return .forIn forPos key value iterable body otherwise

/-- A loop with an initial statement, a condition and a statement for every round, from the first
semicolon on. -/
def forParts (deep : Nested) (pos : Pos) (init : Option Stmt) : Parse Stmt := do
  next
  let test ← if (← kind) = .semicolon then pure none else some <$> expr deep
  let _ ← expect .semicolon
  let post ← if (← kind) = .lbrace then pure none else some <$> simpleStmt deep
  let (body, otherwise) ← loopBody deep
  return .forLoop pos init test post body otherwise

/-- A loop with a condition, or without one. -/
def forTest (deep : Nested) (pos : Pos) (test : Option Expr) : Parse Stmt := do
  let (body, otherwise) ← loopBody deep
  return .forLoop pos none test none body otherwise

/-- A loop. -/
def forStmt (deep : Nested) : Parse Stmt := do
  let pos ← expect .forWord
  match ← kind with
  | .lbrace => forTest deep pos none
  | .semicolon => forParts deep pos none
  | _ =>
    let list ← exprs deep
    if (← kind) = .inWord then forIn deep pos list
    else
      let init ← simpleStmtFrom deep list
      if (← kind) = .semicolon then forParts deep pos (some init)
      else
        match init with
        | .expr test => forTest deep pos (some test)
        | other => failCondition "for loop condition" other

/-! ### Handlers -/

/-- The clause that handles what is thrown, if there is one. -/
def catchClause (deep : Nested) : Parse (Option (CatchClause Stmt)) := do
  let pos ← pos
  if ← accept .catchWord then
    let ident ← if (← kind) = .ident then some <$> expectIdent else pure none
    let body ← block deep
    return some ⟨pos, ident, body⟩
  else return none

/-- The clause that is always run, if there is one. -/
def finallyClause (deep : Nested) : Parse (Option (FinallyClause Stmt)) := do
  let pos ← pos
  if ← accept .finallyWord then
    let body ← block deep
    return some ⟨pos, body⟩
  else return none

/-- A block with what is done about what it throws. -/
def tryStmt (deep : Nested) : Parse Stmt := do
  let pos ← expect .tryWord
  let body ← block deep
  let handler ← catchClause deep
  let finalizer ← finallyClause deep
  if handler.isNone && finalizer.isNone then errorAt pos .tryWithoutHandler
  expectSemicolon
  return .tryCatch pos body handler finalizer

/-! ### Declarations -/

/-- The entries of a declaration that parameters are. -/
def specsOfParams (params : Params Expr) : List (Spec Expr) :=
  params.positional.map (.param · false) ++ (params.variadic.map (.param · true)).toList ++
    params.named.map (fun (ident, value) => .named ident (some value) false) ++
    (params.namedVariadic.map (.named · none true)).toList

/-- One parameter without parentheses. -/
def paramSpec (deep : Nested) : Parse (Spec Expr) := do
  match ← kind with
  | .mul =>
    next
    return .param (← typedIdent) true
  | .pow =>
    next
    return .named (← typedIdent) none true
  | _ =>
    let ident ← typedIdent
    if ← accept .assign then
      let value ← expr deep
      return .named ident (some value) false
    else return .param ident false

/-- One declared name. A global has no value, and a constant must have one. -/
def valueSpec (deep : Nested) (word : Token.Kind) : Parse (Spec Expr) := do
  let ident ← expectIdent
  if word ≠ .globalWord && (← kind) = .assign then
    next
    let value ← expr deep
    return .value ident (some value)
  else if word = .constWord then failExpected "="
  else return .value ident none

/-- Declared names between parentheses. -/
def valueSpecs (deep : Nested) (word : Token.Kind) : Parse (List (Spec Expr)) :=
  loop [] fun list => do
    skipSemicolons
    if (← kind) = .rparen then return .done list
    else
      let spec ← valueSpec deep word
      match ← kind with
      | .comma | .semicolon =>
        next
        return .again (list ++ [spec])
      | .rparen => return .done (list ++ [spec])
      | _ => failExpected ")"

/-- The entries of a declaration between parentheses. -/
def groupedSpecs (deep : Nested) (word : Token.Kind) (lparen : Pos) : Parse (List (Spec Expr)) := do
  if word = .paramWord then return specsOfParams (← paramList deep lparen)
  else valueSpecs deep word

/-- A declaration. -/
def decl (deep : Nested) : Parse Stmt := do
  let word ← token
  next
  let lparen ← pos
  if ← accept .lparen then
    let specs ← groupedSpecs deep word.kind lparen
    let rparen ← expect .rparen
    expectSemicolon
    return .decl word.kind word.pos (some lparen) specs (some rparen)
  else
    let spec ← if word.kind = .paramWord then paramSpec deep else valueSpec deep word.kind
    expectSemicolon
    return .decl word.kind word.pos none [spec] none

end Grammar

end TemplateScript
