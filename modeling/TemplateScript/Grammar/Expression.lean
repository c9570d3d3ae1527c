import TemplateScript.Grammar.Params

/-!
# Expressions

From the loosest binding to the tightest: conditionals, binary operations by precedence, operators
before their operand, selections, indexes, calls and pipes behind it, and operands.
-/

namespace TemplateScript

namespace Grammar

open Parse

/-! ### Blocks -/

/-- Use the brace that closes a block. At the end of the file the block is closed too, which is
recorded. -/
def closeBlock : Parse Pos := do
  let pos ← pos
  if ← isFull then return pos
  else
    match ← kind with
    | .rbrace =>
      next
      return pos
    | .eof =>
      errorAt pos .unclosedBrace
      return pos
    | _ => failExpected "\x7d"

/-- A block that only a closing brace ends. -/
def block (deep : Nested) : Parse (Block Stmt) := do
  let lbrace ← expect .lbrace
  let stmts ← deep.stmts
  let rbrace ← closeBlock
  return ⟨lbrace, stmts, rbrace⟩

/-! ### Operands -/

/-- The body of a closure, behind its parameters. -/
def closure (deep : Nested) (pos : Pos) (params : Params Expr) : Parse Expr := do
  let arrow ← expect .lambda
  let body ← deep.expr
  return .closure pos params arrow body

/-- Line breaks, a comma and line breaks, and whether the comma was there. -/
def separator : Parse Bool := do
  let _ ← skipLineBreaks
  if ← accept .comma then
    let _ ← skipLineBreaks
    return true
  else return false

/-- Entries with commas between them, up to a closing token. -/
def entries {α : Type} (closing : Token.Kind) (entry : Parse α) : Parse (List α) := do
  let _ ← skipLineBreaks
  loop [] fun list => do
    if (← kind) = closing then return .done list
    else
      let e ← entry
      if ← Grammar.separator then return .again (list ++ [e]) else return .done (list ++ [e])

/-- An array. -/
def array (deep : Nested) : Parse Expr := do
  let lbrack ← expect .lbrack
  let elements ← entries .rbrack deep.expr
  let rbrack ← expect .rbrack
  return .array lbrack elements rbrack

/-- The key of a dict entry: a name, a keyword or a string. -/
def dictKey : Parse String := do
  let token ← token
  let key? :=
    if nameLiteralKinds.contains token.kind then Text.unquote token.literal
    else if token.kind = .ident || token.kind.isKeyword then some token.text
    else none
  match key? with
  | some key =>
    next
    return key
  | none => failExpected "dict key"

/-- An entry of a dict. -/
def dictEntry (deep : Nested) : Parse (DictEntry Expr) := do
  let pos ← pos
  let key ← dictKey
  let _ ← expect .colon
  let value ← deep.expr
  return ⟨key, pos, value⟩

/-- A dict. -/
def dict (deep : Nested) : Parse Expr := do
  let lbrace ← expect .lbrace
  let list ← entries .rbrace (dictEntry deep)
  let rbrace ← expect .rbrace
  return .dict lbrace list rbrace

/-- A key, with a value or without one. -/
def keyValue (deep : Nested) : Parse (KeyValue Expr) := do
  let key ← argName
  if ← accept .assign then
    let value ← deep.expr
    return ⟨key, some value⟩
  else return ⟨key, none⟩

/-- What stands between parentheses: an expression, a tuple, keys with values, or the parameters of
a closure. -/
def parenthesized (deep : Nested) : Parse Expr := do
  let lparen ← expect .lparen
  if (← token).isExplicitSemicolon then
    next
    let list ← entries .rparen (keyValue deep)
    let rparen ← expect .rparen
    return .keyValues lparen list rparen
  else
    let (args, separated) ← argList deep
    let rparen ← expect .rparen
    if (← kind) = .lambda then
      let params ← paramsOfArgs lparen args rparen
      closure deep lparen params
    else
      match args.single?, separated with
      | some e, false => return .paren lparen e rparen
      | _, _ => return .tuple lparen args rparen

/-- A function: its body is a block, or an expression behind an arrow. -/
def func (deep : Nested) : Parse Expr := do
  let pos ← expect .funcWord
  let name ← if (← kind) = .ident then some <$> expectIdent else pure none
  let lparen ← expect .lparen
  let params ← paramList deep lparen
  let rparen ← expect .rparen
  let params := { params with rparen }
  if (← kind) = .lambda then closure deep pos params
  else
    let body ← block deep
    return .func pos name params body

/-- Something to load, by a name that is written out. -/
def load (kind : LoadKind) : Parse Expr := do
  let pos ← pos
  next
  let _ ← expect .lparen
  let token ← token
  let path? :=
    if nameLiteralKinds.contains token.kind then Text.unquote token.literal else none
  match path? with
  | some path =>
    next
    let rparen ← expect .rparen
    return .load kind pos path rparen
  | none => failExpected "string literal"

/-- A token that is an expression of its own. -/
def single (e : Expr) : Parse Expr := do
  next
  return e

/-- An operand. -/
def operand (deep : Nested) : Parse Expr := do
  let token ← token
  let pos := token.pos
  match token.kind with
  | .ident =>
    let ident ← expectIdent
    if (← kind) = .lambda then
      closure deep pos { lparen := pos, positional := [⟨ident, []⟩], rparen := ident.stop }
    else return .ident ident
  | .int | .uint | .float | .decimal | .char | .string | .rawString | .rawHeredoc => literal
  | .trueWord => single (.literal ⟨.bool true, token.text, pos⟩)
  | .falseWord => single (.literal ⟨.bool false, token.text, pos⟩)
  | .yesWord => single (.literal ⟨.flag true, token.text, pos⟩)
  | .noWord => single (.literal ⟨.flag false, token.text, pos⟩)
  | .nilWord => single (.word .nil pos)
  | .calleeWord => single (.word .callee pos)
  | .argsWord => single (.word .args pos)
  | .namedArgsWord => single (.word .namedArgs pos)
  | .lbrack => array deep
  | .lbrace => dict deep
  | .lparen => parenthesized deep
  | .funcWord => func deep
  | .importWord => load .imported
  | .embedWord => load .embedded
  | .returnWord =>
    next
    if ← atExprEnd then return .ret pos none
    else
      let result ← deep.expr
      return .ret pos (some result)
  | _ => failAt pos (.expectedOperand token.describe)

/-! ### What follows an operand -/

/-- A selection from an expression, by a name or by an expression between parentheses. -/
def selection (deep : Nested) (base : Expr) : Parse Expr := do
  let nullish := (← kind) = .nullishSelector
  next
  let token ← token
  if token.kind = .lparen then
    next
    let name ← deep.expr
    let _ ← expect .rparen
    return .selector base name nullish
  else if token.kind = .ident || token.kind.isKeyword then
    next
    let name := token.text
    return .selector base (.literal ⟨.string name, "\"" ++ name ++ "\"", token.pos⟩) nullish
  else failExpected "selector"

/-- The part of a slice behind its colon. -/
def sliceEnd (deep : Nested) (base : Expr) (lbrack : Pos) (low : Option Expr) : Parse Expr := do
  next
  let high ← if (← kind) = .rbrack then pure none else some <$> deep.expr
  let rbrack ← expect .rbrack
  return .slice base lbrack low high rbrack

/-- An index or a slice of an expression. -/
def indexOrSlice (deep : Nested) (base : Expr) : Parse Expr := do
  let lbrack ← expect .lbrack
  if (← kind) = .colon then sliceEnd deep base lbrack none
  else
    let low ← deep.expr
    if (← kind) = .colon then sliceEnd deep base lbrack (some low)
    else
      let rbrack ← expect .rbrack
      return .index base lbrack low rbrack

/-- The arguments of a call, from the opening parenthesis on. -/
def callArgs (deep : Nested) : Parse (Pos × Args Expr × Pos) := do
  let lparen ← expect .lparen
  let (args, _) ← argList deep
  let rparen ← expect .rparen
  return (lparen, args, rparen)

/-- A function with the selections behind it. -/
def pipedFunc (deep : Nested) : Parse Expr := do
  let first ← operand deep
  loop first fun f => do
    let kind ← kind
    if kind = .period || kind = .nullishSelector then return .again (← selection deep f)
    else return .done f

/-- A call whose first argument stands before the pipe. Without parentheses there are no other
arguments, and the last byte of the function counts as both of them. -/
def pipe (deep : Nested) (first : Expr) : Parse Expr := do
  next
  let f ← pipedFunc deep
  let (lparen, args, rparen) ←
    if (← kind) = .lparen then callArgs deep else pure (f.stop - 1, {}, f.stop - 1)
  return .call f lparen { args with positional := first :: args.positional } rparen true

/-- An operand and everything that follows it: selections, indexes, calls and pipes. -/
def primary (deep : Nested) : Parse Expr := do
  let first ← operand deep
  loop first fun e => do
    match ← kind with
    | .period | .nullishSelector => return .again (← selection deep e)
    | .lbrack => return .again (← indexOrSlice deep e)
    | .lparen =>
      let (lparen, args, rparen) ← callArgs deep
      return .again (.call e lparen args rparen false)
    | .pipe => return .again (← pipe deep e)
    | _ => return .done e

/-! ### Operations -/

/-- The operator that a token before an operand is. -/
def unaryOp? : Token.Kind → Option UnaryOp
  | .add => some .plus
  | .sub => some .neg
  | .not => some .not
  | .xor => some .bitNot
  | _ => none

/-- An operand with the operators before it. -/
def unary (deep : Nested) : Parse Expr := do
  let token ← token
  match unaryOp? token.kind with
  | some op =>
    next
    let e ← deep.unary
    return .unary op token.pos e
  | none => primary deep

/-- The operation of a binary operator. A comparison with nil on the right is a test. -/
def operation (lhs : Expr) (op : Token.Kind) (opPos : Pos) (rhs : Expr) : Expr :=
  match op, rhs with
  | .equal, .word .nil _ => .unary .isNil opPos lhs
  | .notEqual, .word .nil _ => .unary .notNil opPos lhs
  | _, _ => .binary lhs op opPos rhs

/-- Operations whose operators bind at least as tightly as `least`. -/
def binary (deep : Nested) (least : Nat) : Parse Expr := do
  let first ← unary deep
  loop first fun lhs => do
    let token ← token
    let precedence := token.kind.precedence
    if precedence < least || precedence = 0 then return .done lhs
    else
      next
      let rhs ← deep.binary (if token.kind.isRightAssoc then precedence else precedence + 1)
      return .again (operation lhs token.kind token.pos rhs)

/-- An expression. The two marks of a conditional stand on one line. -/
def expr (deep : Nested) : Parse Expr := do
  let test ← binary deep 1
  if (← kind) ≠ .question then return test
  else
    let question ← pos
    next
    let yes ← deep.expr
    let token ← token
    if token.isInsertedSemicolon then failAt token.pos .ternaryLineBreak
    else if token.kind ≠ .colon then failExpected ":"
    else if (← line token.pos) ≠ (← line question) then failAt token.pos .ternaryLineBreak
    else
      next
      let no ← deep.expr
      return .cond test question yes token.pos no

/-- Expressions with commas between them. -/
def exprs (deep : Nested) : Parse (List Expr) := do
  let first ← expr deep
  loop [first] fun list => do
    if ← accept .comma then
      let e ← expr deep
      return .again (list ++ [e])
    else return .done list

end Grammar

end TemplateScript
