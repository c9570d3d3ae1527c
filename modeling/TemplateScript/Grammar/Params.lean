import TemplateScript.Grammar.Literal
import TemplateScript.Tree.Printed

/-!
# Arguments and parameters

Lists between parentheses, in two parts: positional entries, of which the last may be marked with a
star, and named ones, of which the last may be marked with two. A semicolon may separate the parts,
and line breaks between entries do not count.
-/

namespace TemplateScript

namespace Grammar

open Parse

/-- A name with its types, which a colon may announce. -/
def typedIdent : Parse TypedIdent := do
  let ident ← expectIdent
  let announced ← accept .colon
  if announced || (← kind) = .ident then
    let first ← expectIdent
    let types ← loop [first] fun types => do
      if ← accept .or then
        let type ← expectIdent
        return .again (types ++ [type])
      else return .done types
    return ⟨ident, types⟩
  else return ⟨ident, []⟩

/-! ### Parameters -/

/-- Parameters that have been read, and whether only named ones may follow. -/
structure ParamList where
  params : Params Expr
  inNamed : Bool := false

/-- One parameter. -/
def param (deep : Nested) (list : ParamList) : Parse ParamList := do
  let params := list.params
  let pos ← pos
  match ← kind with
  | .mul =>
    if list.inNamed then failAt pos .positionalAfterNamed
    else if params.variadic.isSome then failAt pos .duplicateVariadic
    else
      next
      let ident ← typedIdent
      return { list with params := { params with variadic := some ident } }
  | .pow =>
    if params.namedVariadic.isSome then failAt pos .duplicateVariadic
    else
      next
      let ident ← typedIdent
      return ⟨{ params with namedVariadic := some ident }, true⟩
  | _ =>
    let ident ← typedIdent
    if (← kind) = .assign then
      if params.namedVariadic.isSome then failAt pos .variadicNotLast
      else
        next
        let value ← deep.expr
        return ⟨{ params with named := params.named ++ [(ident, value)] }, true⟩
    else if list.inNamed then failAt pos .positionalAfterNamed
    else if params.variadic.isSome then failAt pos .variadicNotLast
    else return { list with params := { params with positional := params.positional ++ [ident] } }

/-- The parameters of a function, up to the closing parenthesis. A line break separates parameters
as a comma does. -/
def paramList (deep : Nested) (lparen : Pos) : Parse (Params Expr) :=
  loop (⟨{ lparen, rparen := lparen }, false⟩ : ParamList) fun list => do
    let _ ← skipLineBreaks
    if (← kind) = .rparen then return .done list.params
    else if (← token).isExplicitSemicolon then
      if list.inNamed then failExpected ")"
      else
        next
        return .again { list with inNamed := true }
    else
      let list ← param deep list
      let lineEnded ← skipLineBreaks
      match ← kind with
      | .comma =>
        next
        return .again list
      | .semicolon => return .again list
      | _ => if lineEnded then return .again list else return .done list.params

/-! ### Arguments -/

/-- A name or a string before the `=` of a named argument. -/
def argName : Parse Expr := do
  let kind ← kind
  if kind = .ident then return .ident (← expectIdent)
  else if nameLiteralKinds.contains kind then literal
  else failExpected "identifier"

/-- Arguments that have been read, whether only named ones may follow, and whether a separator was
seen, which tells `(a,)` from `(a)`. -/
structure ArgList where
  args : Args Expr := {}
  inNamed : Bool := false
  separated : Bool := false

/-- One argument. A name alone among the named ones stands for a flag that is set. -/
def arg (deep : Nested) (list : ArgList) : Parse ArgList := do
  let args := list.args
  let pos ← pos
  match ← kind with
  | .mul =>
    if list.inNamed then failAt pos .positionalAfterNamed
    else if args.spread.isSome then failAt pos .duplicateVariadic
    else
      next
      let e ← deep.expr
      return { list with args := { args with spread := some e } }
  | .pow =>
    if args.namedSpread.isSome then failAt pos .duplicateVariadic
    else
      next
      let e ← deep.expr
      return { list with args := { args with namedSpread := some e }, inNamed := true }
  | _ =>
    if list.inNamed then
      if args.namedSpread.isSome then failAt pos .variadicNotLast
      else
        let name ← argName
        if ← accept .assign then
          let value ← deep.expr
          return { list with args := { args with named := args.named ++ [(name, value)] } }
        else
          let value : Expr := .literal ⟨.flag true, "yes", pos⟩
          return { list with args := { args with named := args.named ++ [(name, value)] } }
    else
      let e ← deep.expr
      if (← kind) = .assign && e.isArgName then
        next
        let value ← deep.expr
        return { list with
          args := { args with named := args.named ++ [(e, value)] }, inNamed := true }
      else if args.spread.isSome then failAt pos .variadicNotLast
      else return { list with args := { args with positional := args.positional ++ [e] } }

/-- Arguments up to the closing parenthesis, and whether a separator was seen among them. -/
def argList (deep : Nested) : Parse (Args Expr × Bool) :=
  loop ({} : ArgList) fun list => do
    let _ ← skipLineBreaks
    if (← kind) = .rparen then return .done (list.args, list.separated)
    else if (← token).isExplicitSemicolon then
      if list.inNamed then failExpected ")"
      else
        next
        return .again { list with inNamed := true, separated := true }
    else
      let list ← arg deep list
      let _ ← skipLineBreaks
      match ← kind with
      | .comma =>
        next
        return .again { list with separated := true }
      | .semicolon => return .again list
      | _ => return .done (list.args, list.separated)

/-! ### Parameters written as arguments -/

/-- The name that an expression is. -/
def paramOfExpr (e : Expr) : Parse TypedIdent :=
  match e.ident? with
  | some ident => return ⟨ident, []⟩
  | none => failAt e.pos (.expected "identifier" e.print)

/-- The parameter that an argument is, if there is one. -/
def paramOfExpr? : Option Expr → Parse (Option TypedIdent)
  | none => return none
  | some e => return some (← paramOfExpr e)

/-- The parameters with defaults that named arguments are. -/
def paramsOfNamed : List (Expr × Expr) → Parse (List (TypedIdent × Expr))
  | [] => return []
  | (name, value) :: rest => do
    let ident ← paramOfExpr name
    let others ← paramsOfNamed rest
    return (ident, value) :: others

/-- The parameters that positional arguments are. -/
def paramsOfExprs : List Expr → Parse (List TypedIdent)
  | [] => return []
  | e :: rest => do
    let ident ← paramOfExpr e
    let others ← paramsOfExprs rest
    return ident :: others

/-- The parameters of a closure whose parentheses were read as those of arguments. -/
def paramsOfArgs (lparen : Pos) (args : Args Expr) (rparen : Pos) : Parse (Params Expr) := do
  let positional ← paramsOfExprs args.positional
  let variadic ← paramOfExpr? args.spread
  let named ← paramsOfNamed args.named
  let namedVariadic ← paramOfExpr? args.namedSpread
  return { lparen, positional, variadic, named, namedVariadic, rparen }

end Grammar

end TemplateScript
