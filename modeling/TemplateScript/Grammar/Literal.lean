import TemplateScript.Grammar.Reader
import TemplateScript.Number.Integer
import TemplateScript.Text.Heredoc

/-!
# Literals

What the literal tokens stand for. A token can be well formed and still have no value, as when it is
a number too large.
-/

namespace TemplateScript

/-- A text without a last character, if it is the given one. -/
def withoutLast (c : Char) (text : String) : String :=
  if text.toList.getLast? = some c then String.ofList text.toList.dropLast else text

/-- A number's text without its underscores. -/
def dropUnderscores (text : String) : String := String.ofList (text.toList.filter (· ≠ '_'))

namespace Value

/-- The value of a signed integer literal. -/
def int? (text : String) : Option Value :=
  ((Number.integer? text).filter (· ≤ Number.maxInt)).map fun n => .int n

/-- The value of an unsigned integer literal. -/
def uint? (text : String) : Option Value :=
  ((Number.integer? (withoutLast 'u' text)).filter (· ≤ Number.maxUint)).map .uint

/-- The value of a float literal. -/
def float? (text : String) : Option Value :=
  (Binary64.ofText? (dropUnderscores text)).map .float

/-- The value of a decimal literal, which must be a number. -/
def decimal? (text : String) : Option Value :=
  let text := dropUnderscores (withoutLast 'd' text)
  (Binary64.ofText? text).map fun _ => .decimal text

/-- The value of a character literal, which must hold one character. -/
def char? (text : String) : Option Value :=
  match (Text.unquote text).map (·.toList) with
  | some [c] => some (.char c)
  | _ => none

/-- The value of a literal token. -/
def ofToken? (kind : Token.Kind) (text : String) : Option Value :=
  match kind with
  | .int => int? text
  | .uint => uint? text
  | .float => float? text
  | .decimal => decimal? text
  | .char => char? text
  | .string => (Text.unquote text).map .string
  | .rawString => (Text.unquote text).map .rawString
  | _ => some (.heredoc (Text.heredocValue text))

end Value

namespace Grammar

open Parse

/-- The kinds of literal tokens. -/
def literalKinds : List Token.Kind :=
  [.int, .uint, .float, .decimal, .char, .string, .rawString, .rawHeredoc]

/-- The kinds of literals that may stand for a name. -/
def nameLiteralKinds : List Token.Kind := [.string, .rawString]

/-- A literal. One without a value is recorded, and reading goes on behind it. -/
def literal : Parse Expr := do
  let token ← token
  next
  match Value.ofToken? token.kind token.literal with
  | some value => return .literal ⟨value, token.literal, token.pos⟩
  | none =>
    errorAt token.pos (.invalidLiteral (token.kind.spelling.map Char.toLower) token.literal)
    return .bad token.pos (token.pos + token.literal.utf8ByteSize)

end Grammar

end TemplateScript
