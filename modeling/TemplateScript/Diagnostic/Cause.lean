import TemplateScript.Text.Escaped

/-!
# Causes

Everything that can be wrong with the text of a source, and the words for it.
-/

namespace TemplateScript

/-- What can be wrong with a single token. -/
inductive ScanCause where
  /-- A character that begins no token. -/
  | illegalCharacter (c : Char)
  /-- A byte that begins no character. -/
  | illegalEncoding
  /-- A byte order mark that is not at the start of the file. -/
  | illegalByteOrderMark
  | unterminatedString
  | unterminatedRawString
  | unterminatedHeredoc
  | unterminatedChar
  | unterminatedComment
  /-- Single quotes around no character, or around several. -/
  | illegalCharLiteral
  | unknownEscape (c : Char)
  /-- An escape that names a surrogate or a number past the last code point. -/
  | invalidCodePoint
  | illegalEscapeDigit (c : Char)
  | illegalNumber (literal : String)
deriving DecidableEq, Repr, Inhabited

/-- The words for what is wrong with a token. -/
def ScanCause.message : ScanCause → String
  | .illegalCharacter c => "illegal character " ++ Text.showChar c
  | .illegalEncoding => "illegal UTF-8 encoding"
  | .illegalByteOrderMark => "illegal byte order mark"
  | .unterminatedString => "string literal not terminated"
  | .unterminatedRawString => "raw string literal not terminated"
  | .unterminatedHeredoc => "raw heredoc literal not terminated"
  | .unterminatedChar => "char literal not terminated"
  | .unterminatedComment => "comment not terminated"
  | .illegalCharLiteral => "illegal char literal"
  | .unknownEscape c => "unknown escape sequence " ++ Text.showChar c
  | .invalidCodePoint => "escape sequence is invalid Unicode code point"
  | .illegalEscapeDigit c => "illegal character " ++ Text.showChar c ++ " in escape sequence"
  | .illegalNumber literal => "illegal number " ++ Text.showText literal

/-- What can be wrong with a source. -/
inductive Cause where
  | expected (wanted found : String)
  | expectedOperand (found : String)
  | expectedStatement (found : String)
  /-- A closing brace where no block is open. -/
  | unmatchedBrace
  /-- The end of the file where a block is open. -/
  | unclosedBrace
  /-- The two marks of a conditional are on different lines. -/
  | ternaryLineBreak
  /-- A second variadic entry of one sort in one list. -/
  | duplicateVariadic
  /-- An entry after the variadic one that ends its part of a list. -/
  | variadicNotLast
  /-- A positional entry after named ones. -/
  | positionalAfterNamed
  /-- A `try` with nothing to handle what is thrown. -/
  | tryWithoutHandler
  | invalidAssignTarget (target : String)
  /-- Different numbers of targets and values. -/
  | assignArity (operator : String)
  /-- A literal without a value. -/
  | invalidLiteral (kind literal : String)
  | invalidPragma (reason : String)
  | scan (cause : ScanCause)
deriving DecidableEq, Repr, Inhabited

/-- The words for what is wrong with a source. -/
def Cause.message : Cause → String
  | .expected wanted found => "expected '" ++ wanted ++ "', found '" ++ found ++ "'"
  | .expectedOperand found => "expected operand, found '" ++ found ++ "'"
  | .expectedStatement found => "expected statement, found '" ++ found ++ "'"
  | .unmatchedBrace => "unexpected '\x7d' without matching '\x7b'"
  | .unclosedBrace => "expected '\x7d', found 'EOF'"
  | .ternaryLineBreak => "ternary ':' must be on the same line as '?'"
  | .duplicateVariadic => "multiple variadic entries"
  | .variadicNotLast => "variadic entry must be last"
  | .positionalAfterNamed => "positional entry after named entries"
  | .tryWithoutHandler => "try statement requires catch or finally"
  | .invalidAssignTarget target => "cannot assign to '" ++ target ++ "'"
  | .assignArity operator => "mismatched operand count for '" ++ operator ++ "'"
  | .invalidLiteral kind literal => "invalid " ++ kind ++ " literal '" ++ literal ++ "'"
  | .invalidPragma reason => "invalid pragma: " ++ reason
  | .scan cause => cause.message

end TemplateScript
