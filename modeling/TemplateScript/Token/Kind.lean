/-!
# Token kinds

Every kind of token has one spelling, which is its text in a source if it is an operator, a mark or
a keyword, and a name for it otherwise. The tables here say how operators bind, which kinds assign,
and after which kinds a line break ends a statement.
-/

namespace TemplateScript

namespace Token

/-- What a token is. -/
inductive Kind where
  | illegal
  | eof
  | comment
  | pragmaStart
  | pragmaEnd
  | text
  | codeBegin
  | codeEnd
  | valueBegin
  | valueEnd
  | ident
  | int
  | uint
  | float
  | decimal
  | char
  | string
  | rawString
  | rawHeredoc
  | add
  | sub
  | mul
  | quo
  | rem
  | and
  | or
  | xor
  | shl
  | shr
  | andNot
  | pow
  | addAssign
  | subAssign
  | mulAssign
  | quoAssign
  | remAssign
  | andAssign
  | orAssign
  | xorAssign
  | shlAssign
  | shrAssign
  | andNotAssign
  | powAssign
  | logicOrAssign
  | nullishAssign
  | incAssign
  | decAssign
  | logicAnd
  | logicOr
  | nullish
  | inc
  | dec
  | equal
  | less
  | greater
  | assign
  | not
  | notEqual
  | lessEq
  | greaterEq
  | define
  | ellipsis
  | lparen
  | lbrack
  | lbrace
  | comma
  | period
  | rparen
  | rbrack
  | rbrace
  | semicolon
  | colon
  | question
  | nullishSelector
  | pipe
  | lambda
  | breakWord
  | continueWord
  | elseWord
  | forWord
  | funcWord
  | ifWord
  | returnWord
  | trueWord
  | falseWord
  | yesWord
  | noWord
  | inWord
  | nilWord
  | importWord
  | embedWord
  | paramWord
  | globalWord
  | varWord
  | constWord
  | tryWord
  | catchWord
  | finallyWord
  | throwWord
  | calleeWord
  | argsWord
  | namedArgsWord
deriving DecidableEq, Repr, Inhabited

namespace Kind

/-- The text of an operator, mark or keyword, and a name for any other kind. -/
def spelling : Kind → String
  | illegal => "ILLEGAL"
  | eof => "EOF"
  | comment => "COMMENT"
  | pragmaStart => "CONFIG"
  | pragmaEnd => "CONFIG_END"
  | text => "TEXT"
  | codeBegin => "CODE_BEGIN"
  | codeEnd => "CODE_END"
  | valueBegin => "VALUE_BEGIN"
  | valueEnd => "VALUE_END"
  | ident => "IDENT"
  | int => "INT"
  | uint => "UINT"
  | float => "FLOAT"
  | decimal => "DECIMAL"
  | char => "CHAR"
  | string => "STRING"
  | rawString => "RAW_STRING"
  | rawHeredoc => "RAW_HEREDOC"
  | add => "+"
  | sub => "-"
  | mul => "*"
  | quo => "/"
  | rem => "%"
  | and => "&"
  | or => "|"
  | xor => "^"
  | shl => "<<"
  | shr => ">>"
  | andNot => "&^"
  | pow => "**"
  | addAssign => "+="
  | subAssign => "-="
  | mulAssign => "*="
  | quoAssign => "/="
  | remAssign => "%="
  | andAssign => "&="
  | orAssign => "|="
  | xorAssign => "^="
  | shlAssign => "<<="
  | shrAssign => ">>="
  | andNotAssign => "&^="
  | powAssign => "**="
  | logicOrAssign => "||="
  | nullishAssign => "??="
  | incAssign => "++="
  | decAssign => "--="
  | logicAnd => "&&"
  | logicOr => "||"
  | nullish => "??"
  | inc => "++"
  | dec => "--"
  | equal => "=="
  | less => "<"
  | greater => ">"
  | assign => "="
  | not => "!"
  | notEqual => "!="
  | lessEq => "<="
  | greaterEq => ">="
  | define => ":="
  | ellipsis => "..."
  | lparen => "("
  | lbrack => "["
  | lbrace => "\x7b"
  | comma => ","
  | period => "."
  | rparen => ")"
  | rbrack => "]"
  | rbrace => "\x7d"
  | semicolon => ";"
  | colon => ":"
  | question => "?"
  | nullishSelector => "?."
  | pipe => ".|"
  | lambda => "=>"
  | breakWord => "break"
  | continueWord => "continue"
  | elseWord => "else"
  | forWord => "for"
  | funcWord => "func"
  | ifWord => "if"
  | returnWord => "return"
  | trueWord => "true"
  | falseWord => "false"
  | yesWord => "yes"
  | noWord => "no"
  | inWord => "in"
  | nilWord => "nil"
  | importWord => "import"
  | embedWord => "embed"
  | paramWord => "param"
  | globalWord => "global"
  | varWord => "var"
  | constWord => "const"
  | tryWord => "try"
  | catchWord => "catch"
  | finallyWord => "finally"
  | throwWord => "throw"
  | calleeWord => "__callee__"
  | argsWord => "__args__"
  | namedArgsWord => "__named_args__"

/-- How tightly a binary operator binds; zero for what is none. -/
def precedence : Kind → Nat
  | logicOr | nullish => 1
  | logicAnd => 2
  | equal | notEqual => 3
  | less | lessEq | greater | greaterEq => 4
  | or | xor | and | andNot => 5
  | shl | shr => 6
  | add | sub => 7
  | mul | quo | rem => 8
  | pow => 9
  | _ => 0

/-- Operators of one precedence group to the right. -/
def isRightAssoc (k : Kind) : Bool := k = pow

/-- The words that are no identifiers. -/
def keywords : List Kind :=
  [breakWord, continueWord, elseWord, forWord, funcWord, ifWord, returnWord, trueWord, falseWord,
    yesWord, noWord, inWord, nilWord, importWord, embedWord, paramWord, globalWord, varWord,
    constWord, tryWord, catchWord, finallyWord, throwWord, calleeWord, argsWord, namedArgsWord]

/-- The kind is that of a keyword. -/
def isKeyword (k : Kind) : Bool := keywords.contains k

/-- The operators that assign to what stands before them. -/
def assignments : List Kind :=
  [assign, define, addAssign, subAssign, mulAssign, quoAssign, remAssign, andAssign, orAssign,
    xorAssign, shlAssign, shrAssign, andNotAssign, powAssign, logicOrAssign, nullishAssign,
    incAssign, decAssign]

/-- The kind is that of an assignment. -/
def isAssign (k : Kind) : Bool := assignments.contains k

/-- The kinds that may end a statement, so that a line break after them counts as a semicolon. -/
def closers : List Kind :=
  [ident, int, uint, float, decimal, char, string, rawString, rawHeredoc, breakWord, continueWord,
    returnWord, trueWord, falseWord, yesWord, noWord, nilWord, calleeWord, argsWord, namedArgsWord,
    inc, dec, rparen, rbrack, rbrace]

/-- A line break after a token of this kind counts as a semicolon. -/
def endsStatement (k : Kind) : Bool := closers.contains k

/-- The operators and marks, longer spellings before shorter ones. -/
def marks : List Kind :=
  [ellipsis, shlAssign, shrAssign, andNotAssign, powAssign, logicOrAssign, nullishAssign,
    incAssign, decAssign,
    define, pipe, addAssign, inc, subAssign, dec, mulAssign, pow, quoAssign, remAssign, xorAssign,
    lessEq, shl, greaterEq, shr, equal, lambda, notEqual, andNot, andAssign, logicAnd, logicOr,
    orAssign, nullishSelector, nullish,
    colon, period, comma, semicolon, lparen, rparen, lbrack, rbrack, lbrace, rbrace, add, sub, mul,
    quo, rem, xor, less, greater, assign, not, and, or, question]

/-- The words that open a block. -/
def blockOpeners : List String := ["do", "then", "begin"]

/-- The words that close a block. -/
def blockClosers : List String := ["end", "done"]

/-- The kind of a word. The words around a block have the kinds of the braces they stand for, so
that blocks of either spelling read alike. -/
def ofWord (word : String) : Kind :=
  if blockOpeners.contains word then lbrace
  else if blockClosers.contains word then rbrace
  else (keywords.find? (·.spelling = word)).getD ident

end Kind

end Token

end TemplateScript
