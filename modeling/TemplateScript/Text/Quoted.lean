import TemplateScript.Text.Digit

/-!
# Quoted literals

A literal holds its text between two quotes. Between single or double quotes a backslash begins an
escape; between backquotes nothing is escaped and carriage returns do not count. `quote` writes the
one canonical form, and `unquote` reads every form there is.
-/

namespace TemplateScript

namespace Text

/-- The quote that opens raw text. -/
def backquote : Char := '\x60'

/-- The control characters: those below the space, delete, and the block after it. -/
def isControl (c : Char) : Bool := c.toNat < 0x20 || (0x7F ≤ c.toNat && c.toNat ≤ 0x9F)

/-- A character as it stands between double quotes. -/
def quotedChar (c : Char) : List Char :=
  if c = '"' then ['\\', '"']
  else if c = '\\' then ['\\', '\\']
  else if c = '\n' then ['\\', 'n']
  else if c = '\r' then ['\\', 'r']
  else if c = '\t' then ['\\', 't']
  else if isControl c then ['\\', 'u'] ++ hex 4 c.toNat
  else [c]

/-- The double-quoted literal of a text. -/
def quote (text : String) : String :=
  String.ofList ('"' :: text.toList.flatMap quotedChar ++ ['"'])

/-- The single-quoted literal of a character, which escapes the single quote and not the double one.
-/
def quoteChar (c : Char) : String :=
  let inner := if c = '"' then ['"'] else if c = '\'' then ['\\', '\''] else quotedChar c
  String.ofList ('\'' :: inner ++ ['\''])

/-- The character that a letter or mark stands for after a backslash. -/
def namedEscape? (c : Char) : Option Char :=
  match c with
  | 'a' => some '\x07'
  | 'b' => some '\x08'
  | 'f' => some '\x0c'
  | 'n' => some '\n'
  | 'r' => some '\r'
  | 't' => some '\t'
  | 'v' => some '\x0b'
  | '\\' => some '\\'
  | '\'' => some '\''
  | '"' => some '"'
  | _ => none

/-- The radix of an escape by number and how many digits it has, read off the character after the
backslash. Only in an octal escape is that character itself a digit. -/
def numberEscape? (c : Char) : Option (Nat × Nat) :=
  match c with
  | 'x' => some (16, 2)
  | 'u' => some (16, 4)
  | 'U' => some (16, 8)
  | _ => if isDigit 8 c then some (8, 3) else none

/-- The character an escape stands for and how many characters it takes after the backslash. -/
def escape? : List Char → Option (Char × Nat)
  | [] => none
  | c :: rest =>
    match namedEscape? c with
    | some named => some (named, 1)
    | none => do
      let (radix, count) ← numberEscape? c
      let lead := if radix = 8 then 0 else 1
      let digits := ((c :: rest).drop lead).take count
      if digits.length < count then none
      else
        let code ← value? radix digits
        let char ← scalar? code
        return (char, lead + count)

/-- The text between quotes after its first `skip` characters, which belong to an escape already
read. -/
def unescapeAfter : Nat → List Char → Option (List Char)
  | _, [] => some []
  | skip + 1, _ :: rest => unescapeAfter skip rest
  | 0, c :: rest =>
    if c = '\\' then do
      let (char, count) ← escape? rest
      let text ← unescapeAfter count rest
      return char :: text
    else (unescapeAfter 0 rest).map (c :: ·)

/-- The text of a literal, if it is well formed: it begins and ends with the same quote. -/
def unquote (literal : String) : Option String :=
  match literal.toList with
  | [] => none
  | opening :: rest =>
    if rest.getLast? ≠ some opening then none
    else if opening = backquote then some (String.ofList (rest.dropLast.filter (· ≠ '\r')))
    else (unescapeAfter 0 rest.dropLast).map String.ofList

end Text

end TemplateScript
