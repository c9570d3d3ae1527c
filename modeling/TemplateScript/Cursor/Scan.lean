import TemplateScript.Cursor.Template

/-!
# Token streams

`scan` hands out the tokens of a source one by one; past the last of them it hands out the end of
the file for ever. Between any two tokens the options may be changed, which counts for what has not
been read yet.
-/

namespace TemplateScript

namespace Cursor

/-- Read the next token of code, or all tokens of a pragma line. -/
def code (c : Cursor) : Cursor × Token × List Token :=
  let start := c.skipBlanks
  match start.codeEnd? with
  | some (last, token) => (last, token, [])
  | none =>
    match start.pragmaLine? with
    | some head => start.pragma head
    | none =>
      match _h : start.rest with
      | [] =>
        if start.pending then ({ start with pending := false }, start.insertedSemicolon, [])
        else (start, start.endOfFile, [])
      | g :: _ =>
        if start.atComment then
          if start.pending && commentEndsLine start.rest then
            ({ start with pending := false }, start.insertedSemicolon, [])
          else if start.options.comments then
            (start.comment.1, start.comment.2, [])
          else code start.comment.1
        else if g = .char '\n' then
          ({ start.advance with pending := false }, start.insertedSemicolon, [])
        else ((start.lexeme g).1, (start.lexeme g).2, [])
termination_by c.rest.length
decreasing_by
  have hrest : c.skipBlanks.rest ≠ [] := fun h => List.cons_ne_nil _ _ (_h.symm.trans h)
  exact Nat.lt_of_lt_of_le (comment_length_lt c.skipBlanks hrest) (skipBlanks_length_le c)

/-- The next token. -/
def scan (c : Cursor) : Cursor × Token :=
  match c.pool with
  | token :: pool => ({ c with pool }, token)
  | [] =>
    let (last, token, more) := if c.inText then c.templateText else c.code
    ({ last with pool := more }, token)

/-- The next tokens, as many as asked for. -/
def scanMany : Nat → Cursor → Cursor × List Token
  | 0, c => (c, [])
  | n + 1, c =>
    let (next, token) := c.scan
    let (last, tokens) := scanMany n next
    (last, token :: tokens)

/-- An upper bound on the tokens before the end of the file. -/
def bound (c : Cursor) : Nat := 2 * c.rest.length + c.pool.length + 2

/-- The tokens up to the end of the file, at most `limit` of them. -/
def scanToEnd : Nat → Cursor → Cursor × List Token
  | 0, c => (c, [])
  | limit + 1, c =>
    let (next, token) := c.scan
    if token.kind = .eof then (next, [token])
    else
      let (last, tokens) := scanToEnd limit next
      (last, token :: tokens)

/-- All tokens of a source, with the end of the file as the last. -/
def scanAll (c : Cursor) : Cursor × List Token := scanToEnd c.bound c

/-- The errors that were not handed out before. -/
def newErrors (c : Cursor) : List ScanError := c.errors.drop c.taken

/-- All errors have been handed out. -/
def takeErrors (c : Cursor) : Cursor := { c with taken := c.errors.length }

/-! ### Changing the options on the way -/

/-- Turn the reading of templates on or off. What follows is text, or code outside all brackets. -/
def setMixed (c : Cursor) (on : Bool) : Cursor :=
  if on = c.options.mixed then c
  else
    { c with
      options := { c.options with mixed := on }
      inText := on, inValue := false, pending := false, nesting := {} }

/-- Replace the delimiters; an empty one stays as it was. -/
def setDelimiters (c : Cursor) (opening closing : Option String) : Cursor :=
  let old := c.options.delimiters
  { c with
    options := { c.options with
      delimiters :=
        ⟨(opening.filter (· ≠ "")).getD old.opening, (closing.filter (· ≠ "")).getD old.closing⟩ } }

/-- Turn float literals into decimals, or back. -/
def setFloatsAsDecimal (c : Cursor) (on : Bool) : Cursor :=
  { c with options := { c.options with floatsAsDecimal := on } }

/-- Let single quotes hold strings, or characters again. -/
def setCharAsString (c : Cursor) (on : Bool) : Cursor :=
  { c with options := { c.options with charAsString := on } }

/-- Let a lone expression in a code block emit its value, or not. -/
def setValueSugar (c : Cursor) (on : Bool) : Cursor :=
  { c with options := { c.options with valueSugar := on } }

end Cursor

end TemplateScript
