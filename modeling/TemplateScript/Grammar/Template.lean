import TemplateScript.Grammar.Statement

/-!
# Parts of templates

Text, delimiters, values to emit, and pragma lines. A pragma line is checked to its end before any
option is set, so that it counts as a whole or not at all, and it counts for everything after it.
-/

namespace TemplateScript

namespace Grammar

open Parse

/-! ### Text and delimiters -/

/-- A text without the backslashes before delimiters; its first `skip` characters belong to a
delimiter that had one. -/
def resolveDelimiters (opening : List Char) : Nat → List Char → List Char
  | _, [] => []
  | skip + 1, c :: rest => c :: resolveDelimiters opening skip rest
  | 0, c :: rest =>
    if c = '\\' && opening.isPrefixOf rest then resolveDelimiters opening opening.length rest
    else c :: resolveDelimiters opening 0 rest

/-- A run of text. -/
def mixedText : Parse Stmt := do
  let token ← token
  let opening := (← get).cursor.options.delimiters.opening
  let value :=
    if token.flags.escaped then
      String.ofList (resolveDelimiters opening.toList 0 token.literal.toList)
    else token.literal
  next
  return .mixedText ⟨token.pos, token.literal, value, token.flags⟩

/-- A delimiter. -/
def delimiter : Parse Delimiter := do
  let token ← token
  next
  return ⟨token.pos, token.literal, token.flags⟩

/-- A value to emit, between its delimiters. -/
def mixedValue (deep : Nested) : Parse Stmt := do
  let opening ← delimiter
  let e ← expr deep
  skipSemicolons
  if (← kind) = .valueEnd then
    let closing ← delimiter
    return .mixedValue opening e closing
  else failExpected (← get).cursor.options.delimiters.closing

/-! ### Pragma lines -/

/-- A setting that is on or off; a bare key turns it on. -/
def switch? : Option Expr → Option Bool
  | none => some true
  | some (.literal ⟨.bool b, _, _⟩) => some b
  | some (.literal ⟨.flag b, _, _⟩) => some b
  | _ => none

/-- A setting that is a text. -/
def text? : Option Expr → Option String
  | some (.literal ⟨.string text, _, _⟩) => some text
  | some (.literal ⟨.rawString text, _, _⟩) => some text
  | _ => none

/-- The options after one more entry of a pragma line, unless its value does not suit its key.
Unknown keys set nothing. -/
def setOption? (options : PragmaOptions) (key : String) (value : Option Expr) :
    Option PragmaOptions :=
  match key with
  | "mixed" => (switch? value).map fun on => { options with mixed := some on }
  | "no_mixed" => (switch? value).map fun on => { options with mixed := some !on }
  | "mixed_start" => (text? value).map fun text => { options with opening := some text }
  | "mixed_end" => (text? value).map fun text => { options with closing := some text }
  | "float_as_decimal" => (switch? value).map fun on => { options with floatsAsDecimal := some on }
  | "char_as_string" => (switch? value).map fun on => { options with charAsString := some on }
  | "mixed_expr_as_value" => (switch? value).map fun on => { options with valueSugar := some on }
  | _ => some options

end Grammar

/-- The cursor after the options of a pragma line were set. -/
def Cursor.apply (c : Cursor) (options : PragmaOptions) : Cursor :=
  let c := c.setDelimiters options.opening options.closing
  let c := options.mixed.elim c c.setMixed
  let c := options.floatsAsDecimal.elim c c.setFloatsAsDecimal
  let c := options.charAsString.elim c c.setCharAsString
  options.valueSugar.elim c c.setValueSugar

namespace Grammar

open Parse

/-- The end of the pragma line, or of the file. -/
def atPragmaEnd : Parse Bool := do
  let kind ← kind
  return kind = .pragmaEnd || kind = .eof

/-- Skip what is left of a pragma line that is wrong, and give up. -/
def abandonPragma {α : Type} : Parse α := do
  loop () fun _ => do
    if ← atPragmaEnd then return .done ()
    else
      next
      return .again ()
  let _ ← accept .pragmaEnd
  bail

/-- Read a phrase of a pragma line, or give up the line. -/
def inPragma {α : Type} (p : Parse α) : Parse α := do
  match ← attempt p with
  | some a => return a
  | none => abandonPragma

/-- The key of an entry. -/
def pragmaKey : Parse Ident := do
  let token ← token
  if token.kind = .ident || token.kind.isKeyword then
    next
    return ⟨token.text, token.pos⟩
  else failExpected "pragma option"

/-- The entries of a pragma line that have been read, and the options they set. -/
structure PragmaLine where
  entries : List (KeyValue Expr) := []
  options : PragmaOptions := {}

/-- One entry of a pragma line. -/
def pragmaEntry (deep : Nested) (line : PragmaLine) : Parse PragmaLine := do
  let key ← inPragma pragmaKey
  let value ← if ← accept .assign then some <$> inPragma (unary deep) else pure none
  let entries := line.entries ++ [⟨.ident key, value⟩]
  match setOption? line.options key.name value with
  | some options => return ⟨entries, options⟩
  | none =>
    errorAt key.pos (.invalidPragma ("bad value for '" ++ key.name ++ "'"))
    return ⟨entries, line.options⟩

/-- The entries of a pragma line. -/
def pragmaEntries (deep : Nested) : Parse PragmaLine :=
  loop ({} : PragmaLine) fun line => do
    if ← atPragmaEnd then return .done line
    else
      let line ← pragmaEntry deep line
      if ← accept .comma then return .again line else return .done line

/-- A pragma line. -/
def pragma (deep : Nested) : Parse Stmt := do
  let start ← pos
  next
  let line ← pragmaEntries deep
  let last ← pos
  if (← kind) = .pragmaEnd then
    modify fun r => { r with cursor := r.cursor.apply line.options }
    next
    return .pragma start line.entries line.options last
  else inPragma (failExpected "end of pragma")

end Grammar

end TemplateScript
