import TemplateScript.Grammar.Template
import TemplateScript.Source.FileSet
import TemplateScript.Tree.Shift

/-!
# Documents

A whole source is a list of statements. A statement that cannot be read is replaced by a mark, and
reading resumes behind it, so every source has a tree; it has no such mark if nothing was found
wrong.
-/

namespace TemplateScript

namespace Grammar

open Parse

/-! ### Statements of any sort -/

/-- A semicolon on its own. -/
def emptyStmt : Parse Stmt := do
  let token ← token
  next
  return .empty token.pos token.flags.inserted

/-- A block on its own. -/
def blockStmt (deep : Nested) : Parse Stmt := do
  let body ← block deep
  expectSemicolon
  return .block body

/-- A statement that throws. -/
def throwStmt (deep : Nested) : Parse Stmt := do
  let pos ← pos
  next
  let e ← expr deep
  expectSemicolon
  return .throw pos e

/-- A statement that returns, with a result or without one. -/
def returnStmt (deep : Nested) : Parse Stmt := do
  let pos ← pos
  next
  let result ← if ← atExprEnd then pure none else some <$> expr deep
  expectSemicolon
  return .ret pos result

/-- A statement that leaves a round of a loop. -/
def branchStmt : Parse Stmt := do
  let token ← token
  next
  expectSemicolon
  return .branch token.kind token.pos

/-- A statement. -/
def stmt (deep : Nested) : Parse Stmt := do
  let token ← token
  match token.kind with
  | .semicolon => emptyStmt
  | .lbrace => blockStmt deep
  | .ifWord => ifStmt deep
  | .forWord => forStmt deep
  | .tryWord => tryStmt deep
  | .throwWord => throwStmt deep
  | .returnWord => returnStmt deep
  | .breakWord | .continueWord => branchStmt
  | .paramWord | .globalWord | .varWord | .constWord => decl deep
  | .text => mixedText
  | .codeBegin => return .codeBegin (← delimiter)
  | .codeEnd => return .codeEnd (← delimiter)
  | .valueBegin => mixedValue deep
  | .pragmaStart => pragma deep
  | .elseWord | .catchWord | .finallyWord =>
    failAt token.pos (.expectedStatement token.describe)
  | _ =>
    let s ← simpleStmt deep
    expectSemicolon
    return s

/-! ### Resuming -/

/-- The kinds at which reading always resumes. -/
def resumeKinds : List Token.Kind := [.eof, .text, .codeBegin, .codeEnd, .pragmaStart]

/-- The keywords at which reading resumes outside braces. -/
def stmtWords : List Token.Kind :=
  [.ifWord, .forWord, .returnWord, .tryWord, .throwWord, .breakWord, .continueWord, .paramWord,
    .globalWord, .varWord, .constWord]

/-- Skip to where the next statement may begin: behind a semicolon, before the brace that closes the
block, or before a keyword that begins a statement and is not the one at fault. Braces that were
opened on the way are skipped with what they hold. -/
def resync : Parse Unit := do
  let start ← pos
  loop 0 fun depth => do
    let token ← token
    if ← isFull then return .done ()
    else if resumeKinds.contains token.kind then return .done ()
    else if token.kind = .semicolon && depth = 0 then
      next
      return .done ()
    else if token.kind = .lbrace then
      next
      return .again (depth + 1)
    else if token.kind = .rbrace then
      if depth = 0 then return .done ()
      else
        next
        return .again (depth - 1)
    else if depth = 0 && token.pos ≠ start && stmtWords.contains token.kind then return .done ()
    else
      next
      return .again depth

/-- Skip a statement that cannot be read, at least its first token. -/
def skipStmt (first : Token) : Parse Stmt := do
  resync
  let token ← token
  if token.pos = first.pos && token.kind = first.kind then next
  return .bad first.pos (← pos)

/-- Statements, the last one first, after a code block was closed. A lone expression between
delimiters emits its value. -/
def foldValue : List Stmt → List Stmt
  | .codeEnd closing :: .expr e :: .codeBegin opening :: before =>
    .mixedValue opening e closing :: before
  | list => list

/-- The end of a list of statements. -/
def atStmtsEnd (inBlock : Bool) : Parse Bool := do
  let kind ← kind
  return (← isFull) || kind = .rbrace || kind = .eof || (inBlock && kind = .elseWord)

/-- The statements before a new one, the last one first, with the new one. The sugar in force when a
code block closes decides what becomes of it. -/
def addStmt (list : List Stmt) (s : Stmt) : Parse (List Stmt) := do
  match s with
  | .codeEnd _ =>
    if (← get).cursor.options.valueSugar then return foldValue (s :: list) else return s :: list
  | _ => return s :: list

/-- Statements up to a closing brace or the end of the file, and inside a block up to an `else`. -/
def stmts (deep : Nested) (inBlock : Bool) : Parse (List Stmt) :=
  loop ([] : List Stmt) fun list => do
    if ← atStmtsEnd inBlock then return .done list.reverse
    else
      let first ← token
      match ← attempt (stmt deep) with
      | some s => return .again (← addStmt list s)
      | none => return .again ((← skipStmt first) :: list)

/-- The statements of a whole source. A closing brace that closes nothing is recorded and skipped.
-/
def file (deep : Nested) : Parse (List Stmt) :=
  loop ([] : List Stmt) fun list => do
    let more ← stmts deep false
    let list := list ++ more
    let pos ← pos
    if (← isFull) || (← kind) ≠ .rbrace then return .done list
    else
      errorAt pos .unmatchedBrace
      next
      let _ ← accept .semicolon
      return .again list

end Grammar

/-! ### Depth -/

namespace Nested

/-- No phrases at all. -/
def none : Nested where
  expr := Parse.fault .unfinished
  binary _ := Parse.fault .unfinished
  unary := Parse.fault .unfinished
  stmts := Parse.fault .unfinished
  ifStmt := Parse.fault .unfinished

/-- Phrases that nest at most so deep. -/
def ofDepth : Nat → Nested
  | 0 => none
  | depth + 1 =>
    { expr := fun r => Grammar.expr (ofDepth depth) r
      binary := fun least r => Grammar.binary (ofDepth depth) least r
      unary := fun r => Grammar.unary (ofDepth depth) r
      stmts := fun r => Grammar.stmts (ofDepth depth) true r
      ifStmt := fun r => Grammar.ifStmt (ofDepth depth) r }

end Nested

/-! ### Whole sources -/

/-- What was read of a source. -/
structure Parsed where
  document : Document
  /-- Everything found wrong, in the order of the source. -/
  errors : List Diagnostic
  /-- The file with its line table. -/
  file : SourceFile

namespace Parse

/-- Read the first token, and then the whole source. -/
def source : Parse (List Stmt) := do
  next
  Grammar.file (Nested.ofDepth (← get).bound)

end Parse

namespace SourceFile

/-- The reader before the first token of a source. -/
def reader (cursor : Cursor) (maxErrors : Nat) : Reader :=
  { cursor, token := cursor.endOfFile, maxErrors }

/-- The tree of the content of a file, with positions that count from the start of the file. -/
def parseLocal (f : SourceFile) (glyphs : List Glyph) (options : ParseOptions) :
    Except Fault Parsed := do
  let cursor ← Cursor.start? f options.scan glyphs
  match Parse.source (reader cursor options.maxErrors) with
  | .ok stmts r =>
    return ⟨⟨stmts, r.comments⟩, Diagnostic.sort r.errors, r.cursor.file⟩
  | .error (.fault fault) _ => .error fault
  | .error .bail _ => .error .unfinished

/-- The tree of the content of a file. -/
def parse (f : SourceFile) (glyphs : List Glyph) (options : ParseOptions) : Except Fault Parsed :=
  (f.parseLocal glyphs options).map fun parsed =>
    { parsed with document := parsed.document.shift f.base }

end SourceFile

namespace FileSet

/-- Add a source to a set under a name, and parse it. -/
def parse (set : FileSet) (name : String) (glyphs : List Glyph) (options : ParseOptions) :
    Except Fault (Parsed × FileSet) := do
  let (file, set) ← set.add name none (Glyph.widths glyphs)
  let parsed ← file.parse glyphs options
  return (parsed, set.replace (set.files.length - 1) parsed.file)

end FileSet

/-- Parse a source that belongs to no set. -/
def parseSource (name : String) (glyphs : List Glyph) (options : ParseOptions) :
    Except Fault Parsed :=
  (FileSet.parse {} name glyphs options).map (·.1)

end TemplateScript
