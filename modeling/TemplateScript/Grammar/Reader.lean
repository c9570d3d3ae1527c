import TemplateScript.Cursor.Scan
import TemplateScript.Tree.Span

/-!
# Reading tokens

A reader looks at one token at a time and keeps what it finds wrong: at most one diagnostic for a
line in a row, and no more than the options allow. All phrases are read by a few operations on it,
so whatever holds of those holds of every phrase. A phrase that cannot be read ends by bailing out,
after the reason was recorded; whoever reads statements resumes at a safe point.
-/

namespace TemplateScript

/-- Why a phrase was not read to its end. -/
inductive Halt where
  /-- The source is wrong, which has been recorded. -/
  | bail
  | fault (f : Fault)
deriving DecidableEq, Repr, Inhabited

/-- Where reading stands. -/
structure Reader where
  cursor : Cursor
  /-- The token that has been read but not used. -/
  token : Token
  /-- The diagnostics in the order they were recorded. -/
  errors : List Diagnostic := []
  maxErrors : Nat
  comments : List CommentGroup := []
  /-- The line on which a comment ended that no token has followed since. -/
  commentEnd : Option Nat := none
deriving Inhabited

namespace Reader

/-- No more diagnostics are wanted. -/
def isFull (r : Reader) : Bool := r.maxErrors ≠ 0 && r.maxErrors ≤ r.errors.length

/-- Record a diagnostic, unless there are enough of them or the last one is for the same line. -/
def record (r : Reader) (d : Diagnostic) : Reader :=
  if r.isFull || (r.errors.getLast?.any fun last => last.place.line = d.place.line) then r
  else { r with errors := r.errors ++ [d] }

/-- Move the cursor on, and record what it found wrong. -/
def moveTo (r : Reader) (cursor : Cursor) : Reader :=
  cursor.newErrors.foldl (fun r e => r.record (.ofScanError e))
    { r with cursor := cursor.takeErrors }

/-- Keep a comment that begins and ends on given lines. It joins the group before it if nothing but
a line break is between them. -/
def keepComment (r : Reader) (comment : Comment) (first last : Nat) : Reader :=
  let comments :=
    match r.comments.getLast?, r.commentEnd with
    | some group, some line =>
      if first ≤ line + 1 then r.comments.dropLast ++ [group ++ [comment]]
      else r.comments ++ [[comment]]
    | _, _ => r.comments ++ [[comment]]
  { r with comments, commentEnd := some last }

/-- An upper bound on what is left to be read, in tokens. -/
def bound (r : Reader) : Nat := r.cursor.bound + 2

end Reader

/-- A phrase to be read. -/
abbrev Parse := EStateM Halt Reader

namespace Parse

/-- Give up because the source is wrong. The reason must have been recorded. -/
def bail {α : Type} : Parse α := throw .bail

/-- Give up for good. -/
def fault {α : Type} (f : Fault) : Parse α := throw (.fault f)

/-- Read a phrase, or learn that it cannot be read. What was read stays read. -/
def attempt {α : Type} (p : Parse α) : Parse (Option α) := fun r =>
  match p r with
  | .ok a r => .ok (some a) r
  | .error .bail r => .ok none r
  | .error (.fault f) r => .error (.fault f) r

/-- What a round of a loop leads to. -/
inductive Round (σ α : Type) where
  | again (s : σ)
  | done (a : α)

/-- Rounds until one is the last, at most a number of them. -/
def rounds {σ α : Type} (round : σ → Parse (Round σ α)) : Nat → σ → Parse α
  | 0, _ => fault .unfinished
  | limit + 1, s => do
    match ← round s with
    | .again s => rounds round limit s
    | .done a => return a

/-- Rounds until one is the last. Each but the last must read a token. -/
def loop {σ α : Type} (s : σ) (round : σ → Parse (Round σ α)) : Parse α := do
  rounds round (← get).bound s

/-! ### Places and diagnostics -/

/-- The place of an offset. -/
def place (offset : Nat) : Parse Place := do
  let file := (← get).cursor.file
  if offset ≤ file.size then return file.place offset
  else fault (.positionOutOfRange (file.base + offset) file.name)

/-- The line of an offset. -/
def line (offset : Nat) : Parse Nat := return (← place offset).line

/-- Record a cause at an offset. -/
def errorAt (offset : Nat) (cause : Cause) : Parse Unit := do
  let place ← place offset
  modify (·.record ⟨place, cause⟩)

/-- Record a cause at an offset, and give up. -/
def failAt {α : Type} (offset : Nat) (cause : Cause) : Parse α := do
  errorAt offset cause
  bail

/-- No more diagnostics are wanted. -/
def isFull : Parse Bool := return (← get).isFull

/-! ### Tokens -/

/-- The token that has been read but not used. -/
def token : Parse Token := return (← get).token

/-- The kind of that token. -/
def kind : Parse Token.Kind := return (← token).kind

/-- Where that token begins. -/
def pos : Parse Pos := return (← token).pos

/-- Read on to the next token that is no comment, past at most a number of comments. -/
def nextWithin : Nat → Parse Unit
  | 0 => fault .unfinished
  | limit + 1 => do
    let (cursor, token) := (← get).cursor.scan
    modify (·.moveTo cursor)
    if token.kind = .comment then
      let first ← line token.pos
      let last ← line (token.pos + token.literal.utf8ByteSize)
      modify (·.keepComment ⟨token.pos, token.literal⟩ first last)
      nextWithin limit
    else modify ({ · with token, commentEnd := none })

/-- Use the token, and read the next one. -/
def next : Parse Unit := do nextWithin (← get).bound

/-- Record that something else was expected than the token, and give up. -/
def failExpected {α : Type} (wanted : String) : Parse α := do
  let token ← token
  failAt token.pos (.expected wanted token.describe)

/-- Use a token of a kind, and tell where it begins. -/
def expect (wanted : Token.Kind) : Parse Pos := do
  let token ← token
  if token.kind = wanted then
    next
    return token.pos
  else failExpected wanted.spelling

/-- Use a name. -/
def expectIdent : Parse Ident := do
  let token ← token
  if token.kind = .ident then
    next
    return ⟨token.literal, token.pos⟩
  else failExpected "identifier"

/-- Use a token of a kind if it is there. -/
def accept (wanted : Token.Kind) : Parse Bool := do
  if (← kind) = wanted then
    next
    return true
  else return false

/-- The kinds before which a statement ends without a semicolon. -/
def stmtFollowers : List Token.Kind :=
  [.rparen, .rbrace, .eof, .elseWord, .text, .codeBegin, .codeEnd, .valueBegin, .valueEnd,
    .pragmaStart]

/-- Use the semicolon that ends a statement, unless what follows ends it too. -/
def expectSemicolon : Parse Unit := do
  let kind ← kind
  if kind = .semicolon then next
  else if stmtFollowers.contains kind then return ()
  else failExpected ";"

/-- Use semicolons that line breaks stand for, and tell whether there were any. -/
def skipLineBreaks : Parse Bool :=
  loop false fun skipped => do
    if (← token).isInsertedSemicolon then
      next
      return .again true
    else return .done skipped

/-- Use all semicolons. -/
def skipSemicolons : Parse Unit :=
  loop () fun _ => do
    if ← accept .semicolon then return .again () else return .done ()

/-- The kinds before which an expression cannot begin. -/
def exprFollowers : List Token.Kind :=
  [.semicolon, .rparen, .rbrack, .rbrace, .comma, .colon, .elseWord, .eof, .text, .codeBegin,
    .codeEnd, .valueEnd]

/-- No expression can begin with the token. -/
def atExprEnd : Parse Bool := return exprFollowers.contains (← kind)

end Parse

/-! ### Phrases inside phrases -/

/-- The phrases that a phrase of the same sort may hold. Each is read only after a token of the
outer one has been used, so a source bounds how deep they go. -/
structure Nested where
  expr : Parse Expr
  /-- An operation whose operator binds at least so tightly. -/
  binary : Nat → Parse Expr
  unary : Parse Expr
  /-- The statements of a block. -/
  stmts : Parse (List Stmt)
  ifStmt : Parse Stmt

end TemplateScript
