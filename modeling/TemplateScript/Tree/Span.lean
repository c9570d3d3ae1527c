import TemplateScript.Tree.Basic

/-!
# Spans

Where the parts of a tree begin, and where the first byte behind them is.
-/

namespace TemplateScript

/-- The position behind a name. -/
def Ident.stop (i : Ident) : Pos := i.pos + i.name.utf8ByteSize

/-- The position behind a name and its types. -/
def TypedIdent.stop (t : TypedIdent) : Pos := (t.types.getLast?.getD t.ident).stop

/-- The position behind a literal. -/
def Literal.stop (l : Literal) : Pos := l.pos + l.text.utf8ByteSize

/-- The position behind a block. -/
def Block.stop {α : Type} (b : Block α) : Pos := b.rbrace + 1

/-- The position behind a delimiter. -/
def Delimiter.stop (d : Delimiter) : Pos := d.pos + d.literal.utf8ByteSize

/-- The position behind a run of text. -/
def MixedText.stop (t : MixedText) : Pos := t.pos + t.literal.utf8ByteSize

/-- The position behind a keyword. -/
def behindWord (pos : Pos) (kind : Token.Kind) : Pos := pos + kind.spelling.utf8ByteSize

namespace Expr

/-- Where an expression begins. A piped call begins at its first argument. -/
def pos : Expr → Pos
  | .ident id => id.pos
  | .literal lit => lit.pos
  | .word _ pos => pos
  | .array lbrack _ _ => lbrack
  | .dict lbrace _ _ => lbrace
  | .binary lhs _ _ _ => lhs.pos
  | .unary op opPos operand => if op.isTest then operand.pos else opPos
  | .cond test _ _ _ _ => test.pos
  | .call _ _ ⟨first :: _, _, _, _⟩ _ true => first.pos
  | .call callee _ _ _ _ => callee.pos
  | .index base _ _ _ => base.pos
  | .slice base _ _ _ _ => base.pos
  | .selector base _ _ => base.pos
  | .paren lparen _ _ => lparen
  | .tuple lparen _ _ => lparen
  | .keyValues lparen _ _ => lparen
  | .func pos _ _ _ => pos
  | .closure pos _ _ _ => pos
  | .load _ pos _ _ => pos
  | .ret pos _ => pos
  | .bad first _ => first

/-- The position behind an expression. -/
def stop : Expr → Pos
  | .ident id => id.stop
  | .literal lit => lit.stop
  | .word w pos => pos + w.spelling.utf8ByteSize
  | .array _ _ rbrack => rbrack + 1
  | .dict _ _ rbrace => rbrace + 1
  | .binary _ _ _ rhs => rhs.stop
  | .unary op opPos operand =>
    if op.isTest then opPos + op.spelling.utf8ByteSize else operand.stop
  | .cond _ _ _ _ no => no.stop
  | .call _ _ _ rparen _ => rparen + 1
  | .index _ _ _ rbrack => rbrack + 1
  | .slice _ _ _ _ rbrack => rbrack + 1
  | .selector _ name _ => name.stop
  | .paren _ _ rparen => rparen + 1
  | .tuple _ _ rparen => rparen + 1
  | .keyValues _ _ rparen => rparen + 1
  | .func _ _ _ body => body.stop
  | .closure _ _ _ body => body.stop
  | .load _ _ _ rparen => rparen + 1
  | .ret _ (some e) => e.stop
  | .ret pos none => behindWord pos .returnWord
  | .bad _ last => last

end Expr

namespace Spec

/-- Where an entry of a declaration begins. The stars of a variadic one stand before that. -/
def pos : Spec Expr → Pos
  | .param ident _ => ident.ident.pos
  | .named ident _ _ => ident.ident.pos
  | .value ident _ => ident.pos

/-- The position behind an entry of a declaration. -/
def stop : Spec Expr → Pos
  | .param ident _ => ident.stop
  | .named ident preset _ => (preset.map Expr.stop).getD ident.stop
  | .value ident given => (given.map Expr.stop).getD ident.stop

end Spec

namespace Stmt

/-- Where a statement begins. -/
def pos : Stmt → Pos
  | .expr e => e.pos
  | .empty pos _ => pos
  | .block body => body.lbrace
  | .assign targets _ opPos _ => (targets.head?.map Expr.pos).getD opPos
  | .decl _ pos _ _ _ => pos
  | .ifElse pos _ _ _ _ => pos
  | .forLoop pos _ _ _ _ _ => pos
  | .forIn pos _ _ _ _ _ => pos
  | .branch _ pos => pos
  | .ret pos _ => pos
  | .incDec target _ _ => target.pos
  | .tryCatch pos _ _ _ => pos
  | .throw pos _ => pos
  | .mixedText text => text.pos
  | .codeBegin d => d.pos
  | .codeEnd d => d.pos
  | .mixedValue opening _ _ => opening.pos
  | .pragma pos _ _ _ => pos
  | .bad first _ => first

/-- The position behind a statement. -/
def stop : Stmt → Pos
  | .expr e => e.stop
  | .empty pos isImplicit => if isImplicit then pos else pos + 1
  | .block body => body.stop
  | .assign _ _ opPos values => (values.getLast?.map Expr.stop).getD opPos
  | .decl _ pos _ specs rparen =>
    ((rparen.map (· + 1)).or (specs.getLast?.map Spec.stop)).getD pos
  | .ifElse _ _ _ _ (some otherwise) => otherwise.stop
  | .ifElse _ _ _ body none => body.stop
  | .forLoop _ _ _ _ body otherwise => (otherwise.getD body).stop
  | .forIn _ _ _ _ body otherwise => (otherwise.getD body).stop
  | .branch kind pos => behindWord pos kind
  | .ret pos result => (result.map Expr.stop).getD (behindWord pos .returnWord)
  | .incDec _ _ opPos => opPos + 2
  | .tryCatch _ body handler finalizer =>
    ((finalizer.map (·.body)).or (handler.map (·.body)) |>.getD body).stop
  | .throw _ e => e.stop
  | .mixedText text => text.stop
  | .codeBegin d => d.stop
  | .codeEnd d => d.stop
  | .mixedValue _ _ closing => closing.stop
  | .pragma _ _ _ last => last
  | .bad _ last => last

end Stmt

end TemplateScript
