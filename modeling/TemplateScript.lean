import TemplateScript.Cursor.Basic
import TemplateScript.Cursor.Comment
import TemplateScript.Cursor.Delivery
import TemplateScript.Cursor.Lexeme
import TemplateScript.Cursor.Literal
import TemplateScript.Cursor.Number
import TemplateScript.Cursor.Pragma
import TemplateScript.Cursor.Scan
import TemplateScript.Cursor.Template
import TemplateScript.Cursor.Word
import TemplateScript.Diagnostic.Basic
import TemplateScript.Diagnostic.Cause
import TemplateScript.Diagnostic.Excerpt
import TemplateScript.Grammar.Document
import TemplateScript.Grammar.Expression
import TemplateScript.Grammar.Literal
import TemplateScript.Grammar.Params
import TemplateScript.Grammar.Reader
import TemplateScript.Grammar.Statement
import TemplateScript.Grammar.Template
import TemplateScript.Number.Binary64
import TemplateScript.Number.Integer
import TemplateScript.Number.Shortest
import TemplateScript.Options
import TemplateScript.Source.File
import TemplateScript.Source.FileSet
import TemplateScript.Source.Place
import TemplateScript.Text.Alphabetic
import TemplateScript.Text.Digit
import TemplateScript.Text.Escaped
import TemplateScript.Text.Extending
import TemplateScript.Text.Glyph
import TemplateScript.Text.Heredoc
import TemplateScript.Text.Numeric
import TemplateScript.Text.Quoted
import TemplateScript.Text.Unprintable
import TemplateScript.Token.Basic
import TemplateScript.Token.Kind
import TemplateScript.Tree.Basic
import TemplateScript.Tree.Build
import TemplateScript.Tree.CommentText
import TemplateScript.Tree.Printed
import TemplateScript.Tree.Shift
import TemplateScript.Tree.Span
import TemplateScript.Proofs.Cursor.Reach
import TemplateScript.Proofs.Source.Lines
import TemplateScript.Proofs.Grammar.Steps
import TemplateScript.Proofs.Grammar.Account
import TemplateScript.Proofs.Tree.WellFormed
import TemplateScript.Proofs.WellFormed.Document
import TemplateScript.Proofs.Grammar.Built
import TemplateScript.Proofs.Built.Params
import TemplateScript.Proofs.Built.Expression
import TemplateScript.Proofs.Built.Statement
import TemplateScript.Proofs.Built.Document
import TemplateScript.Proofs.Source.Parsed
import TemplateScript.Proofs.Diagnostic.Lines
import TemplateScript.Proofs.Diagnostic.Limit
import TemplateScript.Proofs.Agree.Document
import TemplateScript.Proofs.Cursor.Beside
import TemplateScript.Proofs.Cursor.Lexeme
import TemplateScript.Proofs.Cursor.Onward
import TemplateScript.Proofs.Cursor.Weight
import TemplateScript.Proofs.Text.Glyph
import TemplateScript.Proofs.Text.Quoted
import TemplateScript.Proofs.Cursor.Quoted
import TemplateScript.Proofs.Cursor.NumberEnd
import TemplateScript.Proofs.Cursor.Unbroken
import TemplateScript.Proofs.Cursor.Walk
import TemplateScript.Proofs.Cursor.Plain
import TemplateScript.Proofs.Cursor.Calls
import TemplateScript.Proofs.Cursor.Report
import TemplateScript.Proofs.Cursor.Tiling
import TemplateScript.Proofs.Cursor.Fidelity
import TemplateScript.Proofs.Cursor.Semicolon
import TemplateScript.Proofs.Cursor.FinalBreak
import TemplateScript.Proofs.Cursor.Sound
import TemplateScript.Proofs.Grammar.Take
import TemplateScript.Proofs.Grammar.Finish
import TemplateScript.Proofs.Finish.Params
import TemplateScript.Proofs.Finish.Expression
import TemplateScript.Proofs.Finish.Statement
import TemplateScript.Proofs.Finish.Document
import TemplateScript.Proofs.Finish.Source
import TemplateScript.Proofs.Source.Places
import TemplateScript.Proofs.Cursor.Resolve
import TemplateScript.Proofs.Diagnostic.Place
import TemplateScript.Proofs.Source.Pragma
import TemplateScript.Proofs.Agree.Source
import TemplateScript.Proofs.Source.Base
import TemplateScript.Proofs.Cursor.Quiet
import TemplateScript.Proofs.Cursor.Stream
import TemplateScript.Proofs.Agree.Quiet
import TemplateScript.Proofs.Source.Comments
import TemplateScript.Proofs.Cursor.Bracketed
import TemplateScript.Proofs.Grammar.Reads
import TemplateScript.Proofs.Template.Canonical
import TemplateScript.Proofs.Template.Phrases
import TemplateScript.Proofs.Template.Roundtrip
import TemplateScript.Proofs.Agree.Beside
import TemplateScript.Proofs.Source.FileSet
import TemplateScript.Proofs.Operation.Parse
import TemplateScript.Proofs.Sugar.Source
import TemplateScript.Proofs.Source.Extent
import TemplateScript.Proofs.Source.Joined
import TemplateScript.Proofs.Agree.Preceded
import TemplateScript.Proofs.Recovery.Tokens
import TemplateScript.Proofs.Recovery.Run
import TemplateScript.Proofs.Recovery.Lines
import TemplateScript.Proofs.Cursor.Passed
import TemplateScript.Proofs.Grammar.Yield
import TemplateScript.Proofs.Tree.InOrder
import TemplateScript.Proofs.InOrder.Params
import TemplateScript.Proofs.InOrder.Expression
import TemplateScript.Proofs.InOrder.Document
import TemplateScript.Proofs.Recovery.Stray
import TemplateScript.Proofs.Recovery.Open
import TemplateScript.Proofs.Layout.Lexical
import TemplateScript.Proofs.Layout.Respaced
import TemplateScript.Proofs.Cursor.Evaluated
import TemplateScript.Proofs.Cursor.Heredoc
import TemplateScript.Proofs.Cursor.Integer
import TemplateScript.Proofs.Cursor.Raw
import TemplateScript.Proofs.Number.Integer
import TemplateScript.Proofs.Source.Integer
import TemplateScript.Proofs.Cursor.Misfits
import TemplateScript.Proofs.Diagnostic.Canonical
import TemplateScript.Proofs.Pragma.Whole
import TemplateScript.Proofs.Script.Fences
import TemplateScript.Proofs.Listing.Closure
import TemplateScript.Proofs.Spelling.Built
import TemplateScript.Proofs.Source.Table
import TemplateScript.Proofs.Diagnostic.Aligned
import TemplateScript.Proofs.Diagnostic.Excerpt
