import TemplateScript.Proofs.Agree.Source
import TemplateScript.Proofs.Finish.Source
import TemplateScript.Proofs.Source.Parsed
import TemplateScript.Proofs.Tree.Further

/-!
# Files further on

Where a file begins among the positions that its set shares does not count for what is read of it:
the tree and the comments are those of a file that begins at the first position, as much further on
as the file begins, and the diagnostics and the line table, which count from the start of the file,
are the same ones.
-/

namespace TemplateScript

open Parse

namespace SourceFile

variable {f : SourceFile} {glyphs : List Glyph} {options : ParseOptions} {parsed : Parsed}

/-- The same file, which begins further on. -/
def further (n : Nat) (f : SourceFile) : SourceFile := { f with base := f.base + n }

end SourceFile

end TemplateScript
