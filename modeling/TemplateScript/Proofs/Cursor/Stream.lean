import TemplateScript.Proofs.Cursor.Quiet
import TemplateScript.Proofs.Grammar.Steps

/-!
# Streams whose options change

Whoever reads a source with pragma lines changes the options of the cursor on the way, behind each
of the lines. Where there is no pragma line, the tokens are those of the cursor as it was given.
-/

namespace TemplateScript

namespace Cursor

/-- The tokens that were taken from a cursor, up to a later one. Only behind a pragma line the
options may have been changed. -/
inductive Streams (c : Cursor) : List Token → Cursor → Prop
  | start : c.Streams [] c
  | scan {tokens : List Token} {later : Cursor} (h : c.Streams tokens later) :
    c.Streams (tokens ++ [later.scan.2]) later.scan.1
  | takeErrors {tokens : List Token} {later : Cursor} (h : c.Streams tokens later) :
    c.Streams tokens later.takeErrors
  | apply {tokens : List Token} {later : Cursor} {t : Token} (h : c.Streams (tokens ++ [t]) later)
    (hkind : t.kind = .pragmaEnd) (options : PragmaOptions) :
    c.Streams (tokens ++ [t]) (later.apply options)

variable {c later : Cursor} {tokens : List Token} {limit : Nat}

/-! ### As many tokens as asked for -/

/-- Once the end of the file has come, it comes again and again. -/
theorem Ended.scanMany {e : Token} {errors : List ScanError} (h : c.Ended e errors) (n : Nat) :
    ∀ t ∈ (c.scanMany n).2, t = e := by
  induction n generalizing c with
  | zero => simp [Cursor.scanMany]
  | succ n ih =>
    obtain ⟨htoken, hlater⟩ := h.scan
    intro t ht
    rcases List.mem_cons.1 ht with rfl | ht
    · exact htoken
    · exact ih hlater t ht

end Cursor

end TemplateScript
