import TemplateScript.Proofs.Cursor.Shift
import TemplateScript.Proofs.Cursor.Sound

/-!
# Comments that are no tokens

Where comments are no tokens, a cursor goes on behind each of them as another one does after it has
handed the comment out. So its tokens are those of the other one without the comments.
-/

namespace TemplateScript

namespace Cursor

/-- The cursor hands out comments, and then a token that is none. -/
inductive Passes : Cursor → List Token → Cursor → Token → Prop
  | here {c : Cursor} (hkind : c.scan.2.kind ≠ .comment) : Passes c [] c.scan.1 c.scan.2
  | comment {c last : Cursor} {comments : List Token} {token : Token}
    (hkind : c.scan.2.kind = .comment) (hmore : Passes c.scan.1 comments last token) :
    Passes c (c.scan.2 :: comments) last token

namespace Passes

variable {c last : Cursor} {comments : List Token} {token : Token}

theorem reaches (h : c.Passes comments last token) : c.Reaches last := by
  induction h with
  | here hkind => exact reaches_scan _
  | comment hkind hmore ih => exact (reaches_scan _).trans ih

theorem kind_ne (h : c.Passes comments last token) : token.kind ≠ .comment := by
  induction h with
  | here hkind => exact hkind
  | comment hkind hmore ih => exact ih

end Passes

theorem scan_code {c : Cursor} (hpool : c.pool = []) (htext : c.inText = false) :
    c.scan = ({ c.code.1 with pool := c.code.2.2 }, c.code.2.1) := by
  rw [scan_eq hpool]
  unfold read
  rw [htext]
  rfl

end Cursor

namespace Setting

variable {s : Setting} {c : Cursor}

end Setting

/-! ### Errors that were handed out -/

namespace Cursor

variable {c : Cursor}

/-- How many errors were handed out does not count for the next token. -/
theorem scan_taken (h : c.Lined) (n : Nat) :
    { c with taken := n }.scan = ({ c.scan.1 with taken := n }, c.scan.2) := by
  let s : Setting :=
    { starts := [], gap := 0, behind := 0, starts_le := Setting.no_starts_le, taken := some n }
  have hcursor (c : Cursor) : s.cursor c = { c with taken := n } := by
    have hpool : c.pool.map (·.shift 0) = c.pool := List.map_id' c.pool
    have herrors : c.errors.map (·.shift 0 0) = c.errors := List.map_id' c.errors
    simpa [Setting.cursor, Setting.file, Setting.options, Setting.lines, s, hpool] using herrors
  have hscan : (s.cursor c).scan = s.handed c.scan :=
    Setting.scan_cursor ⟨h, absurd rfl⟩ fun hquiet => absurd hquiet Bool.false_ne_true
  rw [hcursor] at hscan
  rw [hscan]
  exact congrArg (·, _) (hcursor _)

end Cursor

end TemplateScript
