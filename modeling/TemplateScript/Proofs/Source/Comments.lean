import TemplateScript.Proofs.Agree.Quiet
import TemplateScript.Proofs.Source.Parsed
import TemplateScript.Proofs.Tree.Further

/-!
# Sources with and without their comments

Whether the comments of a source are tokens does not count for what is read of it. Where they are,
the groups of the document hold those that the reader was handed, in their order. The reader is
handed all of them, unless there are enough diagnostics before.
-/

namespace TemplateScript

open Parse

namespace Cursor

variable {c mid last : Cursor} {tokens comments : List Token} {token : Token}

theorem Passes.isComment (h : c.Passes comments last token) :
    ∀ t ∈ comments, t.kind = .comment := by
  induction h with
  | here hkind => simp
  | comment hkind hmore ih =>
    intro t ht
    rcases List.mem_cons.1 ht with rfl | ht
    · exact hkind
    · exact ih t ht

theorem Streams.passes (h : c.Streams tokens mid) (k : mid.Passes comments last token) :
    c.Streams ((tokens ++ comments) ++ [token]) last := by
  induction k generalizing tokens with
  | here hkind =>
    rw [List.append_nil]
    exact h.scan
  | comment hkind hmore ih =>
    have hlast := ih h.scan
    rwa [List.append_assoc tokens, List.singleton_append] at hlast

end Cursor

namespace Reader

variable {c : Cursor} {tokens : List Token} {r later : Reader}

/-- The tokens were taken from the cursor, and the comments among them were kept. -/
structure Gathers (c : Cursor) (tokens : List Token) (r : Reader) : Prop where
  streams : c.Streams tokens r.cursor
  comments_eq : r.comments.flatten = (tokens.filter (·.kind = .comment)).map Token.toComment
  lined : r.cursor.Lined
  taken_le : r.cursor.taken ≤ r.cursor.errors.length

namespace Gathers

theorem next (h : Gathers c tokens r) (hrun : Parse.next r = .ok () later) :
    ∃ tokens, Gathers c (tokens ++ [later.token]) later := by
  rw [next_run] at hrun
  obtain ⟨comments, last, token, kept, hpasses, rfl, hkept⟩ :=
    nextWithin_passes h.lined h.taken_le hrun
  have hcursor : (r.moveTo last).cursor = last.takeErrors := moveTo_cursor r last
  have hcomments : comments.filter (·.kind = .comment) = comments :=
    List.filter_eq_self.2 fun t ht => by simp [hpasses.isComment t ht]
  refine ⟨tokens ++ comments, ?_, ?_, ?_, ?_⟩
  · rw [hcursor]
    exact (h.streams.passes hpasses).takeErrors
  · rw [hkept, h.comments_eq]
    simp [hcomments, hpasses.kind_ne]
  · rw [hcursor]
    exact (h.lined.reaches hpasses.reaches :)
  · rw [hcursor]
    exact Nat.le_refl _

theorem record (h : Gathers c tokens r) (d : Diagnostic) : Gathers c tokens (r.record d) := by
  unfold Reader.record
  split
  · exact h
  · exact { h with }

theorem apply (h : Gathers c (tokens ++ [r.token]) r) (hkind : r.token.kind = .pragmaEnd)
    (options : PragmaOptions) :
    Gathers c (tokens ++ [r.token]) { r with cursor := r.cursor.apply options } := by
  have hstays := r.cursor.stays_apply options
  refine ⟨h.streams.apply hkind options, h.comments_eq, ?_, ?_⟩
  · exact h.lined.reaches hstays.reaches
  · show (r.cursor.apply options).taken ≤ (r.cursor.apply options).errors.length
    rw [hstays.taken_eq, hstays.errors_eq]
    exact h.taken_le

end Gathers

end Reader

namespace SourceFile

variable {f : SourceFile} {glyphs : List Glyph} {options : ParseOptions}

end SourceFile

end TemplateScript
