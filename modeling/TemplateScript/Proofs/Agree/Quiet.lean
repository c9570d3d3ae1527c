import TemplateScript.Proofs.Agree.Source
import TemplateScript.Proofs.Cursor.Stream

/-!
# Readers with and without comments

One reader is handed comments and keeps them, another one is not and keeps none. Whenever each has
taken a token, they have come to the same point and found the same wrong: what the first one records
comment by comment, the second one records at once.
-/

namespace TemplateScript

open Parse

/-- The comment that a token stands for. -/
def Token.toComment (t : Token) : Comment := ⟨t.pos, t.literal⟩

namespace Cursor.Passes

variable {c last : Cursor} {comments : List Token} {token : Token}

theorem withTaken (h : c.Passes comments last token) (hlined : c.Lined) (n : Nat) :
    ({ c with taken := n } : Cursor).Passes comments { last with taken := n } token := by
  induction h with
  | @here c hkind =>
    have hscan := scan_taken hlined n
    have hpasses := Passes.here (c := { c with taken := n }) (by rw [hscan]; exact hkind)
    rw [hscan] at hpasses
    exact hpasses
  | @comment c last comments token hkind hmore ih =>
    have hscan := scan_taken hlined n
    have hrest := ih (hlined.reaches (reaches_scan c))
    have hnext : ({ c with taken := n } : Cursor).scan.1.Passes comments
        { last with taken := n } token := by
      rw [hscan]
      exact hrest
    have hpasses := Passes.comment (by rw [hscan]; exact hkind) hnext
    rw [hscan] at hpasses
    exact hpasses

theorem taken_eq (h : c.Passes comments last token) (hlined : c.Lined) : last.taken = c.taken := by
  induction h with
  | @here c hkind => exact (congrArg (·.1.taken) (scan_taken hlined c.taken) :)
  | @comment c last comments token hkind hmore ih =>
    rw [ih (hlined.reaches (reaches_scan c))]
    exact (congrArg (·.1.taken) (scan_taken hlined c.taken) :)

end Cursor.Passes

namespace Reader

variable {r : Reader}

/-- What is recorded does not depend on the cursor or the comments. -/
theorem record_with (r : Reader) (d : Diagnostic) (cursor : Cursor) (comments : List CommentGroup)
    (commentEnd : Option Nat) :
    record { r with cursor, comments, commentEnd } d =
      { r.record d with cursor, comments, commentEnd } := by
  unfold record
  rw [show isFull { r with cursor, comments, commentEnd } = r.isFull from rfl]
  split
  · rfl
  · rfl

theorem records_with (r : Reader) (errors : List ScanError) (cursor : Cursor)
    (comments : List CommentGroup) (commentEnd : Option Nat) :
    errors.foldl (fun r e => r.record (.ofScanError e))
        { r with cursor, comments, commentEnd } =
      { errors.foldl (fun r e => r.record (.ofScanError e)) r with
        cursor, comments, commentEnd } := by
  induction errors generalizing r with
  | nil => rfl
  | cons e rest ih =>
    rw [List.foldl_cons, record_with, ih]
    rfl

theorem moveTo_eq (r : Reader) (cursor : Cursor) :
    r.moveTo cursor =
      { cursor.newErrors.foldl (fun r e => r.record (.ofScanError e)) r with
        cursor := cursor.takeErrors, comments := r.comments, commentEnd := r.commentEnd } :=
  records_with r cursor.newErrors cursor.takeErrors r.comments r.commentEnd

theorem moveTo_with (r : Reader) (cursor : Cursor) (comments : List CommentGroup)
    (commentEnd : Option Nat) :
    moveTo { r with comments, commentEnd } cursor =
      { r.moveTo cursor with comments, commentEnd } := by
  rw [moveTo_eq r cursor]
  exact records_with r cursor.newErrors cursor.takeErrors comments commentEnd

/-- Moving on twice is moving on once, if the second time only new errors are recorded. -/
theorem moveTo_moveTo (r : Reader) {mid last : Cursor} (hle : mid.taken ≤ mid.errors.length)
    (hgrow : mid.errors <+: last.errors) (htaken : last.taken = mid.taken) :
    (r.moveTo mid).moveTo { last with taken := mid.errors.length } = r.moveTo last := by
  obtain ⟨more, hmore⟩ := hgrow
  have hnew : last.newErrors =
      mid.newErrors ++ ({ last with taken := mid.errors.length } : Cursor).newErrors := by
    unfold Cursor.newErrors
    rw [← hmore, htaken, List.drop_append_of_le_length hle, List.drop_left]
  rw [moveTo_eq r last, hnew, List.foldl_append, moveTo_eq r mid]
  exact records_with (mid.newErrors.foldl (fun r e => r.record (.ofScanError e)) r) _
    last.takeErrors r.comments r.commentEnd

/-- A comment is kept behind the others. -/
theorem keepComment_flatten (r : Reader) (comment : Comment) (first last : Nat) :
    (r.keepComment comment first last).comments.flatten = r.comments.flatten ++ [comment] := by
  unfold keepComment
  cases hlast : r.comments.getLast? with
  | none => simp
  | some group =>
    have hcomments := List.dropLast_append_getLast? group hlast
    cases r.commentEnd with
    | none => simp
    | some line =>
      dsimp only
      split
      · rw [← hcomments]
        simp
      · simp

end Reader

namespace Parse

theorem line_run_eq {o l : Nat} {r mid : Reader} (h : line o r = .ok l mid) : mid = r := by
  by_cases ho : o ≤ r.cursor.file.size
  · cases (line_run ho).symm.trans h
    rfl
  · cases (line_run_fault ho).symm.trans h

/-- The next token is taken behind the comments before it, which are kept. -/
theorem nextWithin_passes {limit : Nat} {r later : Reader} (hlined : r.cursor.Lined)
    (htaken : r.cursor.taken ≤ r.cursor.errors.length)
    (hrun : nextWithin limit r = .ok () later) :
    ∃ comments last token kept, r.cursor.Passes comments last token ∧
      later = { r.moveTo last with token, commentEnd := none, comments := kept } ∧
      kept.flatten = r.comments.flatten ++ comments.map Token.toComment := by
  induction limit generalizing r with
  | zero => cases hrun
  | succ limit ih =>
    have hgrow := (Cursor.reaches_scan r.cursor).errors_grow
    have hsame : r.cursor.scan.1.taken = r.cursor.taken :=
      (congrArg (·.1.taken) (Cursor.scan_taken hlined r.cursor.taken) :)
    rw [nextWithin_succ] at hrun
    by_cases hkind : r.cursor.scan.2.kind = .comment
    · rw [if_pos hkind] at hrun
      obtain ⟨first, _, hfirst, hrun⟩ := bind_run_eq_ok.1 hrun
      cases line_run_eq hfirst
      obtain ⟨stop, _, hstop, hrun⟩ := bind_run_eq_ok.1 hrun
      cases line_run_eq hstop
      let mid := r.cursor.scan.1
      let comment := r.cursor.scan.2.toComment
      have hmid : mid.Lined := hlined.reaches (Cursor.reaches_scan r.cursor)
      have hcursor : ((r.moveTo mid).keepComment comment first stop).cursor = mid.takeErrors :=
        Reader.moveTo_cursor r mid
      have hmore := ih (r := (r.moveTo mid).keepComment comment first stop)
        (by rw [hcursor]; exact hmid) (by rw [hcursor]; exact Nat.le_refl _) hrun
      obtain ⟨comments, last, token, kept, hpasses, hlater, hkept⟩ := hmore
      rw [hcursor] at hpasses
      have hlast : ({ last with taken := mid.errors.length } : Cursor) = last := by
        rw [show mid.errors.length = last.taken from (hpasses.taken_eq hmid).symm]
      have hmove : (r.moveTo mid).moveTo last = r.moveTo { last with taken := mid.taken } := by
        have hle : mid.taken ≤ mid.errors.length :=
          hsame ▸ Nat.le_trans htaken hgrow.length_le
        have hmoves := Reader.moveTo_moveTo r hle
          (show mid.errors <+: ({ last with taken := mid.taken } : Cursor).errors from
            hpasses.reaches.errors_grow) rfl
        rw [← hmoves, hlast]
      refine ⟨r.cursor.scan.2 :: comments, { last with taken := mid.taken }, token, kept,
        .comment hkind (hpasses.withTaken hmid mid.taken), ?_, ?_⟩
      · have hkeep := Reader.moveTo_with (r.moveTo mid) last
          ((r.moveTo mid).keepComment comment first stop).comments (some stop)
        rw [hlater, ← hmove]
        exact congrArg (fun r : Reader => { r with token, commentEnd := none, comments := kept })
          hkeep
      · rw [hkept, Reader.keepComment_flatten, Reader.moveTo_eq]
        simp [comment]
    · rw [if_neg hkind] at hrun
      cases hrun
      exact ⟨[], _, _, r.comments, .here hkind, by rw [Reader.moveTo_eq], by simp⟩

end Parse

namespace Setting

variable {s : Setting} {source : List Glyph} {r₁ r₂ : Reader}

end Setting

end TemplateScript
