import TemplateScript.Proofs.Source.Parsed

/-!
# Diagnostics of one line

A diagnostic is dropped if the one recorded before it is for the same line, and only then, apart
from the limit. So no two in a row are for one line, and if they are recorded in the order of their
lines, no two are. They need not be: a statement may be found wrong as a whole, at its beginning,
after lines behind it were.
-/

namespace TemplateScript

namespace Diagnostic

theorem sort_perm (list : List Diagnostic) : (sort list).Perm list := List.mergeSort_perm _ _

/-- Diagnostics recorded in the order of their lines, no two in a row for one line, are for
different lines. -/
theorem pairwise_lines {recorded : List Diagnostic}
    (hchain : recorded.IsChain fun d e => d.place.line ≠ e.place.line)
    (hsorted : recorded.IsChain fun d e => d.place.line ≤ e.place.line) :
    (sort recorded).Pairwise fun d e => d.place.line ≠ e.place.line := by
  have hlt : (recorded.map (·.place.line)).IsChain (· < ·) :=
    (List.isChain_map _).2 <| List.isChain_iff_getElem.2 fun i hi =>
      Nat.lt_of_le_of_ne (hsorted.getElem i hi) (hchain.getElem i hi)
  have hne : recorded.Pairwise fun d e => d.place.line ≠ e.place.line :=
    (List.pairwise_map.1 hlt.pairwise).imp Nat.ne_of_lt
  exact hne.perm (sort_perm recorded).symm Ne.symm

end Diagnostic

namespace FileSet

/-- No two diagnostics recorded in a row are for one line. So if they are recorded in the order of
their lines, at most one is returned for every line. -/
theorem parse_errors_lines {set later : FileSet} {name : String} {glyphs : List Glyph}
    {options : ParseOptions} {parsed : Parsed}
    (h : set.parse name glyphs options = .ok (parsed, later)) :
    ∃ recorded, parsed.errors = Diagnostic.sort recorded ∧
      (recorded.IsChain fun d e => d.place.line ≠ e.place.line) ∧
      ((recorded.IsChain fun d e => d.place.line ≤ e.place.line) →
        parsed.errors.Pairwise fun d e => d.place.line ≠ e.place.line) := by
  obtain ⟨stmts, r, hsteps, rfl⟩ := parse_steps h
  have hchain := hsteps.isChain_lines .nil
  exact ⟨r.errors, rfl, hchain, Diagnostic.pairwise_lines hchain⟩

/-- A `try` without a handler is reported where it begins, after the operand missing inside it on
the same line and the one on the next line. -/
theorem parse_errors_lines_twice :
    let glyphs := Glyph.ofText "try\x7b)\n)\x7d"
    ∃ parsed later, FileSet.parse {} "test" glyphs {} = .ok (parsed, later) ∧
      parsed.errors.countP (·.place.line = 1) = 2 ∧
      ¬ parsed.errors.Pairwise fun d e => d.place.line ≠ e.place.line := by
  intro glyphs
  let file : SourceFile := { name := "test", base := 1, size := Glyph.widths glyphs }
  have hlines : (match Parse.source (SourceFile.reader (Cursor.start file {} glyphs) 10) with
      | .ok _ r => some (r.errors.map (·.place.line))
      | .error _ _ => none) = some [1, 2, 1] := by
    decide +kernel
  cases hrun : Parse.source (SourceFile.reader (Cursor.start file {} glyphs) 10) with
  | error e r =>
    rw [hrun] at hlines
    cases hlines
  | ok stmts r =>
    rw [hrun] at hlines
    obtain ⟨later, hparse⟩ := (@parse_eq_ok_iff {} "test" glyphs {} _).2
      (SourceFile.parse_eq_ok_iff.2 ⟨rfl, stmts, r, hrun, rfl⟩)
    have hrecorded : r.errors.map (·.place.line) = [1, 2, 1] := Option.some.inj hlines
    have hperm := Diagnostic.sort_perm r.errors
    refine ⟨_, later, hparse, ?_, fun hne => ?_⟩
    · rw [hperm.countP_eq]
      exact (List.countP_map (p := (· = 1))).symm.trans (congrArg _ hrecorded)
    · have hrecordedNe : r.errors.Pairwise fun d e => d.place.line ≠ e.place.line :=
        hne.perm hperm Ne.symm
      rw [← List.pairwise_map (R := (· ≠ ·)), hrecorded] at hrecordedNe
      exact absurd hrecordedNe (by decide)

/-- A brace that closes nothing and an operand missing on the next line: one diagnostic each. -/
theorem parse_errors_lines_example :
    ∃ parsed later, FileSet.parse {} "test" (Glyph.ofText "\x7d\n)") {} = .ok (parsed, later) ∧
      ∃ recorded, parsed.errors = Diagnostic.sort recorded ∧
        (recorded.IsChain fun d e => d.place.line ≠ e.place.line) ∧
        ((recorded.IsChain fun d e => d.place.line ≤ e.place.line) →
          parsed.errors.Pairwise fun d e => d.place.line ≠ e.place.line) := by
  have hrun : (FileSet.parse {} "test" (Glyph.ofText "\x7d\n)") {}).toOption.isSome = true := by
    decide +kernel
  cases hparse : FileSet.parse {} "test" (Glyph.ofText "\x7d\n)") {} with
  | error fault =>
    rw [hparse] at hrun
    cases hrun
  | ok read => exact ⟨read.1, read.2, rfl, parse_errors_lines hparse⟩

end FileSet

end TemplateScript
