import Mathlib.Data.List.TakeWhile
import TemplateScript.Source.FileSet

/-!
# Looking up files

Whatever was asked of a file set before, its files lie one behind the other, and the file that holds
a position is the one that a search through all of them finds. The file found last only says where
to look first.
-/

namespace TemplateScript

/-! ### What may be asked of a set -/

namespace FileSet

end FileSet

/-! ### Files in order -/

namespace SourceFile

/-- The whole of the one file is before the whole of the other. -/
def Before (f g : SourceFile) : Prop := f.base + f.size < g.base

end SourceFile

namespace FileSet

variable {set later : FileSet} {files : List SourceFile} {f : SourceFile} {p : Nat}

/-- The files of the set lie one behind the other, before the first free position. -/
structure Ordered (set : FileSet) : Prop where
  pairwise : set.files.Pairwise SourceFile.Before
  base_pos : ∀ f ∈ set.files, 0 < f.base
  free : ∀ f ∈ set.files, f.base + f.size < set.base
  free_pos : 0 < set.base

theorem add_of_le {base : Option Nat} (h : set.base ≤ base.getD set.base) (name : String)
    (size : Nat) :
    set.add name base size =
      .ok ({ name, base := base.getD set.base, size },
        ⟨base.getD set.base + size + 1,
          set.files ++ [{ name, base := base.getD set.base, size }], some set.files.length⟩) := by
  unfold add
  rw [if_neg (Nat.not_lt.2 h)]

theorem Ordered.add (h : set.Ordered) {name : String} {base : Option Nat} {size : Nat}
    (hadd : set.add name base size = .ok (f, later)) : later.Ordered := by
  by_cases hbase : set.base ≤ base.getD set.base
  · rw [add_of_le hbase] at hadd
    cases hadd
    have hpos := h.free_pos
    refine ⟨?_, ?_, ?_, Nat.succ_pos _⟩
    · refine List.pairwise_append.2 ⟨h.pairwise, List.pairwise_singleton _ _, ?_⟩
      intro g hg last hlast
      rw [List.mem_singleton.1 hlast]
      exact Nat.lt_of_lt_of_le (h.free g hg) hbase
    · refine List.forall_mem_append.2 ⟨h.base_pos, List.forall_mem_singleton.2 ?_⟩
      exact Nat.lt_of_lt_of_le hpos hbase
    · refine List.forall_mem_append.2 ⟨fun g hg => ?_, List.forall_mem_singleton.2 ?_⟩
      · have hfree := h.free g hg
        dsimp only
        omega
      · exact Nat.lt_succ_self _
  · unfold FileSet.add at hadd
    rw [if_pos (Nat.not_le.1 hbase)] at hadd
    cases hadd

theorem lookedUp_eq (set : FileSet) (p : Pos) : ∃ recent, set.lookedUp p = { set with recent } := by
  unfold lookedUp
  split
  · exact ⟨_, rfl⟩
  · exact ⟨set.recent, rfl⟩

theorem Ordered.lookedUp (h : set.Ordered) (p : Pos) : (set.lookedUp p).Ordered := by
  obtain ⟨recent, heq⟩ := lookedUp_eq set p
  rw [heq]
  exact ⟨h.pairwise, h.base_pos, h.free, h.free_pos⟩

end FileSet

end TemplateScript
