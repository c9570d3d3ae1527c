import Mathlib.Data.Prod.Lex
import TemplateScript.Proofs.Source.FileSet
import TemplateScript.Proofs.Source.Lines

/-!
# Line tables

Lines may be recorded of a file at any time, in any order and any number of times: its line table
begins with the start of the file and ascends inside it. A search for the line of an offset relies
on no more than that. So the offset is found again from its place, and places come in the order of
their offsets.
-/

namespace TemplateScript

namespace SourceFile

variable {f : SourceFile} {offset earlier : Nat}

/-- The line table begins with the start of the file, and ascends inside it. -/
structure Tabular (f : SourceFile) : Prop where
  head_eq : f.lines.head? = some 0
  ascends : f.lines.Pairwise (· < ·)
  lt_size : ∀ start ∈ f.lines.tail, start < f.size

theorem Tabular.fresh (name : String) (base size : Nat) : Tabular { name, base, size } :=
  ⟨rfl, List.pairwise_singleton .., List.forall_mem_nil _⟩

namespace Tabular

/-- What is past the last line is past every line. -/
theorem all_getLast?_iff (h : f.Tabular) :
    f.lines.getLast?.all (· < offset) = true ↔ ∀ start ∈ f.lines, start < offset := by
  rcases f.lines.eq_nil_or_concat' with hnil | ⟨before, last, hlines⟩
  · simp [hnil]
  · have hascends := h.ascends
    rw [hlines, List.pairwise_append] at hascends
    rw [hlines, List.getLast?_concat, Option.all_some, decide_eq_true_iff]
    refine ⟨fun hlast => ?_, fun hall => hall last (by simp)⟩
    refine List.forall_mem_append.2 ⟨fun start hstart => ?_, List.forall_mem_singleton.2 hlast⟩
    exact Nat.lt_trans (hascends.2.2 start hstart last List.mem_cons_self) hlast

/-- An offset is recorded, behind all others, if it is past them and inside the file. -/
theorem addLine_lines (h : f.Tabular) (offset : Nat) :
    (f.addLine offset).lines =
      if (∀ start ∈ f.lines, start < offset) ∧ offset < f.size then f.lines ++ [offset]
      else f.lines := by
  simp only [← h.all_getLast?_iff]
  unfold SourceFile.addLine
  split <;> rfl

theorem addLine (h : f.Tabular) (offset : Nat) : (f.addLine offset).Tabular := by
  obtain ⟨lines, hlines⟩ := List.head?_eq_some_iff.1 h.head_eq
  have hadd := h.addLine_lines offset
  split at hadd
  · next hrecorded =>
    refine ⟨by rw [hadd, hlines]; rfl, ?_, ?_⟩
    · rw [hadd]
      refine List.pairwise_append.2 ⟨h.ascends, List.pairwise_singleton .., fun start hstart => ?_⟩
      exact List.forall_mem_singleton.2 (hrecorded.1 start hstart)
    · have htail : (f.addLine offset).lines.tail = f.lines.tail ++ [offset] := by
        rw [hadd, hlines]
        rfl
      rw [htail, addLine_size]
      exact List.forall_mem_append.2 ⟨h.lt_size, List.forall_mem_singleton.2 hrecorded.2⟩
  · refine ⟨hadd ▸ h.head_eq, hadd ▸ h.ascends, ?_⟩
    rw [hadd, addLine_size]
    exact h.lt_size

end Tabular

end SourceFile

namespace FileSet

variable {set later : FileSet} {f g : SourceFile} {index : Nat}

/-! ### Recording lines in a set -/

/-- The files lie one behind the other, and each has its lines in order. -/
structure Tabular (set : FileSet) : Prop where
  ordered : set.Ordered
  files : ∀ f ∈ set.files, f.Tabular

/-- A file that takes the place of another one and is as large leaves the set in order. -/
theorem Ordered.replace (h : set.Ordered) (hfile : set.files[index]? = some f)
    (hbase : g.base = f.base) (hsize : g.size = f.size) : (set.replace index g).Ordered := by
  have hf := List.mem_of_getElem? hfile
  obtain ⟨hindex, hget⟩ := List.getElem?_eq_some_iff.1 hfile
  have hbounds : (set.files.set index g).map (fun f => (f.base, f.size)) =
      set.files.map fun f => (f.base, f.size) := by
    rw [List.map_set, hbase, hsize]
    refine List.ext_getElem? fun i => ?_
    rw [List.getElem?_set]
    split
    · next heq =>
      subst heq
      simp [hindex, hget]
    · rfl
  refine ⟨?_, fun k hk => ?_, fun k hk => ?_, h.free_pos⟩
  · have hpairs : (set.files.map fun f => (f.base, f.size)).Pairwise fun a b => a.1 + a.2 < b.1 :=
      List.pairwise_map.2 h.pairwise
    rw [← hbounds, List.pairwise_map] at hpairs
    exact hpairs
  · rcases List.mem_or_eq_of_mem_set hk with hk | rfl
    · exact h.base_pos k hk
    · exact hbase ▸ h.base_pos f hf
  · rcases List.mem_or_eq_of_mem_set hk with hk | rfl
    · exact h.free k hk
    · exact hbase ▸ hsize ▸ h.free f hf

theorem Tabular.add (h : set.Tabular) {name : String} {base : Option Nat} {size : Nat}
    (hadd : set.add name base size = .ok (f, later)) : later.Tabular := by
  refine ⟨h.ordered.add hadd, ?_⟩
  by_cases hbase : set.base ≤ base.getD set.base
  · rw [add_of_le hbase] at hadd
    cases hadd
    exact List.forall_mem_append.2 ⟨h.files, List.forall_mem_singleton.2 (.fresh ..)⟩
  · unfold FileSet.add at hadd
    rw [if_pos (Nat.not_le.1 hbase)] at hadd
    cases hadd

theorem Tabular.lookedUp (h : set.Tabular) (p : Pos) : (set.lookedUp p).Tabular := by
  refine ⟨h.ordered.lookedUp p, ?_⟩
  obtain ⟨recent, heq⟩ := lookedUp_eq set p
  rw [heq]
  exact h.files

theorem Tabular.replace (h : set.Tabular) (hfile : set.files[index]? = some f) (hg : g.Tabular)
    (hbase : g.base = f.base) (hsize : g.size = f.size) : (set.replace index g).Tabular := by
  refine ⟨h.ordered.replace hfile hbase hsize, fun k hk => ?_⟩
  rcases List.mem_or_eq_of_mem_set hk with hk | rfl
  · exact h.files k hk
  · exact hg

end FileSet

end TemplateScript
