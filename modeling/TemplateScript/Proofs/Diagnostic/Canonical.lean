import TemplateScript.Proofs.Diagnostic.Limit
import Mathlib.Data.Prod.Lex
import Mathlib.Data.String.Basic

/-!
# The first diagnostic of every line

Sorting brings the diagnostics of one line together, the one with the least column and message
first. So what thinning out leaves is determined by the lines that occur and by the least diagnostic
of each, and not by the order in which the diagnostics were recorded.
-/

namespace TemplateScript

namespace Diagnostic

variable {d e : Diagnostic} {list other kept left : List Diagnostic}

/-- The line of a diagnostic: the file, and the number in it. -/
def lineKey (d : Diagnostic) : String ×ₗ Nat := toLex (d.place.file, d.place.line)

/-- What orders the diagnostics of one line: the column, and the message. -/
def columnKey (d : Diagnostic) : Nat ×ₗ String := toLex (d.place.column, d.message)

theorem sameLine_iff : sameLine d e = true ↔ d.lineKey = e.lineKey := by
  simp [sameLine, lineKey]

/-- Diagnostics are ordered by line, and on one line by column and message. -/
theorem isLE_order_iff : (order d e).isLE = true ↔
    d.lineKey < e.lineKey ∨ d.lineKey = e.lineKey ∧ d.columnKey ≤ e.columnKey := by
  simp only [order, Ordering.isLE_then_iff_or, compare_lt_iff_lt, compare_eq_iff_eq,
    Std.LawfulBCmp.isLE_iff_le, lineKey, columnKey, Prod.Lex.toLex_lt_toLex,
    Prod.Lex.toLex_le_toLex, toLex_inj, Prod.mk.injEq]
  tauto

/-- The diagnostics kept of a list: one of every line, in the order of the lines, and none on the
same line before it. -/
structure FirstOfLines (list kept : List Diagnostic) : Prop where
  increasing : kept.Pairwise fun d e => d.lineKey < e.lineKey
  subset : kept ⊆ list
  least : ∀ e ∈ list, ∃ d ∈ kept, d.lineKey = e.lineKey ∧ d.columnKey ≤ e.columnKey

/-- What is kept of a list that begins with a diagnostic and is in order. -/
theorem firstOfLines_after
    (hsorted : (d :: list).Pairwise fun d e => (order d e).isLE = true) :
    FirstOfLines (d :: list) (d :: firstOfLinesAfter d list) := by
  induction list generalizing d with
  | nil =>
    exact ⟨List.pairwise_singleton .., List.Subset.refl _, fun e he =>
      ⟨e, he, rfl, le_rfl⟩⟩
  | cons e rest ih =>
    obtain ⟨hd, hrest⟩ := List.pairwise_cons.1 hsorted
    have hde := isLE_order_iff.1 (hd e List.mem_cons_self)
    rw [firstOfLinesAfter]
    split
    next hsame =>
      -- `e` is dropped, and `d` stands before it on the line they share
      have hline := sameLine_iff.1 hsame
      have hkept := ih (hsorted.sublist ((List.sublist_cons_self e rest).cons_cons d))
      refine ⟨hkept.increasing, fun f hf => ?_, fun f hf => ?_⟩
      · exact ((List.sublist_cons_self e rest).cons_cons d).subset (hkept.subset hf)
      · rcases List.mem_cons.1 hf with rfl | hf
        · exact ⟨f, List.mem_cons_self, rfl, le_rfl⟩
        · rcases List.mem_cons.1 hf with rfl | hf
          · exact ⟨d, List.mem_cons_self, hline,
              hde.elim (fun hlt => absurd hline hlt.ne) And.right⟩
          · exact hkept.least f (List.mem_cons_of_mem d hf)
    next hother =>
      have hlt : d.lineKey < e.lineKey :=
        hde.elim id fun hsame => absurd (sameLine_iff.2 hsame.1) hother
      have hkept := ih hrest
      refine ⟨List.pairwise_cons.2 ⟨fun f hf => ?_, hkept.increasing⟩,
        List.cons_subset_cons d hkept.subset, fun f hf => ?_⟩
      · rcases List.mem_cons.1 hf with rfl | hf
        · exact hlt
        · exact hlt.trans ((List.pairwise_cons.1 hkept.increasing).1 f hf)
      · rcases List.mem_cons.1 hf with rfl | hf
        · exact ⟨f, List.mem_cons_self, rfl, le_rfl⟩
        · obtain ⟨first, hfirst, hleast⟩ := hkept.least f hf
          exact ⟨first, List.mem_cons_of_mem d hfirst, hleast⟩

theorem removeMultiples_firstOfLines (list : List Diagnostic) :
    FirstOfLines list (removeMultiples list) := by
  have hsorted := pairwise_sort list
  have hmem : ∀ d, d ∈ sort list ↔ d ∈ list := fun d => (sort_perm list).mem_iff
  have hkept : FirstOfLines (sort list) (removeMultiples list) := by
    unfold removeMultiples
    generalize sort list = sorted at hsorted
    cases sorted with
    | nil => exact ⟨.nil, List.Subset.refl _, nofun⟩
    | cons d rest => exact firstOfLines_after hsorted
  exact ⟨hkept.increasing, fun d hd => (hmem d).1 (hkept.subset hd), fun e he =>
    hkept.least e ((hmem e).2 he)⟩

namespace FirstOfLines

theorem eq_of_lineKey (h : FirstOfLines list kept) (hd : d ∈ kept) (he : e ∈ kept)
    (hline : d.lineKey = e.lineKey) : d = e := by
  have hnodup : (kept.map lineKey).Nodup := List.pairwise_map.2 (h.increasing.imp ne_of_lt)
  exact List.inj_on_of_nodup_map hnodup hd he hline

/-- What is kept is the least of its line. -/
theorem columnKey_le (h : FirstOfLines list kept) (hd : d ∈ kept) (he : e ∈ list)
    (hline : e.lineKey = d.lineKey) : d.columnKey ≤ e.columnKey := by
  obtain ⟨first, hfirst, hsame, hleast⟩ := h.least e he
  exact h.eq_of_lineKey hfirst hd (hsame.trans hline) ▸ hleast

/-- The lines of what is kept are those of the list. -/
theorem lines_iff (h : FirstOfLines list kept) (line : String ×ₗ Nat) :
    (∃ d ∈ kept, d.lineKey = line) ↔ ∃ d ∈ list, d.lineKey = line := by
  constructor
  · rintro ⟨d, hd, hline⟩
    exact ⟨d, h.subset hd, hline⟩
  · rintro ⟨e, he, rfl⟩
    obtain ⟨d, hd, hline, -⟩ := h.least e he
    exact ⟨d, hd, hline⟩

/-- Whatever is kept on a line of the list has the least column and message there. -/
theorem keys_subset (h : FirstOfLines list kept) (hleft : FirstOfLines list left) :
    kept.map (fun d => (d.lineKey, d.columnKey)) ⊆ left.map fun d => (d.lineKey, d.columnKey) := by
  intro key hkey
  obtain ⟨d, hd, rfl⟩ := List.mem_map.1 hkey
  obtain ⟨e, he, hline, hle⟩ := hleft.least d (h.subset hd)
  have hge := h.columnKey_le hd (hleft.subset he) hline
  exact List.mem_map.2 ⟨e, he, by rw [hline, le_antisymm hle hge]⟩

/-- So lines, columns and messages of what is kept are determined by the list. -/
theorem keys_eq (h : FirstOfLines list kept) (hleft : FirstOfLines list left) :
    kept.map (fun d => (d.lineKey, d.columnKey)) = left.map fun d => (d.lineKey, d.columnKey) := by
  have hincreasing {kept : List Diagnostic} (h : FirstOfLines list kept) :
      (kept.map fun d => (d.lineKey, d.columnKey)).Pairwise fun a b => a.1 < b.1 :=
    List.pairwise_map.2 h.increasing
  have hnodup {kept : List Diagnostic} (h : FirstOfLines list kept) :
      (kept.map fun d => (d.lineKey, d.columnKey)).Nodup :=
    (hincreasing h).imp fun hlt heq => hlt.ne (congrArg Prod.fst heq)
  have hperm := (List.perm_ext_iff_of_nodup (hnodup h) (hnodup hleft)).2 fun key =>
    ⟨fun hkey => h.keys_subset hleft hkey, fun hkey => hleft.keys_subset h hkey⟩
  exact hperm.eq_of_pairwise (fun a b _ _ hab hba => absurd hba hab.asymm)
    (hincreasing h) (hincreasing hleft)

theorem of_perm (h : FirstOfLines list kept) (hperm : list.Perm other) :
    FirstOfLines other kept :=
  ⟨h.increasing, fun _ hd => hperm.mem_iff.1 (h.subset hd), fun e he =>
    h.least e (hperm.mem_iff.2 he)⟩

end FirstOfLines

theorem firstOfLinesAfter_eq_self
    (h : (d :: list).Pairwise fun d e => d.lineKey < e.lineKey) :
    firstOfLinesAfter d list = list := by
  induction list generalizing d with
  | nil => rfl
  | cons e rest ih =>
    obtain ⟨hd, hrest⟩ := List.pairwise_cons.1 h
    have hother : ¬ sameLine d e = true := fun hsame =>
      (hd e List.mem_cons_self).ne (sameLine_iff.1 hsame)
    rw [firstOfLinesAfter, if_neg hother, ih hrest]

/-- A list with one diagnostic for every line, in the order of the lines, is left as it is. -/
theorem removeMultiples_eq_self (h : list.Pairwise fun d e => d.lineKey < e.lineKey) :
    removeMultiples list = list := by
  have hsort : sort list = list :=
    List.mergeSort_of_pairwise (h.imp fun hlt => isLE_order_iff.2 (.inl hlt))
  rw [removeMultiples, hsort]
  cases list with
  | nil => rfl
  | cons d rest => exact congrArg (d :: ·) (firstOfLinesAfter_eq_self h)

/-- Thinning out keeps one diagnostic for every line with any, in the order of the lines: one with
the least column and message of its line. In which order the list was makes no difference to lines,
columns and messages, and thinning out again keeps everything. -/
theorem removeMultiples_canonical (list : List Diagnostic) :
    ((removeMultiples list).Pairwise fun d e => d.lineKey < e.lineKey) ∧
    (∀ line, (∃ d ∈ removeMultiples list, d.lineKey = line) ↔ ∃ d ∈ list, d.lineKey = line) ∧
    (∀ d ∈ removeMultiples list, d ∈ list ∧
      ∀ e ∈ list, e.lineKey = d.lineKey → d.columnKey ≤ e.columnKey) ∧
    (∀ other, list.Perm other →
      (removeMultiples other).map (fun d => (d.lineKey, d.columnKey)) =
        (removeMultiples list).map fun d => (d.lineKey, d.columnKey)) ∧
    removeMultiples (removeMultiples list) = removeMultiples list := by
  have hkept := removeMultiples_firstOfLines list
  refine ⟨hkept.increasing, hkept.lines_iff, fun d hd => ⟨hkept.subset hd, fun e he =>
    hkept.columnKey_le hd he⟩, fun other hperm => ?_, removeMultiples_eq_self hkept.increasing⟩
  exact (removeMultiples_firstOfLines other).keys_eq (hkept.of_perm hperm)

/-- Two diagnostics of the first line and one of the second, recorded in two orders. -/
theorem removeMultiples_canonical_reversed :
    let late : Diagnostic := ⟨⟨"a", 3, 1, 4⟩, .unclosedBrace⟩
    let early : Diagnostic := ⟨⟨"a", 1, 1, 2⟩, .unmatchedBrace⟩
    let below : Diagnostic := ⟨⟨"a", 9, 2, 1⟩, .unclosedBrace⟩
    [late, early, below].Perm [below, early, late] ∧
      (removeMultiples [below, early, late]).map (fun d => (d.lineKey, d.columnKey)) =
        (removeMultiples [late, early, below]).map fun d => (d.lineKey, d.columnKey) := by
  intro late early below
  have hperm : [late, early, below].Perm [below, early, late] := by decide
  exact ⟨hperm, (removeMultiples_canonical _).2.2.2.1 _ hperm⟩

end Diagnostic

end TemplateScript
