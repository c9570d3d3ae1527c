import TemplateScript.Proofs.Operation.Climb
import TemplateScript.Proofs.Source.Read

/-!
# Operations are grouped by precedence

The definition of a name as what a chain of names and operators computes is parsed without a
complaint, and the tree of the chain is its one proper grouping.
-/

namespace TemplateScript

namespace Chain

open Template (Unmarked)

theorem unmarked_behind (rest : List (Operator × Template.Name)) : Unmarked (sourceBehind rest) := by
  induction rest with
  | nil => nofun
  | cons step rest ih =>
    obtain ⟨op, x⟩ := step
    have hop : Unmarked op.kind.spelling := by
      have hspaced := Cursor.mem_spacedMarks op
      revert hspaced
      generalize op.kind = kind
      revert kind
      decide
    exact ((((show Unmarked " " by decide).append hop).append (by decide)).append x.unmarked).append ih

theorem unmarked_definition (v : Template.Name) (chain : Chain) : Unmarked (chain.definition v) :=
  ((v.unmarked.append (by decide)).append chain.first.unmarked).append (unmarked_behind chain.rest)

/-- The start of the definition of a name as what a chain computes. -/
theorem start_inScript {options : ScanOptions} (hmixed : options.mixed = false) (file : SourceFile)
    (v : Template.Name) (chain : Chain) :
    (Cursor.start file options (Glyph.ofText (chain.definition v))).InScript options false
      (Glyph.ofText (chain.definition v)) :=
  Cursor.start_inScript hmixed file (unmarked_definition v chain)

end Chain

namespace FileSet

open Chain

/-- However many names stand in a row with operators between them, and whatever the operators are,
the row is parsed as its one proper grouping. -/
theorem parse_chain (set : FileSet) (name : String) (v : Template.Name) (chain : Chain)
    (options : ParseOptions) (hmixed : options.scan.mixed = false) :
    ∃ parsed later target op value tree,
      set.parse name (Glyph.ofBytes (utf8 (chain.definition v))) options = .ok (parsed, later) ∧
      parsed.errors = [] ∧
      parsed.document.stmts = [.assign [.ident ⟨v.text, target⟩] .define op [value]] ∧
      value.grouping? = some tree ∧ tree.items = chain.items ∧ tree.IsProper ∧
      ∀ other : Grouping, other.items = chain.items → other.IsProper → other = tree := by
  have hready : (set.reader name (Glyph.ofBytes (utf8 (chain.definition v))) options).Ready _ :=
    SourceFile.ready_reader (Cursor.sound_bytes (.inl ⟨_, rfl⟩) (Glyph.widths_ofBytes _) rfl) _
  obtain ⟨stmts, r, -, hrun, -⟩ := Parse.source_finishes hready
  obtain ⟨later, hparse⟩ := FileSet.parse_eq_ok_iff_source.2 ⟨stmts, r, hrun, rfl⟩
  rw [show Glyph.ofBytes (utf8 (chain.definition v)) = Glyph.ofText (chain.definition v) from
    Glyph.ofBytes_toUTF8 _] at hrun
  obtain ⟨⟨s, hstmts, target, op, value, tree, hs, hgroups⟩, herrors⟩ :=
    source_defines (gives_definition hmixed v chain (start_inScript hmixed _ v chain)) hrun
  subst hstmts hs
  refine ⟨_, later, target + set.base, op + set.base, value.shift set.base, tree, hparse, ?_, ?_,
    Expr.grouping?_shift hgroups.grouping_eq _, hgroups.items_eq, hgroups.isProper, ?_⟩
  · simp [herrors, Diagnostic.sort]
  · rfl
  · intro other hitems hproper
    exact hproper.unique hgroups.isProper (hitems.trans hgroups.items_eq.symm)

/-- Operators that group to the left and one that groups to the right, between names. -/
theorem parse_chain_levels :
    let a : Grouping := .name "a"
    let tree : Grouping :=
      .node (.node a .sub a) .sub (.node (.node a .pow (.node a .pow a)) .mul a)
    ∃ parsed later target op value,
      FileSet.parse {} "main" (Glyph.ofBytes (utf8 "v := a - a - a ** a ** a * a")) {} =
        .ok (parsed, later) ∧
      parsed.errors = [] ∧
      parsed.document.stmts = [.assign [.ident ⟨"v", target⟩] .define op [value]] ∧
      value.grouping? = some tree := by
  intro _ tree
  let a : Template.Name := ⟨"a", by decide +kernel, by decide +kernel⟩
  let v : Template.Name := ⟨"v", by decide +kernel, by decide +kernel⟩
  let sub : Operator := ⟨.sub, by decide⟩
  let pow : Operator := ⟨.pow, by decide⟩
  let mul : Operator := ⟨.mul, by decide⟩
  let chain : Chain := ⟨a, [(sub, a), (sub, a), (pow, a), (pow, a), (mul, a)]⟩
  have hsource : chain.definition v = "v := a - a - a ** a ** a * a" := by decide +kernel
  have hitems : tree.items = chain.items := by decide +kernel
  have hproper : tree.IsProper := by decide
  obtain ⟨parsed, later, target, op, value, found, hparse, herrors, hstmts, htree, -, -, hunique⟩ :=
    parse_chain {} "main" v chain {} rfl
  rw [hsource] at hparse
  rw [← hunique tree hitems hproper] at htree
  exact ⟨parsed, later, target, op, value, hparse, herrors, hstmts, htree⟩

end FileSet

end TemplateScript
