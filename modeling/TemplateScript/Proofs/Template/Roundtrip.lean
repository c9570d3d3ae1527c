import TemplateScript.Proofs.Finish.Source
import TemplateScript.Proofs.Source.Parsed
import TemplateScript.Proofs.Template.Tokens

/-!
# Canonical templates survive

A template in canonical form is parsed without a complaint. The tree prints as the template, and
whoever walks it comes by the texts and the names of the template in order.
-/

namespace TemplateScript

namespace Template

/-! ### Sources are fit to be read -/

/-- The text has no byte order mark in it. -/
def Unmarked (text : String) : Prop := ∀ ch ∈ text.toList, ch ≠ Cursor.byteOrderMark

instance (text : String) : Decidable (Unmarked text) := List.decidableBAll _ text.toList

theorem Unmarked.append {a b : String} (ha : Unmarked a) (hb : Unmarked b) : Unmarked (a ++ b) := by
  intro ch hch
  rw [String.toList_append, List.mem_append] at hch
  exact hch.elim (ha ch) (hb ch)

theorem unmarked_opening (isValue : Bool) : Unmarked (opening isValue) := by
  cases isValue <;> decide

theorem Name.unmarked (x : Name) : Unmarked x.text := by
  intro ch hch hmark
  have hletter := List.all_eq_true.1 (Bool.and_eq_true_iff.1 x.isWord).2 ch hch
  rw [hmark] at hletter
  exact absurd hletter (by decide +kernel)

mutual

theorem unmarked_source : ∀ t : Template, Unmarked t.source
  | .text run => fun ch hch => (run.plain ch hch).2.2
  | .value x =>
    (((unmarked_opening true).append (by decide)).append x.unmarked).append (by decide)
  | .define x =>
    (((unmarked_opening false).append (by decide)).append x.unmarked).append (by decide)
  | .branch x body =>
    ((((((unmarked_opening false).append (by decide)).append x.unmarked).append (by decide)).append
      (unmarked_sources body)).append (unmarked_opening false)).append (by decide)
  | .each x y body =>
    ((((((((unmarked_opening false).append (by decide)).append x.unmarked).append
      (by decide)).append y.unmarked).append (by decide)).append
        (unmarked_sources body)).append (unmarked_opening false)).append (by decide)

/-- Templates have no byte order mark in them. -/
theorem unmarked_sources : ∀ ts : List Template, Unmarked (sources ts)
  | [] => nofun
  | t :: ts => (unmarked_source t).append (unmarked_sources ts)

end

/-! ### Parsing -/

variable {options : ScanOptions} {ts : List Template}

/-- A cursor at the start of templates is in their text. -/
theorem start_inText (hmixed : options.mixed = true) (hdelimiters : options.delimiters = {})
    (file : SourceFile) (ts : List Template) :
    (Cursor.start file options (Glyph.ofText (sources ts))).InText (Glyph.ofText (sources ts)) := by
  have hfit : ∀ g ∈ Glyph.ofText (sources ts), g.IsFit := by
    intro g hg
    obtain ⟨ch, hch, rfl⟩ := List.mem_map.1 hg
    exact ⟨ch, rfl, unmarked_sources ts ch hch⟩
  rw [Cursor.start_fit fun g hg => hfit g (List.mem_of_mem_head? hg)]
  exact ⟨⟨rfl, hfit, hmixed, hdelimiters, rfl, rfl, rfl, rfl⟩, hmixed⟩

/-- Templates of which no texts stand side by side are read as their tokens. -/
theorem start_gives (hmixed : options.mixed = true) (hdelimiters : options.delimiters = {})
    (file : SourceFile) (h : Apart true ts) :
    (Cursor.start file options (Glyph.ofText (sources ts))).Gives (allFaces ts ++ [⟨.eof, ""⟩]) := by
  refine h.gives (.inl rfl) (fun c hc => hc.gives_eof) _ (.inl ?_)
  rw [List.append_nil]
  exact start_inText hmixed hdelimiters file ts

end Template

namespace FileSet

open Template

/-- Templates in canonical form are parsed without a complaint. The tree prints as the templates,
byte for byte, and walking it one comes by their texts and names in order. -/
theorem parse_templates (set : FileSet) (name : String) (ts : List Template)
    (options : ParseOptions) (hmixed : options.scan.mixed = true)
    (hdelimiters : options.scan.delimiters = {}) :
    ∃ parsed later,
      set.parse name (Glyph.ofBytes (utf8 (sources ts))) options = .ok (parsed, later) ∧
      parsed.errors = [] ∧ utf8 parsed.document.print = utf8 (sources ts) ∧
      ∃ nodes, Node.Walk (parsed.document.stmts.map .stmt) nodes ∧
        nodes.filterMap Node.piece? = allPieces (joinedAll ts) := by
  have hbytes : Glyph.ofBytes (utf8 (sources ts)) = Glyph.ofText (sources (joinedAll ts)) := by
    rw [sources_joinedAll]
    exact Glyph.ofBytes_toUTF8 _
  have hready : (set.reader name (Glyph.ofBytes (utf8 (sources ts))) options).Ready _ :=
    SourceFile.ready_reader (Cursor.sound_bytes (.inl ⟨_, rfl⟩) (Glyph.widths_ofBytes _) rfl) _
  obtain ⟨stmts, r, -, hrun, -⟩ := Parse.source_finishes hready
  obtain ⟨later, hparse⟩ := FileSet.parse_eq_ok_iff_source.2 ⟨stmts, r, hrun, rfl⟩
  rw [hbytes] at hrun
  obtain ⟨hgrows, herrors, -⟩ := source_grows
    (start_gives hmixed hdelimiters _ (apart_joinedAll ts)) hrun
  have hshift := hgrows.shift set.base
  obtain ⟨nodes, hwalk, hpieces⟩ := hshift.walk .nil
  refine ⟨_, later, hparse, ?_, ?_, nodes, ?_, ?_⟩
  · simp [herrors, Diagnostic.sort]
  · rw [Document.print, Document.shift, hshift.printFile_eq, sources_joinedAll]
  · rw [List.append_nil] at hwalk
    exact hwalk
  · rw [hpieces, List.filterMap_nil, List.append_nil]

/-- Two texts that are one, and a loop with a value, a branch and a definition in it. -/
theorem parse_templates_nested :
    let text :=
      "a\n#\x7b for k in list do \x7d#\x7b= k \x7d, #\x7b if k do \x7d!#\x7b end \x7d" ++
        "#\x7b k := 1 \x7d#\x7b end \x7d"
    ∃ parsed later,
      FileSet.parse {} "main" (Glyph.ofBytes (utf8 text)) { scan := { mixed := true } } =
        .ok (parsed, later) ∧
      parsed.errors = [] ∧ utf8 parsed.document.print = utf8 text ∧
      ∃ nodes, Node.Walk (parsed.document.stmts.map .stmt) nodes ∧
        nodes.filterMap Node.piece? = [.text "a\n", .name "k", .text ", ", .text "!"] := by
  let k : Name := ⟨"k", by decide +kernel, by decide +kernel⟩
  let list : Name := ⟨"list", by decide +kernel, by decide +kernel⟩
  let run (text : String) (hne : text ≠ "")
      (hplain : ∀ ch ∈ text.toList, ch ≠ '#' ∧ ch ≠ '\\' ∧ ch ≠ Cursor.byteOrderMark) : Template :=
    .text ⟨text, hne, hplain⟩
  let ts : List Template :=
    [run "a" (by decide) (by simp [Cursor.byteOrderMark]),
      run "\n" (by decide) (by simp [Cursor.byteOrderMark]),
      .each k list [.value k, run ", " (by decide) (by simp [Cursor.byteOrderMark]),
        .branch k [run "!" (by decide) (by simp [Cursor.byteOrderMark])], .define k]]
  have hsource : sources ts = "a\n#\x7b for k in list do \x7d#\x7b= k \x7d, #\x7b if k do \x7d!" ++
      "#\x7b end \x7d#\x7b k := 1 \x7d#\x7b end \x7d" := by decide +kernel
  have hparse := parse_templates {} "main" ts { scan := { mixed := true } } rfl rfl
  rw [hsource] at hparse
  exact hparse

end FileSet

end TemplateScript
