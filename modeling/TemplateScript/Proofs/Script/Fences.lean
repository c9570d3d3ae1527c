import TemplateScript.Proofs.Script.Reads
import TemplateScript.Proofs.Script.Tokens
import TemplateScript.Proofs.Source.Read

/-!
# Fences of blocks are interchangeable

However each block of a script is fenced, the script is parsed without a complaint, as the same
statements as its canonical text, in which there are braces around all blocks.
-/

namespace TemplateScript

open Template (Unmarked)

/-! ### No byte order marks -/

namespace Template

theorem Unmarked.intercalate {separator : String} {texts : List String}
    (hseparator : Unmarked separator) (h : ∀ text ∈ texts, Unmarked text) :
    Unmarked (separator.intercalate texts) :=
  forall_mem_intercalate hseparator h

theorem Unmarked.join {texts : List String} (h : ∀ text ∈ texts, Unmarked text) :
    Unmarked (String.join texts) := by
  induction texts with
  | nil => exact fun _ hch => absurd hch List.not_mem_nil
  | cons first texts ih =>
    obtain ⟨hfirst, hmore⟩ := List.forall_mem_cons.1 h
    rw [String.join_cons]
    exact hfirst.append (ih hmore)

theorem Unmarked.led {lead : String} (hlead : Unmarked lead) {text : Option String}
    (h : ∀ text' ∈ text, Unmarked text') : Unmarked (led lead text) := by
  cases text with
  | none => exact fun _ hch => absurd hch List.not_mem_nil
  | some text => exact hlead.append (h text rfl)

end Template

theorem Atom.unmarked (a : Atom) : Unmarked a.text := fun ch hch => (a.oneLine ch hch).2

theorem Fence.unmarked_around (fence : Fence) {texts : List String}
    (h : ∀ text ∈ texts, Unmarked text) : Unmarked (fence.around ("; ".intercalate texts)) := by
  have hbody : Unmarked ("; ".intercalate texts) := .intercalate (by decide) h
  cases fence with
  | braces => exact (Unmarked.append (by decide) hbody).append (by decide)
  | words opening closing =>
    have hopening : ∀ word ∈ Token.Kind.blockOpeners, Unmarked word := by decide
    have hclosing : ∀ word ∈ Token.Kind.blockClosers, Unmarked word := by decide
    have hspace : Unmarked " " := by decide
    exact ((((hopening _ opening.2).append hspace).append hbody).append hspace).append
      (hclosing _ closing.2)

namespace Command

variable {α β : Type} {w : Operands α} {v : Operands β}

mutual

theorem unmarked_text (hw : ∀ e, Unmarked (w.text e)) (hv : ∀ e, Unmarked (v.text e)) :
    ∀ s : Command α β, Unmarked (text w v s)
  | assign x op isAssign e => by
    have hops : ∀ op ∈ Token.Kind.assignments, Unmarked op.spelling := by decide
    have hop := hops op (List.contains_iff_mem.1 isAssign)
    have hspace : Unmarked " " := by decide
    exact (((x.unmarked.append hspace).append hop).append hspace).append (hw e)
  | ifThen test fence body => by
    have hbody := fence.unmarked_around (unmarked_texts hw hv body)
    have hif : Unmarked "if " := by decide
    have hspace : Unmarked " " := by decide
    exact ((hif.append (hv test)).append hspace).append hbody
  | ifElse test fence body elseFence otherwise => by
    have hbody := fence.unmarked_around (unmarked_texts hw hv body)
    have hotherwise := elseFence.unmarked_around (unmarked_texts hw hv otherwise)
    have hif : Unmarked "if " := by decide
    have hspace : Unmarked " " := by decide
    have helse : Unmarked " else " := by decide
    exact ((((hif.append (hv test)).append hspace).append hbody).append helse).append hotherwise
  | each key value list fence body => by
    have hbody := fence.unmarked_around (unmarked_texts hw hv body)
    have hvalue : Unmarked (led ", " (value.map (·.text))) := by
      refine .led (by decide) fun text htext => ?_
      obtain ⟨x, -, rfl⟩ := Option.map_eq_some_iff.1 htext
      exact x.unmarked
    have hfor : Unmarked "for " := by decide
    have hin : Unmarked " in " := by decide
    have hspace : Unmarked " " := by decide
    exact (((((hfor.append key.unmarked).append hvalue).append hin).append (hw list)).append
      hspace).append hbody
  | block fence body => fence.unmarked_around (unmarked_texts hw hv body)
  | ret result => by
    refine Unmarked.append (by decide) (.led (by decide) fun text htext => ?_)
    obtain ⟨e, -, rfl⟩ := Option.map_eq_some_iff.1 htext
    exact hw e
  | expr e => hv e

theorem unmarked_texts (hw : ∀ e, Unmarked (w.text e)) (hv : ∀ e, Unmarked (v.text e)) :
    ∀ script : List (Command α β), ∀ text ∈ texts w v script, Unmarked text
  | [] => List.forall_mem_nil _
  | s :: rest => List.forall_mem_cons.2 ⟨unmarked_text hw hv s, unmarked_texts hw hv rest⟩

end

/-- No byte order mark stands in a script. -/
theorem unmarked_source (hw : ∀ e, Unmarked (w.text e)) (hv : ∀ e, Unmarked (v.text e))
    (script : List (Command α β)) : Unmarked (source w v script) := by
  refine .join fun line hline => ?_
  obtain ⟨text, htext, rfl⟩ := List.mem_map.1 hline
  exact (unmarked_texts hw hv script text htext).append (by decide)

end Command

namespace FileSet

open Command

variable {α β : Type} {w : Operands α} {v : Operands β}

/-- A script is parsed without a complaint, as its trees. -/
theorem parse_script (options : ParseOptions) (hmixed : options.scan.mixed = false)
    (hauto : options.scan.noAutoSemicolons = false) (hlexed : w.Lexed options.scan)
    (hlexed' : v.Lexed options.scan) (hw : ∀ glyphs, w.Read (.lines glyphs))
    (hv : ∀ glyphs, v.Begins (.lines glyphs))
    (hunmarked : ∀ e, Unmarked (w.text e)) (hunmarked' : ∀ e, Unmarked (v.text e))
    (set : FileSet) (name : String) (script : List (Command α β)) :
    ∃ parsed later,
      set.parse name (Glyph.ofBytes (utf8 (source w v script))) options = .ok (parsed, later) ∧
      parsed.errors = [] ∧ unplacedStmts parsed.document.stmts = trees w v script := by
  have hunmarked := unmarked_source hunmarked hunmarked' script
  obtain ⟨parsed, later, stmts, hparse, herrors, hstmts, htrees⟩ :=
    set.parse_text (S := fun stmts => unplacedStmts stmts = trees w v script) name options
      fun hin hok => source_reads (hw _) (hv _)
        (source_gives hmixed hauto hlexed hlexed' script (Cursor.start_inScript hmixed _ hunmarked)
          hin) hok
  refine ⟨parsed, later, hparse, herrors, ?_⟩
  rw [hstmts, unplacedStmts_shift, htrees]

/-- However each block of a script over names and integers is fenced, the script is parsed without a
complaint, and so is the canonical text of its trees, and both are parsed as these trees. -/
theorem parse_fences (set : FileSet) (name : String) (script : List (Command Atom Atom)) :
    let stmts := trees Atom.operands Atom.operands script
    ∃ parsed later canonical last,
      set.parse name (Glyph.ofBytes (utf8 (source Atom.operands Atom.operands script))) {} =
        .ok (parsed, later) ∧
      set.parse name (Glyph.ofBytes (utf8 (printFile stmts))) {} = .ok (canonical, last) ∧
      parsed.errors = [] ∧ canonical.errors = [] ∧
      unplacedStmts parsed.document.stmts = stmts ∧
      unplacedStmts canonical.document.stmts = stmts := by
  intro stmts
  have hparse (script : List (Command Atom Atom)) :=
    parse_script {} rfl rfl (Atom.lexed rfl) (Atom.lexed rfl) (fun _ => Atom.begins.toRead)
      (fun _ => Atom.begins) Atom.unmarked Atom.unmarked set name script
  have hprint : printFile stmts = source Atom.operands Atom.operands (allBraced script) :=
    printFile_trees Atom.print_tree Atom.print_tree script
  obtain ⟨parsed, later, hfirst, herrors, hstmts⟩ := hparse script
  obtain ⟨canonical, last, hsecond, herrors', hstmts'⟩ := hparse (allBraced script)
  rw [trees_allBraced] at hstmts'
  rw [← hprint] at hsecond
  exact ⟨parsed, later, canonical, last, hfirst, hsecond, herrors, herrors', hstmts, hstmts'⟩

end FileSet

end TemplateScript
