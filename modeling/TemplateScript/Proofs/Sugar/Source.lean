import TemplateScript.Proofs.Finish.Source
import TemplateScript.Proofs.Source.Parsed
import TemplateScript.Proofs.Sugar.Document
import TemplateScript.Proofs.Tree.Unplaced

/-!
# Sources with sugar and without it

Whether lone expressions between delimiters emit their values decides which tree a source has, but
neither what is found wrong with it nor what the canonical text of the tree is.
-/

namespace TemplateScript

open Parse

/-- The options with another one for values. -/
def ParseOptions.withSugar (o : ParseOptions) (on : Bool) : ParseOptions :=
  { o with scan := { o.scan with valueSugar := on } }

theorem Cursor.start_withSugar {file : SourceFile} (h : file.Lined) (options : ParseOptions)
    (on : Bool) (glyphs : List Glyph) :
    start file (options.withSugar on).scan glyphs =
      (start file options.scan glyphs).setValueSugar on := by
  have hfresh := sugarSetting_cursor on { file, options := options.scan, rest := glyphs }
  have hfile : (sugarSetting on).file file = file := congrArg Cursor.file hfresh
  have hoptions : (sugarSetting on).options options.scan = (options.withSugar on).scan :=
    congrArg Cursor.options hfresh
  have hstart := Setting.start_cursor (s := sugarSetting on) rfl rfl h options.scan glyphs
    (absurd rfl)
  rw [hfile, hoptions, sugarSetting_cursor] at hstart
  exact hstart

namespace FileSet

variable (set : FileSet) (name : String)

/-- The readers of a source with sugar and without it differ in that option only. -/
theorem reader_withSugar (glyphs : List Glyph) (options : ParseOptions) (on : Bool) :
    set.reader name glyphs (options.withSugar on) =
      (set.reader name glyphs options).sugared on := by
  have hlined : (set.newFile name glyphs).Lined := rfl
  unfold reader SourceFile.reader
  rw [Cursor.start_withSugar hlined]
  rfl

theorem lined_reader (glyphs : List Glyph) (options : ParseOptions) :
    (set.reader name glyphs options).cursor.Lined := by
  have hlined : (set.newFile name glyphs).Lined := rfl
  exact Cursor.lined_start hlined options.scan glyphs

/-- The set with a source added to it that has not been read. -/
def added (set : FileSet) (name : String) (glyphs : List Glyph) : FileSet :=
  ⟨set.base + Glyph.widths glyphs + 1, set.files ++ [set.newFile name glyphs],
    some set.files.length⟩

/-- What is returned for a source that was read to an end. -/
def outcome (set : FileSet) (name : String) (glyphs : List Glyph) :
    EStateM.Result Halt Reader (List Stmt) → Except Fault (Parsed × FileSet)
  | .ok stmts r =>
    .ok (⟨Document.shift set.base ⟨stmts, r.comments⟩, Diagnostic.sort r.errors, r.cursor.file⟩,
      (set.added name glyphs).replace ((set.added name glyphs).files.length - 1) r.cursor.file)
  | .error (.fault fault) _ => .error fault
  | .error .bail _ => .error .unfinished

theorem parse_eq_outcome (glyphs : List Glyph) (options : ParseOptions) :
    set.parse name glyphs options =
      set.outcome name glyphs (Parse.source (set.reader name glyphs options)) := by
  have hstart : Cursor.start? (set.newFile name glyphs) options.scan glyphs =
      .ok (Cursor.start (set.newFile name glyphs) options.scan glyphs) := if_pos rfl
  have hparse : set.parse name glyphs options =
      (set.newFile name glyphs).parse glyphs options >>= fun parsed =>
        .ok (parsed, (set.added name glyphs).replace ((set.added name glyphs).files.length - 1)
          parsed.file) := by
    unfold parse add
    rw [Option.getD_none, if_neg (Nat.lt_irrefl _)]
    rfl
  rw [hparse]
  unfold SourceFile.parse SourceFile.parseLocal
  rw [hstart]
  change Except.bind (Except.map _ (match Parse.source (set.reader name glyphs options) with
    | .ok stmts r => Except.ok _
    | .error (.fault fault) _ => Except.error fault
    | .error .bail _ => Except.error .unfinished)) _ = _
  cases Parse.source (set.reader name glyphs options) with
  | ok stmts r => rfl
  | error e r => cases e <;> rfl

/-- Whatever the source and the other options are, the same things are found wrong with sugar and
without it, and the trees have the same canonical text: with all values unfolded they are the same
tree. Only a source that is no text can fail to have a tree, if its comments are tokens, and then it
fails alike. -/
theorem parse_withSugar (bytes : List UInt8) (options : ParseOptions) :
    (∃ sweet plain comments errors file later,
      set.parse name (Glyph.ofBytes bytes) (options.withSugar true) =
        .ok (⟨Document.shift set.base ⟨sweet, comments⟩, errors, file⟩, later) ∧
      set.parse name (Glyph.ofBytes bytes) (options.withSugar false) =
        .ok (⟨Document.shift set.base ⟨plain, comments⟩, errors, file⟩, later) ∧
      unfoldStmts sweet = unfoldStmts plain ∧
      (Document.shift set.base ⟨sweet, comments⟩).print =
        (Document.shift set.base ⟨plain, comments⟩).print) ∨
    ((¬ ∃ text, bytes = utf8 text) ∧ options.scan.comments = true ∧ ∃ fault,
      set.parse name (Glyph.ofBytes bytes) (options.withSugar true) = .error fault ∧
      set.parse name (Glyph.ofBytes bytes) (options.withSugar false) = .error fault) := by
  have hlined := set.lined_reader name (Glyph.ofBytes bytes) (options.withSugar false)
  have hsweet : set.reader name (Glyph.ofBytes bytes) (options.withSugar true) =
      (set.reader name (Glyph.ofBytes bytes) (options.withSugar false)).sugared true :=
    set.reader_withSugar name _ (options.withSugar false) true
  have htwin := Parse.source_twins _ true hlined
  have hfinishes (hfine : (∃ text, bytes = utf8 text) ∨
      (options.withSugar false).scan.comments = false) :
      ∃ stmts r, Parse.source (set.reader name (Glyph.ofBytes bytes) (options.withSugar false)) =
        .ok stmts r := by
    have hsound : (Cursor.start (set.newFile name (Glyph.ofBytes bytes))
        (options.withSugar false).scan (Glyph.ofBytes bytes)).Sound (Glyph.ofBytes bytes) :=
      Cursor.sound_bytes hfine (Glyph.widths_ofBytes bytes) rfl
    obtain ⟨stmts, r, -, hrun, -⟩ :=
      Parse.source_finishes (SourceFile.ready_reader hsound options.maxErrors)
    exact ⟨stmts, r, hrun⟩
  rw [parse_eq_outcome, parse_eq_outcome, hsweet]
  generalize Parse.source (Reader.sugared _ true) = result₁ at htwin
  generalize Parse.source (set.reader name (Glyph.ofBytes bytes) (options.withSugar false)) =
    result₂ at htwin hfinishes
  cases htwin with
  | @ok sweet plain r on hview =>
    refine .inl ⟨sweet, plain, _, _, _, _, rfl, rfl, hview, ?_⟩
    have hprint (stmts : List Stmt) (comments : List CommentGroup) :
        (Document.shift set.base ⟨stmts, comments⟩).print = printFile (unfoldStmts stmts) :=
      (printFile_shift set.base stmts).trans (printFile_unfolded stmts).symm
    rw [hprint, hprint, hview]
  | @error e r on =>
    have hnot : ¬ ((∃ text, bytes = utf8 text) ∨ options.scan.comments = false) := by
      intro hfine
      obtain ⟨_, _, hrun⟩ := hfinishes hfine
      cases hrun
    rw [not_or, Bool.not_eq_false] at hnot
    refine .inr ⟨hnot.1, hnot.2, ?_⟩
    cases e with
    | bail => exact ⟨_, rfl, rfl⟩
    | fault f => exact ⟨_, rfl, rfl⟩

/-- The trees do differ: three statements of one are a value in the other. -/
example :
    let count (on : Bool) : Option Nat :=
      (FileSet.parse {} "main" (Glyph.ofBytes (utf8 "a#\x7bx\x7d"))
        (ParseOptions.withSugar { scan := { mixed := true } } on)).toOption.map
          fun read => read.1.document.stmts.length
    count true = some 2 ∧ count false = some 4 := by
  decide +kernel

end FileSet

end TemplateScript
