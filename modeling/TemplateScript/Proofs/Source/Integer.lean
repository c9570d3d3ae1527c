import TemplateScript.Proofs.Number.Integer
import TemplateScript.Proofs.Recovery.Stray

/-!
# The value of an integer in a source

An integer stands for the positional value of its digits if its kind holds that. A greater one is a
single token all the same, so it costs one operand and one diagnostic, and the statement around it
is read.
-/

namespace TemplateScript

open Parse

/-- The greatest value of an integer, with a last letter or without. -/
def Number.greatest (isUnsigned : Bool) : Nat := if isUnsigned then maxUint else maxInt

/-- An integer as the value of a literal. -/
def Value.ofNat (isUnsigned : Bool) (n : Nat) : Value := if isUnsigned then .uint n else .int n

/-- The definition of a name as an integer of any size. -/
structure IntegerDefinition where
  target : Template.Name
  radix : Nat
  digits : List Char
  body : List Char
  isInteger : Number.IsInteger radix digits body
  isUnsigned : Bool

namespace IntegerDefinition

/-- The integer. -/
def literal (d : IntegerDefinition) : String := String.ofList d.body ++ integerSuffix d.isUnsigned

/-- The text of the definition. -/
def text (d : IntegerDefinition) : String := d.target.text ++ " := " ++ d.literal

/-- What the digits come to. -/
def number (d : IntegerDefinition) : Nat := Number.positional d.radix d.digits

/-- The kind of the integer holds the value of its digits. -/
abbrev Fits (d : IntegerDefinition) : Prop := d.number ≤ Number.greatest d.isUnsigned

/-- Where the integer begins. -/
def gap (d : IntegerDefinition) : Nat := d.target.text.utf8ByteSize + 4

/-- What the integer is read as at a position. -/
def operand (d : IntegerDefinition) (pos : Pos) : Expr :=
  if d.Fits then .literal ⟨Value.ofNat d.isUnsigned d.number, d.literal, pos⟩
  else .bad pos (pos + d.literal.utf8ByteSize)

/-- What is found wrong with the definition in a file of its own. -/
def errors (d : IntegerDefinition) (name : String) : List Diagnostic :=
  if d.Fits then []
  else [⟨⟨name, d.gap, 1, d.gap + 1⟩,
    .invalidLiteral (if d.isUnsigned then "uint" else "int") d.literal⟩]

end IntegerDefinition

/-- The first diagnostic is recorded, however few may be. -/
theorem Reader.record_first {r : Reader} (h : r.errors = []) (d : Diagnostic) :
    r.record d = { r with errors := [d] } := by
  rcases r.record_cases d with ⟨-, hfull | ⟨last, hlast, -⟩⟩ | ⟨heq, -⟩
  · obtain ⟨hmax, hle⟩ := r.isFull_iff.1 hfull
    rw [h] at hle
    exact absurd (Nat.le_zero.1 hle) hmax
  · rw [h] at hlast
    cases hlast
  · rw [heq, h]
    rfl

/-! ### Literals -/

/-- A decimal digit, read as one or met as one. -/
theorem Text.isDigit_ten {ch : Char} (h : Text.isDigit 10 ch = true) : ch.isDigit = true := by
  unfold isDigit digit? at h
  rw [Char.isDigit, Bool.and_eq_true, decide_eq_true_eq, decide_eq_true_eq]
  by_cases hdecimal : '0' ≤ ch ∧ ch ≤ '9'
  · exact hdecimal
  · exfalso
    rw [if_neg hdecimal] at h
    obtain ⟨d, hd⟩ := Option.isSome_iff_exists.1 h
    obtain ⟨hletter, hlt⟩ := Option.filter_eq_some_iff.1 hd
    rw [decide_eq_true_eq] at hlt
    split at hletter
    · cases hletter
      omega
    · split at hletter
      · cases hletter
        omega
      · cases hletter

namespace Number

variable {radix : Nat} {digits text : List Char}

/-- An integer is met as one token. -/
theorem IsInteger.isNumeral (h : IsInteger radix digits text) :
    isNumeral (String.ofList text) = true := by
  unfold TemplateScript.isNumeral Glyph.ofText
  rw [String.toList_ofList, Bool.and_eq_true]
  cases h with
  | plain hfirst hall =>
    obtain ⟨ch, hch, hdigit⟩ := (Option.any_eq_true _ _).1 hfirst
    refine ⟨(Option.any_eq_true _ _).2 ⟨ch, hch, Text.isDigit_ten hdigit⟩, ?_⟩
    have hnone : radixMark? (digits.map .char) = none := by
      match digits with
      | [] => rfl
      | [ch] => exact Cursor.radixMark?_singleton ch
      | first :: second :: rest =>
        refine (Cursor.radixMark?_cons ..).trans (ite_eq_right_iff.2 fun _ => ?_)
        rcases hall second (List.mem_cons_of_mem _ List.mem_cons_self) with rfl | hsecond
        · rfl
        · exact radix?_of_isDigit hsecond
    rw [hnone]
    simpa using hall
  | @marked _ mark _ hmark hany hall =>
    refine ⟨rfl, ?_⟩
    have hsome : radixMark? (.char '0' :: .char mark :: digits.map .char) = some radix :=
      (Cursor.radixMark?_cons ..).trans hmark
    rw [List.map_cons, List.map_cons, hsome]
    simpa using ⟨hall, hany⟩

/-- The value of an integer is that of its digits, if its kind holds that. -/
theorem IsInteger.ofToken?_eq (h : IsInteger radix digits text) (isUnsigned : Bool) :
    Value.ofToken? (integerKind isUnsigned) (String.ofList text ++ integerSuffix isUnsigned) =
      if positional radix digits ≤ greatest isUnsigned
        then some (Value.ofNat isUnsigned (positional radix digits)) else none := by
  have hvalue := h.integer?_eq
  cases isUnsigned with
  | false =>
    have hliteral : String.ofList text ++ integerSuffix false = String.ofList text :=
      String.append_empty ..
    change Value.int? _ =
      if positional radix digits ≤ maxInt then some (.int (positional radix digits)) else none
    rw [hliteral, Value.int?, hvalue]
    simp only [Option.filter_some, decide_eq_true_eq]
    split <;> rfl
  | true =>
    have hbody : withoutLast 'u' (String.ofList text ++ "u") = String.ofList text := by
      have hlist : (String.ofList text ++ "u").toList = text ++ ['u'] := by simp
      unfold withoutLast
      rw [hlist, List.getLast?_concat, if_pos rfl, List.dropLast_concat]
    change Value.uint? (String.ofList text ++ "u") =
      if positional radix digits ≤ maxUint then some (.uint (positional radix digits)) else none
    rw [Value.uint?, hbody, hvalue]
    simp only [Option.filter_some, decide_eq_true_eq]
    split <;> rfl

end Number

namespace IntegerDefinition

variable {d : IntegerDefinition}

/-- The integer without its last letter. -/
def numeral (d : IntegerDefinition) : Numeral := ⟨String.ofList d.body, d.isInteger.isNumeral⟩

/-- The value of the integer is that of its digits, if its kind holds that. -/
theorem ofToken?_eq (d : IntegerDefinition) :
    Value.ofToken? (integerKind d.isUnsigned) d.literal =
      if d.Fits then some (Value.ofNat d.isUnsigned d.number) else none :=
  d.isInteger.ofToken?_eq d.isUnsigned

end IntegerDefinition

/-! ### Tokens -/

namespace Cursor

variable {c : Cursor} {options : ScanOptions}

/-- At the end of the file, a statement ends with the semicolon that is pending, or without one. -/
theorem InScript.hands_ending (h : c.InScript options (!options.noAutoSemicolons) [])
    (hmixed : options.mixed = false) :
    ∃ t later, c.Hands t later ∧ (t.kind = .semicolon ∨ t.kind = .eof) ∧
      ∀ r : Reader, r.cursor = later → r.token = t →
        ∃ last, expectSemicolon r = .ok () last ∧ last.token.kind = .eof ∧
          last.errors = r.errors := by
  cases hauto : options.noAutoSemicolons with
  | true =>
    rw [hauto] at h
    refine ⟨_, _, h.hands_end hmixed, .inr rfl, ?_⟩
    intro r _ htoken
    have hkind : r.token.kind = .eof := congrArg Token.kind htoken
    refine ⟨r, ?_, hkind, rfl⟩
    unfold expectSemicolon
    rw [kind_bind, hkind]
    rfl
  | false =>
    rw [hauto] at h
    obtain ⟨ended, endPos, hsemicolon, hended⟩ := h.hands_break hmixed (by rintro _ ⟨⟩)
    refine ⟨_, ended, hsemicolon, .inl rfl, ?_⟩
    rintro r rfl htoken
    have hexpect : expectSemicolon r = next r := by
      unfold expectSemicolon
      rw [kind_bind, htoken]
      rfl
    exact ⟨_, hexpect.trans (Grammar.next_hands (hended.hands_end hmixed)), rfl, rfl⟩

end Cursor

namespace IntegerDefinition

open Cursor

variable {d : IntegerDefinition} {c : Cursor} {options : ScanOptions} {source : List Glyph}

theorem oneLine (d : IntegerDefinition) : OneLine d.text := by
  have hsuffix : OneLine (integerSuffix d.isUnsigned) := by cases d.isUnsigned <;> decide
  exact (d.target.oneLine.append (by decide)).append (d.numeral.oneLine.append hsuffix)

theorem glyphs_text (d : IntegerDefinition) :
    Glyph.ofText d.text =
      Glyph.ofText d.target.text ++ .char ' ' :: (Glyph.ofText Token.Kind.define.spelling ++
        .char ' ' :: Glyph.ofText d.literal) := by
  simp [text, Glyph.ofText]
  rfl

theorem widths_text (d : IntegerDefinition) :
    Glyph.widths (Glyph.ofText d.text) = d.gap + Glyph.widths (Glyph.ofText d.literal) := by
  have hdefine : Glyph.widths (.char ' ' :: (Glyph.ofText Token.Kind.define.spelling ++
      .char ' ' :: Glyph.ofText d.literal)) = 4 + Glyph.widths (Glyph.ofText d.literal) :=
    Glyph.widths_append [.char ' ', .char ':', .char '=', .char ' '] _
  rw [glyphs_text, Glyph.widths_append, hdefine, Glyph.widths_ofText, gap, Nat.add_assoc]

/-- The way of a cursor over the definition, from token to token. -/
structure Walk (d : IntegerDefinition) (c : Cursor) where
  named : Cursor
  pos : Pos
  target : c.Hands (d.target.face.placed pos) named
  defined : Cursor
  opPos : Pos
  define : named.Hands ((Chain.opFace .define).placed opPos) defined
  valued : Cursor
  value : defined.Hands
    ((⟨integerKind d.isUnsigned, d.literal⟩ : Token.Face).placed d.gap) valued

theorem exists_walk (hmixed : options.mixed = false)
    (h : c.InScript options false (Glyph.ofText d.text)) (hin : c.InSource (Glyph.ofText d.text)) :
    ∃ walk : d.Walk c, walk.valued.InScript options (!options.noAutoSemicolons) [] ∧
      walk.valued.Sound (Glyph.ofText d.text) ∧ d.gap ≤ walk.valued.offset := by
  have hsound := h.sound hin
  rw [glyphs_text] at h
  obtain ⟨named, defined, opPos, htarget, hdefine, hdefined⟩ := h.hands_target d.target hmixed
  have hdefinedSound := hdefine.sound (htarget.sound hsound)
  have hliteral : defined.InScript options false (List.replicate 1 (.char ' ') ++
      (Glyph.ofText (d.numeral.literal d.isUnsigned) ++ [])) := by
    rw [List.append_nil]
    exact hdefined
  have hnone : EndsNumber [] := by rintro _ ⟨⟩
  obtain ⟨valued, hvalue, hvalued⟩ :=
    hliteral.hands_integer d.numeral d.isUnsigned hmixed hnone
  have hpos : (defined.advanceBy 1).offset = d.gap := by
    have hplace := (hdefinedSound.inSource.reaches (defined.reaches_advanceBy 1)).offset_add
    rw [advanceBy_rest, hdefined.rest_eq, List.drop_one, List.tail_cons, widths_text] at hplace
    exact Nat.add_right_cancel hplace
  rw [hpos] at hvalue
  exact ⟨⟨named, _, htarget, defined, opPos, hdefine, valued, hvalue⟩, hvalued,
    hvalue.sound hdefinedSound, hvalue.pos_le hdefinedSound⟩

theorem Walk.reaches_valued (walk : d.Walk c) : c.Reaches walk.valued :=
  walk.target.reaches.trans (walk.define.reaches.trans walk.value.reaches)

/-- Where the integer begins, a diagnostic is for the first line. -/
theorem place_gap (d : IntegerDefinition) {name : String} (hin : c.InSource (Glyph.ofText d.text))
    (hpos : d.gap ≤ c.offset) (hname : c.file.name = name) :
    c.file.place d.gap = ⟨name, d.gap, 1, d.gap + 1⟩ := by
  have hfirst : .char '\n' ∉ Glyph.ofText d.text := by
    intro hmem
    obtain ⟨ch, hch, heq⟩ := List.mem_map.1 hmem
    cases heq
    exact (d.oneLine _ hch).1 rfl
  have hinside : d.gap ≤ Glyph.widths (Glyph.ofText d.text) :=
    d.widths_text ▸ Nat.le_add_right ..
  have hplace : Glyph.place name (Glyph.ofText d.text ++ []) d.gap = _ :=
    BrokenLine.place_first hfirst hinside
  rw [List.append_nil] at hplace
  rw [hin.place_eq hpos, hname, hplace]

/-! ### Statements -/

section Run

open Grammar

variable {deep : Nested} {r later : Reader} {name : String}

/-- The integer is an operand, with a value or without. -/
theorem operand_run (htoken : r.token =
      (⟨integerKind d.isUnsigned, d.literal⟩ : Token.Face).placed d.gap)
    (hnext : next r = .ok () later) (hin : later.cursor.InSource (Glyph.ofText d.text))
    (hpos : d.gap ≤ later.cursor.offset) (hname : later.cursor.file.name = name)
    (hnone : later.errors = []) :
    Grammar.operand deep r = .ok (d.operand d.gap) { later with errors := d.errors name } := by
  have hkind : r.token.kind = integerKind d.isUnsigned := congrArg Token.kind htoken
  have htext : r.token.literal = d.literal := congrArg Token.literal htoken
  have hstart : r.token.pos = d.gap := congrArg Token.pos htoken
  have hliteral : Grammar.operand deep r = Grammar.literal r := by
    unfold Grammar.operand
    rw [token_bind, hkind]
    cases d.isUnsigned <;> rfl
  rw [hliteral]
  unfold Grammar.literal
  rw [token_bind, bind_run_ok hnext, hkind, htext, hstart, d.ofToken?_eq]
  unfold IntegerDefinition.operand errors
  by_cases hfits : d.Fits
  · rw [if_pos hfits, if_pos hfits, if_pos hfits, ← hnone]
    rfl
  · rw [if_neg hfits, if_neg hfits, if_neg hfits]
    have herror : errorAt d.gap
          (.invalidLiteral ((integerKind d.isUnsigned).spelling.map Char.toLower) d.literal) later =
        .ok () { later with errors := [⟨⟨name, d.gap, 1, d.gap + 1⟩,
          .invalidLiteral (if d.isUnsigned then "uint" else "int") d.literal⟩] } := by
      have hinside : d.gap ≤ later.cursor.file.size :=
        hin.size_eq ▸ Nat.le_trans hpos hin.offset_le
      have hplace := d.place_gap hin hpos hname
      refine (bind_run_ok (place_run hinside) _).trans ?_
      have hword : (integerKind d.isUnsigned).spelling.map Char.toLower =
          if d.isUnsigned then "uint" else "int" := by
        cases d.isUnsigned <;> decide +kernel
      rw [hplace, hword]
      exact congrArg (EStateM.Result.ok ()) (Reader.record_first hnone _)
    exact bind_run_ok herror _

/-- A definition is read as a statement, and the integer decides what is found wrong. -/
theorem source_run {options : ParseOptions} (hmixed : options.scan.mixed = false) (set : FileSet)
    (name : String) (d : IntegerDefinition) :
    ∃ pos opPos whole, Parse.source (set.reader name (Glyph.ofText d.text) options) =
        .ok [.assign [.ident ⟨d.target.text, pos⟩] .define opPos [d.operand d.gap]] whole ∧
      whole.errors = d.errors name := by
  have hsize : (set.newFile name (Glyph.ofText d.text)).size = Glyph.widths (Glyph.ofText d.text) :=
    rfl
  obtain ⟨hscript, hin⟩ := Cursor.inScript_start hsize rfl hmixed d.oneLine.isFit
  obtain ⟨walk, hvalued, hsound, hgap⟩ := exists_walk hmixed hscript hin
  obtain ⟨t, ended, hhands, hkind, hends⟩ := hvalued.hands_ending hmixed
  let start := set.reader name (Glyph.ofText d.text) options
  let first := start.turn walk.named (d.target.face.placed walk.pos)
  let defining := start.turn walk.defined ((Chain.opFace .define).placed walk.opPos)
  let valuing := start.turn walk.valued
    ((⟨integerKind d.isUnsigned, d.literal⟩ : Token.Face).placed d.gap)
  let ending := start.turn ended t
  let deep := Nested.ofDepth (walk.named.bound + 2)
  have hfirst : next start = .ok () first := next_hands walk.target
  have hending : next valuing = .ok () ending := next_hands hhands
  have hendedSound := hhands.sound hsound
  have hpos : d.gap ≤ ended.offset := Nat.le_trans hgap hhands.reaches.offset_le
  have hname : ended.file.name = name :=
    (walk.reaches_valued.trans hhands.reaches).name_eq.trans (Cursor.reaches_start ..).name_eq
  have hoperand : Grammar.operand deep valuing =
      .ok (d.operand d.gap) { ending with errors := d.errors name } :=
    operand_run rfl hending hendedSound.inSource hpos hname rfl
  have hvalue : exprs deep valuing =
      .ok [d.operand d.gap] { ending with errors := d.errors name } := by
    refine exprs_run hoperand ?_ ?_
    · change unaryOp? (integerKind d.isUnsigned) = none
      cases d.isUnsigned <;> rfl
    · change t.kind ∈ exprEnds
      rcases hkind with hkind | hkind <;> rw [hkind] <;> decide
  have hdefining : next first = .ok () defining := next_hands walk.define
  have hsimple := simpleStmt_define (r := first) rfl hdefining rfl (next_hands walk.value) hvalue
  obtain ⟨last, hsemicolon, hlast, herrors⟩ :=
    hends { ending with errors := d.errors name } rfl rfl
  let s : Stmt := .assign [.ident ⟨d.target.text, walk.pos⟩] .define walk.opPos [d.operand d.gap]
  have hstmt : stmt deep first = .ok s last := by
    rw [stmt_of_ident rfl, bind_run_ok hsimple, bind_run_ok hsemicolon]
    rfl
  have hat : AtStmt first := by
    refine ⟨Bool.eq_false_iff.2 fun hfull => ?_, nofun, nofun⟩
    obtain ⟨hmax, hle⟩ := first.isFull_iff.1 hfull
    exact hmax (Nat.le_zero.1 hle)
  refine ⟨walk.pos, walk.opPos, last, ?_, herrors⟩
  unfold Parse.source
  rw [bind_run_ok hfirst, get_bind, file_run]
  exact (fileFrom_stmt hat hstmt rfl ..).trans (fileFrom_eof hlast ..)

end Run

theorem operand_shift (d : IntegerDefinition) (pos : Pos) (n : Nat) :
    (d.operand pos).shift n = d.operand (pos + n) := by
  unfold operand
  split
  · rfl
  · exact congrArg (Expr.bad (pos + n)) (Nat.add_right_comm ..)

end IntegerDefinition

namespace FileSet

/-- An integer has the positional value of its digits, of which there may be any number in base two,
eight, ten or sixteen. Where its kind does not hold that value, the integer has none, and this is
what is wrong with the file. -/
theorem parse_integer {set : FileSet} {name : String} {options : ParseOptions}
    (hmixed : options.scan.mixed = false) (d : IntegerDefinition) :
    ∃ parsed later pos opPos,
      set.parse name (Glyph.ofBytes (utf8 d.text)) options = .ok (parsed, later) ∧
      parsed.document.stmts = [.assign [.ident ⟨d.target.text, pos⟩] .define opPos
        [d.operand (d.gap + set.base)]] ∧
      parsed.errors = d.errors name := by
  obtain ⟨pos, opPos, whole, hrun, herrors⟩ := d.source_run hmixed set name
  rw [show Glyph.ofBytes (utf8 d.text) = Glyph.ofText d.text from Glyph.ofBytes_toUTF8 _]
  obtain ⟨later, hparse⟩ := parse_eq_ok_iff_source.2 ⟨_, whole, hrun, rfl⟩
  refine ⟨_, later, pos + set.base, opPos + set.base, hparse, ?_, ?_⟩
  · rw [← d.operand_shift]
    rfl
  · change Diagnostic.sort whole.errors = _
    rw [herrors]
    unfold IntegerDefinition.errors
    split
    · rw [Diagnostic.sort, List.mergeSort_nil]
    · rw [Diagnostic.sort, List.mergeSort_singleton]

/-- The greatest integer without a sign in base sixteen, and one more. -/
theorem parse_integer_greatest :
    let v : Template.Name := ⟨"v", by decide +kernel, by decide +kernel⟩
    let greatest : IntegerDefinition :=
      ⟨v, 16, '_' :: .replicate 16 'f', '0' :: 'X' :: '_' :: .replicate 16 'f',
        .marked rfl ⟨'f', .tail _ List.mem_cons_self, rfl⟩
          (List.forall_mem_cons.2 ⟨.inl rfl, fun _ h => .inr (List.eq_of_mem_replicate h ▸ rfl)⟩), true⟩
    let more : IntegerDefinition :=
      ⟨v, 16, '1' :: '_' :: .replicate 16 '0', '0' :: 'x' :: '1' :: '_' :: .replicate 16 '0',
        .marked rfl ⟨'1', List.mem_cons_self, rfl⟩
          (List.forall_mem_cons.2 ⟨.inr rfl, List.forall_mem_cons.2
            ⟨.inl rfl, fun _ h => .inr (List.eq_of_mem_replicate h ▸ rfl)⟩⟩), true⟩
    greatest.text = "v := 0X_ffffffffffffffffu" ∧ more.text = "v := 0x1_0000000000000000u" ∧
      (∃ parsed later pos opPos,
        FileSet.parse {} "main" (Glyph.ofBytes (utf8 greatest.text)) {} = .ok (parsed, later) ∧
        parsed.document.stmts = [.assign [.ident ⟨"v", pos⟩] .define opPos
          [.literal ⟨.uint 18446744073709551615, "0X_ffffffffffffffffu", 6⟩]] ∧
        parsed.errors = []) ∧
      ∃ parsed later pos opPos,
        FileSet.parse {} "main" (Glyph.ofBytes (utf8 more.text)) {} = .ok (parsed, later) ∧
        parsed.document.stmts = [.assign [.ident ⟨"v", pos⟩] .define opPos [.bad 6 27]] ∧
        parsed.errors = [⟨⟨"main", 5, 1, 6⟩,
          .invalidLiteral "uint" "0x1_0000000000000000u"⟩] := by
  intro v greatest more
  have hgreatest : greatest.Fits ∧ greatest.number = 18446744073709551615 := by decide +kernel
  have hmore : ¬ more.Fits := by decide +kernel
  refine ⟨by decide +kernel, by decide +kernel, ?_, ?_⟩
  · obtain ⟨parsed, later, pos, opPos, hparse, hstmts, herrors⟩ :=
      @parse_integer {} "main" {} rfl greatest
    have hliteral : greatest.operand (greatest.gap + base {}) =
        .literal ⟨.uint 18446744073709551615, "0X_ffffffffffffffffu", 6⟩ := by
      rw [IntegerDefinition.operand, if_pos hgreatest.1, hgreatest.2]
      rfl
    rw [hliteral] at hstmts
    rw [IntegerDefinition.errors, if_pos hgreatest.1] at herrors
    exact ⟨parsed, later, pos, opPos, hparse, hstmts, herrors⟩
  · obtain ⟨parsed, later, pos, opPos, hparse, hstmts, herrors⟩ :=
      @parse_integer {} "main" {} rfl more
    have hbad : more.operand (more.gap + base {}) = .bad 6 27 := by
      rw [IntegerDefinition.operand, if_neg hmore]
      rfl
    rw [hbad] at hstmts
    rw [IntegerDefinition.errors, if_neg hmore] at herrors
    exact ⟨parsed, later, pos, opPos, hparse, hstmts, herrors⟩

end FileSet

end TemplateScript
