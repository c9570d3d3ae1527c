import TemplateScript.Proofs.Listing.Reads
import TemplateScript.Proofs.Spelling.Literal

/-!
# Spellings of rows

Elements of arrays, entries of dicts, and keys with values stand between brackets with commas
between them. All are read in rounds of one sort, so a row is read as what its items are read as.
-/

namespace TemplateScript

open Cursor Parse Grammar
open Template (Unmarked)

variable {ι α δ : Type} {K : Token.Outlook} {depth m : Nat} {f g : Token.Face}
  {rest : List Token.Face}

/-! ### Brackets -/

/-- The brackets around what is built of others. -/
inductive Bracket where
  | round
  | square
  | curly

namespace Bracket

def opening : Bracket → Token.Kind
  | round => .lparen
  | square => .lbrack
  | curly => .lbrace

def closing : Bracket → Token.Kind
  | round => .rparen
  | square => .rbrack
  | curly => .rbrace

/-- A text between the brackets. -/
def around (b : Bracket) (text : String) : String :=
  b.opening.spelling ++ text ++ b.closing.spelling

/-- Tokens between those of the brackets. -/
def allFaces (b : Bracket) (faces : List Token.Face) : List Token.Face :=
  Chain.opFace b.opening :: (faces ++ [Chain.opFace b.closing])

variable (b : Bracket)

theorem opens (text : String) (faces : List Token.Face) :
    Opens (b.around text) (b.allFaces faces) := by
  rw [around, String.append_assoc]
  cases b <;> exact ⟨_, _, _, _, String.toList_append, rfl, by decide, by decide, by decide⟩

theorem endsStatement (faces : List Token.Face) : EndsStatement (b.allFaces faces) := by
  have hclosing : EndsStatement [Chain.opFace b.closing] := .singleton (by cases b <;> rfl)
  exact hclosing.append (Chain.opFace b.opening :: faces)

theorem written {text : String} {faces : List Token.Face} (h : Written text faces) :
    Written (b.around text) (b.allFaces faces) := by
  have hopening : b.opening ∈ solidMarks := by cases b <;> decide
  have hclosing : b.closing ∈ [Token.Kind.rparen, .rbrack, .rbrace] := by cases b <;> decide
  have hline : OneLine b.opening.spelling ∧ OneLine b.closing.spelling := by
    cases b <;> exact ⟨by decide, by decide⟩
  exact ⟨fun _ _ _ => .bracketed rfl hopening hclosing h.lexes,
    (hline.1.append h.oneLine).append hline.2⟩

end Bracket

/-- What is built between brackets is spelled if it is read from the opening one on. -/
def Spelling.bracketed (b : Bracket) {text : String} {faces : List Token.Face}
    (built read : Expr) (hprint : built.print = b.around text) (hread : read.print = b.around text)
    (hclosed : read.isOperation = false) (hwritten : Written text faces)
    (hreads : ∀ source depth m g rest, g.kind ≠ .lambda →
      (operand (.ofDepth depth)).ReadsIn (.lines source) m
        (Chain.opFace b.opening :: (faces ++ Chain.opFace b.closing :: g :: rest)) (g :: rest)
        fun e => e.unplaced = read)
    (hbare : read.bare = built.bare) : Spelling where
  built := built
  faces := b.allFaces faces
  read := read
  written := hprint ▸ b.written hwritten
  opens := hprint ▸ b.opens text faces
  endsStatement := b.endsStatement faces
  readsOn source := .of_operand fun depth m g rest hg => by
    have hread := hreads source depth m g rest hg
    simpa only [Bracket.allFaces, List.cons_append, List.append_assoc, List.nil_append] using hread
  bare_read := hbare
  print_read := hread.trans hprint.symm
  isOperation_read := hclosed

/-! ### Rows -/

/-- Items with commas between them are read as their tokens with commas between them. -/
theorem Written.row {textOf : ι → String} {facesOf : ι → List Token.Face}
    (h : ∀ item, Written (textOf item) (facesOf item)) (items : List ι) :
    Written (", ".intercalate (items.map textOf))
      (separated (Chain.opFace .comma) (items.map facesOf)) := by
  have hends (rest : List Glyph) : EndsNumber (Glyph.ofText ", " ++ rest) := by
    rintro g ⟨⟩
    decide
  have hitems : ∀ item ∈ items.map fun item => (textOf item, facesOf item),
      Lexes.BeforeEnd {} item.1 item.2 := by
    intro item hitem
    obtain ⟨item, -, rfl⟩ := List.mem_map.1 hitem
    exact (h item).lexes
  have htexts : ∀ text ∈ items.map textOf, OneLine text := by
    intro text htext
    obtain ⟨item, -, rfl⟩ := List.mem_map.1 htext
    exact (h item).oneLine
  refine ⟨fun pending rest hend => ?_, .intercalate (by decide) htexts⟩
  have hall : Lexes {} pending _ rest _ :=
    Lexes.intercalate (fun _ _ => .comma rfl) hends hitems hend
  rwa [List.map_map, List.map_map] at hall

namespace Grammar

/-- One entry more, or the end of a row of entries. -/
def entriesRound (closing : Token.Kind) (entry : Parse α) (list : List α) :
    Parse (Round (List α) (List α)) := do
  if (← kind) = closing then return .done list
  else
    let e ← entry
    if ← Grammar.separator then return .again (list ++ [e]) else return .done (list ++ [e])

theorem entries_eq (closing : Token.Kind) (entry : Parse α) :
    entries closing entry = skipLineBreaks >>= fun _ => loop [] (entriesRound closing entry) := rfl

theorem separator_reads (hf : f.kind ≠ .semicolon) :
    Grammar.separator.ReadsIn K m (Chain.opFace .comma :: f :: rest) (f :: rest) (· = true) := by
  refine (reads_skipLineBreaks rfl).bind fun _ _ => (reads_accept rfl).bind fun found hfound => ?_
  subst hfound
  exact (reads_skipLineBreaks (Token.Face.inserted_of_ne hf)).bind fun _ _ => reads_pure rfl

theorem separator_reads_none (hf : f.kind ≠ .semicolon) (hcomma : f.kind ≠ .comma) :
    Grammar.separator.ReadsIn K m (f :: rest) (f :: rest) (· = false) := by
  refine (reads_skipLineBreaks (Token.Face.inserted_of_ne hf)).bind fun _ _ => ?_
  refine (reads_accept_none hcomma).bind fun found hfound => ?_
  subst hfound
  exact reads_pure rfl

/-- An item is read as an entry of a row, and ends before what goes on with the row or closes it. -/
structure ReadsItem (b : Bracket) (entry : Parse α) (K : Token.Outlook) (m : Nat)
    (faces : List Token.Face) (P : α → Prop) : Prop where
  exists_head : ∃ f more, faces = f :: more ∧ f.kind ≠ b.closing ∧ f.kind ≠ .semicolon
  reads : ∀ g rest, g.kind = .comma ∨ g.kind = b.closing →
    entry.ReadsIn K m (faces ++ g :: rest) (g :: rest) P

section Row

variable {b : Bracket} {entry : Parse α} {facesOf : ι → List Token.Face} {view : α → δ}
  {target : ι → δ}

/-- No semicolon stands where a row begins. -/
theorem exists_head_row {P : ι → α → Prop}
    (h : ∀ item, ReadsItem b entry K m (facesOf item) (P item)) (items : List ι)
    (rest : List Token.Face) :
    ∃ f more, separated (Chain.opFace .comma) (items.map facesOf) ++
      Chain.opFace b.closing :: rest = f :: more ∧ f.kind ≠ .semicolon := by
  have hclosing : b.closing ≠ .semicolon := by cases b <;> nofun
  cases items with
  | nil => exact ⟨_, _, rfl, hclosing⟩
  | cons item items =>
    obtain ⟨f, more, hfaces, -, hf⟩ := (h item).exists_head
    cases items with
    | nil => exact ⟨f, _, by rw [List.map_singleton, separated, hfaces]; rfl, hf⟩
    | cons => exact ⟨f, _, by rw [List.map_cons, List.map_cons, separated, hfaces]; rfl, hf⟩

/-- Items are read up to the bracket that closes their row. -/
theorem entries_loops
    (h : ∀ item, ReadsItem b entry K m (facesOf item) fun a => view a = target item)
    (items : List ι) (list : List α) :
    LoopsIn (entriesRound b.closing entry) K m
      (separated (Chain.opFace .comma) (items.map facesOf) ++ Chain.opFace b.closing :: rest)
      (Chain.opFace b.closing :: rest) list
      fun found => found.map view = list.map view ++ items.map target := by
  induction items generalizing list with
  | nil =>
    refine .done (reads_kind ?_)
    rw [if_pos (show (Chain.opFace b.closing).kind = b.closing from rfl)]
    exact reads_pure (List.append_nil _).symm
  | cons item items ih =>
    obtain ⟨f, more, hfaces, hf, -⟩ := (h item).exists_head
    cases items with
    | nil =>
      have hclosing : b.closing ≠ .semicolon ∧ b.closing ≠ .comma := by
        cases b <;> exact ⟨nofun, nofun⟩
      have hread := (h item).reads (Chain.opFace b.closing) rest (.inr rfl)
      rw [List.map_singleton, separated]
      rw [hfaces] at hread ⊢
      refine .done (reads_kind ?_)
      rw [if_neg hf]
      refine hread.bind fun a ha => ?_
      refine (separator_reads_none hclosing.1 hclosing.2).bind fun found hfound => ?_
      subst hfound
      have hall : (list ++ [a]).map view = list.map view ++ [target item] := by
        rw [List.map_append, List.map_singleton, ha]
      exact reads_pure hall
    | cons second items =>
      obtain ⟨next, behind, hbehind, hnext⟩ := exists_head_row h (second :: items) rest
      have hread := (h item).reads (Chain.opFace .comma) (next :: behind) (.inl rfl)
      rw [List.map_cons, List.map_cons, separated, ← List.map_cons, List.append_assoc,
        List.cons_append, hbehind]
      rw [hbehind] at ih
      have hround : (entriesRound b.closing entry list).ReadsIn K m
          (facesOf item ++ Chain.opFace .comma :: next :: behind) (next :: behind)
          (Round.Again fun longer => ∃ a, view a = target item ∧ longer = list ++ [a]) := by
        rw [hfaces] at hread ⊢
        refine reads_kind ?_
        rw [if_neg hf]
        refine hread.bind fun a ha => (separator_reads hnext).bind fun found hfound => ?_
        subst hfound
        exact reads_pure ⟨a, ha, rfl⟩
      refine .step hround ?_
      rintro _ ⟨a, ha, rfl⟩ limit
      refine (ih (list ++ [a]) limit).mono fun found hfound => ?_
      rw [hfound, List.map_append, List.map_singleton, ha, List.append_assoc, List.map_cons]
      rfl

/-- A row is read up to the bracket that closes it, as what its items are read as. -/
theorem entries_reads
    (h : ∀ item, ReadsItem b entry K m (facesOf item) fun a => view a = target item)
    (items : List ι) :
    (entries b.closing entry).ReadsIn K m
      (separated (Chain.opFace .comma) (items.map facesOf) ++ Chain.opFace b.closing :: rest)
      (Chain.opFace b.closing :: rest) fun found => found.map view = items.map target := by
  have hloops : LoopsIn _ _ _ _ (Chain.opFace b.closing :: rest) _ _ := entries_loops h items []
  obtain ⟨f, more, hmore, hf⟩ := exists_head_row h items rest
  rw [entries_eq]
  rw [hmore] at hloops ⊢
  exact (reads_skipLineBreaks (Token.Face.inserted_of_ne hf)).bind fun _ _ => hloops.reads

end Row

end Grammar

/-! ### Arrays -/

theorem printExprs_eq_map (list : List Expr) : printExprs list = list.map Expr.print := by
  induction list with
  | nil => rfl
  | cons e list ih => rw [printExprs, ih, List.map_cons]

namespace Spelling

variable {source : List Glyph}

theorem endsExpr_of_row {b : Bracket} {kind : Token.Kind} (h : kind = .comma ∨ kind = b.closing) :
    kind.endsExpr = true := by
  rcases h with rfl | rfl
  · rfl
  · cases b <;> rfl

/-- A spelling is an item of any row. -/
theorem readsItem (s : Spelling) (b : Bracket) :
    ReadsItem b (Nested.ofDepth depth).expr (.lines source) m s.faces
      fun e => e.unplaced = s.read where
  exists_head := by
    have hforeign : b.closing ∈ Token.Kind.foreign := by cases b <;> decide
    obtain ⟨f, more, hfaces, hf⟩ := s.exists_native
    exact ⟨f, more, hfaces, fun heq => hf (heq ▸ hforeign), fun heq => hf (heq ▸ by decide)⟩
  reads g rest hg := Spelling.reads.nested depth m s g rest (endsExpr_of_row hg)

theorem array_reads (items : List Spelling) :
    (Grammar.array (.ofDepth depth)).ReadsIn (.lines source) m
      (Chain.opFace .lbrack :: (separated (Chain.opFace .comma) (items.map faces) ++
        Chain.opFace .rbrack :: g :: rest)) (g :: rest)
      fun e => e.unplaced = .array 0 (items.map read) 0 := by
  refine (reads_expect_append rfl).bind fun lbrack _ => ?_
  refine (entries_reads (fun s => s.readsItem .square) items).bind fun elements helements => ?_
  refine (reads_expect rfl).bind fun rbrack _ => reads_pure ?_
  rw [Expr.unplaced, unplacedExprs_eq_map, helements]

/-- Trees with the texts of spellings are printed as these. -/
theorem print_array {view : Spelling → Expr} (h : ∀ s, (view s).print = s.text)
    (items : List Spelling) : (Build.array (items.map view)).print =
      Bracket.square.around (", ".intercalate (items.map text)) := by
  simp only [Build.array, Expr.print, printExprs_eq_map, List.map_map, Function.comp_def, h]
  rfl

/-- An array of what is spelled is spelled. -/
def array (items : List Spelling) : Spelling :=
  .bracketed .square (Build.array (items.map built)) (.array 0 (items.map read) 0)
    (print_array (fun _ => rfl) items) (print_array print_read items) rfl
    (.row written items)
    (fun _ _ _ _ _ _ => by
      apply reads_token
      intro pos
      exact array_reads items)
    (by
      have hbare : Expr.bare ∘ read = Expr.bare ∘ built := funext bare_read
      rw [Build.array, Expr.bare, Expr.bare, bareExprs_eq_map, bareExprs_eq_map, List.map_map,
        List.map_map, hbare])

end Spelling

/-! ### Dicts -/

/-- A key that can be written: without quotes if it is a bare name, and else as a string. -/
structure Key where
  text : String
  unmarked : Unmarked text

namespace Key

/-- The token of a key. -/
def face (k : Key) : Token.Face :=
  if isBareName k.text then ⟨.ofWord k.text, k.text⟩ else ⟨.string, Text.quote k.text⟩

theorem written (k : Key) : Written (printKey k.text) [k.face] := by
  have hlegal : ∀ kind ∈ .ident :: Token.Kind.keywords, kind ∉ [Token.Kind.comment, .illegal] := by
    decide
  rw [printKey, face]
  split
  · next hbare =>
    obtain ⟨hword, hkind⟩ := Template.word_of_isBareName hbare
    exact ⟨fun _ _ hend => .word rfl hword hend.isLetter_eq (hlegal _ hkind), .of_isWord hword⟩
  · exact (Quotation.string k.text k.unmarked).written

/-- The kinds of the tokens of keys. -/
theorem face_kind (k : Key) : k.face.kind ∈ .string :: .ident :: Token.Kind.keywords := by
  rw [face]
  split
  · next hbare => exact List.mem_cons_of_mem _ (Template.word_of_isBareName hbare).2
  · exact List.mem_cons_self

theorem dictKey_reads (k : Key) :
    dictKey.ReadsIn K m (k.face :: g :: rest) (g :: rest) (· = k.text) := by
  apply reads_token
  intro pos
  by_cases hbare : isBareName k.text = true
  · have hwords : ∀ kind ∈ .ident :: Token.Kind.keywords,
        nameLiteralKinds.contains kind = false ∧ (kind = .ident || kind.isKeyword) = true := by
      decide
    have hne : k.text ≠ "" := fun hnone => by
      rw [hnone] at hbare
      cases hbare
    obtain ⟨hliteral, hkind⟩ := hwords _ (Template.word_of_isBareName hbare).2
    have hface : k.face = ⟨.ofWord k.text, k.text⟩ := if_pos hbare
    rw [hface]
    dsimp only
    rw [hliteral, if_neg Bool.false_ne_true, if_pos hkind, Token.text, if_neg hne]
    exact reads_next.bind fun _ _ => reads_pure rfl
  · have hface : k.face = ⟨.string, Text.quote k.text⟩ := if_neg hbare
    rw [hface]
    dsimp only
    rw [if_pos (by decide), Text.unquote_quote]
    exact reads_next.bind fun _ _ => reads_pure rfl

end Key

theorem printEntries_eq_map (entries : List (DictEntry Expr)) :
    printEntries entries =
      entries.map fun ⟨key, _, value⟩ => printKey key ++ ": " ++ value.print := by
  induction entries with
  | nil => rfl
  | cons entry entries ih => rw [printEntries, ih, List.map_cons]

namespace Spelling

variable {source : List Glyph}

/-- The tokens of an entry of a dict. -/
def entryFaces (entry : Key × Spelling) : List Token.Face :=
  entry.1.face :: Chain.opFace .colon :: entry.2.faces

theorem entry_written (entry : Key × Spelling) :
    Written (printKey entry.1.text ++ ": " ++ entry.2.text) (entryFaces entry) := by
  have hcolon (pending : Bool) (rest : List Glyph) :
      Lexes {} pending ": " rest [Chain.opFace .colon] := by
    have hmark : Lexes {} pending Token.Kind.colon.spelling (.char ' ' :: rest)
        [Chain.opFace .colon] := .mark rfl (by decide +kernel) (endsMark_space (by decide))
    exact hmark.before_space
  have hends (rest : List Glyph) : EndsNumber (Glyph.ofText ": " ++ rest) := by
    rintro g ⟨⟩
    decide
  have hline : OneLine ": " := by decide
  refine ⟨fun pending rest hend => ?_,
    (entry.1.written.oneLine.append hline).append entry.2.written.oneLine⟩
  exact ((entry.1.written.lexes _ _ (hends _)).append (hcolon _ _)).append
    (entry.2.written.lexes _ _ hend)

/-- An entry is an item of a dict. -/
theorem dictEntry_reads (entry : Key × Spelling) :
    ReadsItem .curly (dictEntry (.ofDepth depth)) (.lines source) m (entryFaces entry)
      fun e => (e.key, e.value.unplaced) = (entry.1.text, entry.2.read) where
  exists_head := by
    have hkeys : ∀ kind ∈ .string :: .ident :: Token.Kind.keywords,
        kind ≠ .rbrace ∧ kind ≠ .semicolon := by
      decide
    exact ⟨_, _, rfl, hkeys _ entry.1.face_kind⟩
  reads g rest hg := by
    obtain ⟨f, more, hfaces, -⟩ := entry.2.exists_head
    have hvalue : (Nested.ofDepth depth).expr.ReadsIn (.lines source) m
        (entry.2.faces ++ g :: rest) _ _ :=
      Spelling.reads.nested depth m entry.2 g rest (endsExpr_of_row hg)
    rw [entryFaces]
    rw [hfaces] at hvalue ⊢
    apply reads_pos
    intro pos
    refine entry.1.dictKey_reads.bind fun key hkey => (reads_expect rfl).bind fun colon _ => ?_
    refine hvalue.bind fun value hvalue => reads_pure ?_
    rw [hkey, hvalue]
    rfl

theorem dict_reads (entries : List (Key × Spelling)) :
    (Grammar.dict (.ofDepth depth)).ReadsIn (.lines source) m
      (Chain.opFace .lbrace :: (separated (Chain.opFace .comma) (entries.map entryFaces) ++
        Chain.opFace .rbrace :: g :: rest)) (g :: rest)
      fun e => e.unplaced = Build.dict (entries.map fun entry => (entry.1.text, entry.2.read)) := by
  refine (reads_expect_append rfl).bind fun lbrace _ => ?_
  refine (entries_reads (fun entry => dictEntry_reads entry) entries).bind fun list hlist => ?_
  refine (reads_expect rfl).bind fun rbrace _ => reads_pure ?_
  have hentries := congrArg (List.map fun entry => DictEntry.mk entry.1 0 entry.2) hlist
  rw [List.map_map, List.map_map] at hentries
  rw [Expr.unplaced, unplacedEntries_eq_map, Build.dict, List.map_map]
  exact congrArg (Expr.dict 0 · 0) hentries

theorem print_dict {view : Spelling → Expr} (h : ∀ s, (view s).print = s.text)
    (entries : List (Key × Spelling)) :
    (Build.dict (entries.map fun entry => (entry.1.text, view entry.2))).print =
      Bracket.curly.around (", ".intercalate
        (entries.map fun entry => printKey entry.1.text ++ ": " ++ entry.2.text)) := by
  simp only [Build.dict, Expr.print, List.map_map, printEntries_eq_map, Function.comp_def, h]
  rfl

/-- A dict of what is spelled is spelled. -/
def dict (entries : List (Key × Spelling)) : Spelling :=
  let fieldsOf (view : Spelling → Expr) := entries.map fun entry => (entry.1.text, view entry.2)
  .bracketed .curly (Build.dict (fieldsOf built)) (Build.dict (fieldsOf read))
    (print_dict (fun _ => rfl) entries) (print_dict print_read entries) rfl
    (.row entry_written entries)
    (fun _ _ _ _ _ _ => by
      apply reads_token
      intro pos
      exact dict_reads entries)
    (by
      simp only [fieldsOf, Build.dict, Expr.bare, bareEntries_eq_map, List.map_map,
        Function.comp_def, bare_read])

end Spelling

/-! ### Keys with values -/

theorem printExpr?_eq_map (e : Option Expr) : printExpr? e = e.map Expr.print := by cases e <;> rfl

theorem printKeyValues_eq_map (entries : List (KeyValue Expr)) :
    printKeyValues entries =
      entries.map fun ⟨key, value⟩ => key.print ++ led "=" (value.map Expr.print) := by
  induction entries with
  | nil => rfl
  | cons entry entries ih => rw [printKeyValues, ih, List.map_cons, printExpr?_eq_map]

namespace Spelling

variable {source : List Glyph}

/-- The tokens of a key with a value or without one. -/
def keyValueFaces (entry : Template.Name × Option Spelling) : List Token.Face :=
  entry.1.face :: (entry.2.map fun s => Chain.opFace .assign :: s.faces).getD []

theorem keyValue_written (entry : Template.Name × Option Spelling) :
    Written (entry.1.text ++ led "=" (entry.2.map text)) (keyValueFaces entry) := by
  obtain ⟨x, value⟩ := entry
  cases value with
  | none =>
    rw [Option.map_none, led, String.append_empty]
    exact (Atom.name x).written
  | some s =>
    have hpair : Lexes.BeforeEnd {} ((Entry.named x s).text operands operands) _ :=
      Entry.lexes rfl lexed lexed endsMarks endsMarks _
    have hline : OneLine "=" := by decide
    refine ⟨fun pending rest hend => ?_, x.oneLine.append (hline.append s.written.oneLine)⟩
    have hall := hpair pending rest hend
    rw [Entry.text, String.append_assoc] at hall
    exact hall

/-- A key with a value or without one is an item of a row. -/
theorem keyValue_reads (entry : Template.Name × Option Spelling) :
    ReadsItem .round (keyValue (.ofDepth depth)) (.lines source) m (keyValueFaces entry)
      fun e => (e.key.unplaced, e.value.map (·.unplaced)) =
        (Build.ident entry.1.text, entry.2.map read) where
  exists_head := ⟨_, _, rfl, nofun, nofun⟩
  reads g rest hg := by
    obtain ⟨x, value⟩ := entry
    cases value with
    | none =>
      have hassign : g.kind ≠ .assign := by rcases hg with hg | hg <;> rw [hg] <;> nofun
      refine x.argName_reads.bind fun key hkey => ?_
      refine (reads_accept_none hassign).bind fun found hfound => ?_
      subst hfound
      refine reads_pure ?_
      rw [hkey]
      rfl
    | some s =>
      obtain ⟨f, more, hfaces, -⟩ := s.exists_head
      have hvalue : (Nested.ofDepth depth).expr.ReadsIn (.lines source) m
          (s.faces ++ g :: rest) _ _ :=
        Spelling.reads.nested depth m s g rest (endsExpr_of_row hg)
      rw [keyValueFaces, Option.map_some, Option.getD_some]
      rw [hfaces] at hvalue ⊢
      refine x.argName_reads.bind fun key hkey => (reads_accept rfl).bind fun found hfound => ?_
      subst hfound
      refine hvalue.bind fun value hvalue => reads_pure ?_
      rw [hkey, Option.map_some, Option.map_some, hvalue]
      rfl

theorem keyValues_reads (entries : List (Template.Name × Option Spelling)) :
    (parenthesized (.ofDepth depth)).ReadsIn (.lines source) m
      (Chain.opFace .lparen :: Command.semicolon ::
        (separated (Chain.opFace .comma) (entries.map keyValueFaces) ++
          Chain.opFace .rparen :: g :: rest)) (g :: rest)
      fun e => e.unplaced =
        Build.keyValues (entries.map fun entry => (entry.1.text, entry.2.map read)) := by
  refine (reads_expect rfl).bind fun lparen _ => ?_
  apply reads_token
  intro pos
  rw [if_pos (by rfl)]
  refine reads_next_append.bind fun _ _ => ?_
  refine (entries_reads (fun entry => keyValue_reads entry) entries).bind fun list hlist => ?_
  refine (reads_expect rfl).bind fun rparen _ => reads_pure ?_
  have hentries := congrArg (List.map fun (key, value) => KeyValue.mk key value) hlist
  rw [List.map_map, List.map_map] at hentries
  rw [Expr.unplaced, unplacedKeyValues_eq_map, Build.keyValues, List.map_map]
  simp only [unplacedExpr?_eq_map]
  exact congrArg (Expr.keyValues 0 · 0) hentries

theorem keyValues_written (entries : List (Template.Name × Option Spelling)) :
    Written (";" ++ ", ".intercalate
        (entries.map fun entry => entry.1.text ++ led "=" (entry.2.map text)))
      (Command.semicolon :: separated (Chain.opFace .comma) (entries.map keyValueFaces)) := by
  have hrow := Written.row keyValue_written entries
  have hline : OneLine ";" := by decide
  exact ⟨fun pending rest hend => (Lexes.semicolon rfl).append (hrow.lexes _ rest hend),
    hline.append hrow.oneLine⟩

theorem print_keyValues {view : Spelling → Expr} (h : ∀ s, (view s).print = s.text)
    (entries : List (Template.Name × Option Spelling)) :
    (Build.keyValues (entries.map fun entry => (entry.1.text, entry.2.map view))).print =
      Bracket.round.around (";" ++ ", ".intercalate
        (entries.map fun entry => entry.1.text ++ led "=" (entry.2.map text))) := by
  simp only [Build.keyValues, Expr.print, List.map_map, printKeyValues_eq_map, Option.map_map,
    Function.comp_def, h]
  rfl

/-- Keys with values that are spelled are spelled. -/
def keyValues (entries : List (Template.Name × Option Spelling)) : Spelling :=
  let fieldsOf (view : Spelling → Expr) :=
    entries.map fun entry => (entry.1.text, entry.2.map view)
  .bracketed .round (Build.keyValues (fieldsOf built)) (Build.keyValues (fieldsOf read))
    (print_keyValues (fun _ => rfl) entries) (print_keyValues print_read entries) rfl
    (keyValues_written entries)
    (fun _ _ _ _ _ _ => by
      apply reads_token
      intro pos
      exact keyValues_reads entries)
    (by
      simp only [fieldsOf, Build.keyValues, Expr.bare, bareKeyValues_eq_map, List.map_map,
        bareExpr?_eq_map, Option.map_map, Function.comp_def, bare_read])

end Spelling

end TemplateScript
