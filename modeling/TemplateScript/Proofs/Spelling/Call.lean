import TemplateScript.Proofs.Spelling.Operation

/-!
# Spellings of calls and selections

Arguments between parentheses are a tuple, or what a function is called with. Calls, indexes and
selections go on with what stands before them, in any number.
-/

namespace TemplateScript

open Cursor Parse Grammar

variable {α β : Type} {w : Operands α} {v : Operands β} {K : Token.Outlook} {depth m : Nat}
  {f g : Token.Face} {rest : List Token.Face}

/-! ### Arguments -/

theorem printNamed_eq_map (named : List (Expr × Expr)) :
    printNamed named = named.map fun entry => entry.1.print ++ "=" ++ entry.2.print := by
  induction named with
  | nil => rfl
  | cons first named ih => rw [printNamed, ih, List.map_cons]

namespace Listing

/-- The text between the parentheses around a list. -/
def text (w : Operands α) (v : Operands β) (l : Listing α β) : String :=
  printGroups (l.first.map (Entry.text w v)) (l.second.map (Entry.text w v))

/-- Arguments are printed as the list they stand for. -/
theorem printArgs_eq (hw : ∀ a, (w.tree a).print = w.text a) (hv : ∀ b, (v.tree b).print = v.text b)
    (l : Listing α β) :
    printArgs (l.args w v) =
      (l.first.map (Entry.text w v), l.second.map (Entry.text w v)) := by
  have hspread (lead : String) (a : Option α) :
      ((printExpr? (a.map w.tree)).map (lead ++ ·)).toList =
        a.toList.map fun a => lead ++ w.text a := by
    cases a <;> simp [printExpr?, hw]
  have hpositional (list : List α) : printExprs (list.map w.tree) = list.map w.text := by
    simp [printExprs_eq_map, hw]
  have hnamed (named : List (Template.Name × β)) :
      printNamed (named.map fun entry => (Build.ident entry.1.text, v.tree entry.2)) =
        named.map fun entry => entry.1.text ++ "=" ++ v.text entry.2 := by
    have hident (x : Template.Name) : (Build.ident x.text).print = x.text := rfl
    simp [printNamed_eq_map, hv, hident]
  simp only [printArgs, args, hspread, hpositional, hnamed, first, second, List.map_append,
    List.map_map]
  rfl

/-- The list is one positional entry. -/
def isSingle : Listing α β → Bool
  | ⟨[_], none, [], none⟩ => true
  | _ => false

theorem isSome_single? (l : Listing α β) : (l.args w v).single?.isSome = l.isSingle := by
  obtain ⟨positional, spread, named, namedSpread⟩ := l
  rcases positional with - | ⟨a, - | ⟨second, more⟩⟩ <;> cases spread <;> cases named <;>
    cases namedSpread <;> rfl

end Listing

namespace Spelling

/-- The tokens between the parentheses around arguments. -/
def argFaces (l : Listing Spelling Spelling) : List Token.Face :=
  Entry.allFaces operands operands l.entries

theorem args_written (l : Listing Spelling Spelling) :
    Written (l.text operands operands) (argFaces l) := by
  have hlexes := Entry.texts_lexes rfl lexed lexed endsMarks endsMarks l.entries
  refine ⟨?_, l.oneLine (fun s => s.written.oneLine) fun s => s.written.oneLine⟩
  rw [Listing.text, Entry.printGroups_eq l.isNamed_of_first l.isNamed_of_second]
  exact hlexes

/-- Arguments are printed alike as they are built and as they are read. -/
theorem printArgs_of_view {view : Spelling → Expr} (h : ∀ s, (view s).print = s.text)
    (l : Listing Spelling Spelling) :
    printArgs (l.args ⟨text, faces, view⟩ ⟨text, faces, view⟩) =
      (l.first.map (Entry.text operands operands), l.second.map (Entry.text operands operands)) :=
  l.printArgs_eq h h

theorem bareArgs_operands (l : Listing Spelling Spelling) :
    bareArgs (l.args operands operands) = bareArgs (l.args writing writing) := by
  simp only [Listing.args, bareArgs, bareExprs_eq_map, bareExpr?_eq_map, bareNamed_eq_map,
    List.map_map, Option.map_map, Function.comp_def, operands, writing, bare_read]

/-! ### Tuples -/

/-- The tokens between the parentheses of a tuple. Behind a single operand stands a comma. -/
def tupleFaces (l : Listing Spelling Spelling) : List Token.Face :=
  argFaces l ++ (if l.isSingle then [Chain.opFace .comma] else [])

theorem tuple_written (l : Listing Spelling Spelling) :
    Written (l.text operands operands ++ (if l.isSingle then "," else "")) (tupleFaces l) := by
  have hargs := args_written l
  rw [tupleFaces]
  cases l.isSingle with
  | false =>
    simp only [Bool.false_eq_true, if_false, String.append_empty, List.append_nil]
    exact hargs
  | true =>
    simp only [if_true]
    have hcomma (pending : Bool) (rest : List Glyph) :
        Lexes {} pending Token.Kind.comma.spelling rest [Chain.opFace .comma] :=
      .solid rfl (by decide)
    have hends (rest : List Glyph) :
        EndsNumber (Glyph.ofText Token.Kind.comma.spelling ++ rest) := by
      rintro g ⟨⟩
      decide
    have hline : OneLine "," := by decide
    exact ⟨fun pending rest _ => (hargs.lexes pending _ (hends rest)).append (hcomma _ _),
      hargs.oneLine.append hline⟩

variable {source : List Glyph}

/-- The arguments of a tuple are read as they are. Of a single one it is seen that it was not
written alone. -/
theorem tupleArgs_reads (l : Listing Spelling Spelling) :
    (argList (.ofDepth depth)).ReadsIn (.lines source) m
      (tupleFaces l ++ Chain.opFace .rparen :: rest) (Chain.opFace .rparen :: rest)
      fun read => unplacedArgs read.1 = l.args operands operands ∧
        ((l.args operands operands).single?.isSome → read.2 = true) := by
  rw [tupleFaces, Listing.isSome_single?]
  cases hsingle : l.isSingle with
  | false =>
    rw [if_neg Bool.false_ne_true, List.append_nil]
    exact (argList_reads reads reads l).mono fun read hread => ⟨hread, nofun⟩
  | true =>
    obtain ⟨s, rfl⟩ : ∃ s, l = ⟨[s], none, [], none⟩ := by
      unfold Listing.isSingle at hsingle
      split at hsingle
      · exact ⟨_, rfl⟩
      · cases hsingle
    have hfirst : (argRound (.ofDepth depth) {}).ReadsIn (.lines source) m
        (s.faces ++ Chain.opFace .comma :: Chain.opFace .rparen :: rest)
        (Chain.opFace .rparen :: rest)
        (Round.Again fun next =>
          unplacedArgs next.args = { positional := [s.read] } ∧ next.separated = true) := by
      refine argRound_reads (l := {}) (e := .positional s) reads reads ⟨rfl, rfl⟩ ⟨rfl, rfl⟩
        (by decide) fun next hnext _ => ?_
      refine (reads_skipLineBreaks rfl).bind fun _ _ => reads_kind ?_
      exact reads_next.bind fun _ _ => reads_pure ⟨hnext.1, rfl⟩
    rw [if_pos rfl, List.append_assoc]
    refine LoopsIn.reads (.step hfirst fun next ⟨hargs, hseparated⟩ => .done ?_)
    refine (reads_skipLineBreaks rfl).bind fun _ _ => reads_kind ?_
    exact reads_pure ⟨hargs, fun _ => hseparated⟩

theorem tuple_reads (l : Listing Spelling Spelling) (hg : g.kind ≠ .lambda) :
    (parenthesized (.ofDepth depth)).ReadsIn (.lines source) m
      (Chain.opFace .lparen :: (tupleFaces l ++ Chain.opFace .rparen :: g :: rest)) (g :: rest)
      fun e => e.unplaced = .tuple 0 (l.args operands operands) 0 := by
  have hhead : ∃ f more, tupleFaces l ++ Chain.opFace .rparen :: g :: rest = f :: more ∧
      f.kind ≠ .semicolon := by
    rw [tupleFaces, argFaces]
    split
    · rw [List.append_assoc]
      exact Entry.exists_head_all (reads : operands.Read (.lines source)) l.entries nofun
    · rw [List.append_nil]
      exact Entry.exists_head_all (reads : operands.Read (.lines source)) l.entries nofun
  have hgrouped (args : Args Expr) : grouped args true = .tuple 0 args 0 := by
    unfold grouped
    cases args.single? <;> rfl
  refine (parenthesized_reads hhead (tupleArgs_reads l) hg).mono fun e he => ?_
  rw [he, hgrouped]

theorem print_tuple {view : Spelling → Expr} (h : ∀ s, (view s).print = s.text)
    (l : Listing Spelling Spelling) :
    (Build.tuple (l.args ⟨text, faces, view⟩ ⟨text, faces, view⟩)).print =
      Bracket.round.around (l.text operands operands ++ (if l.isSingle then "," else "")) := by
  rw [Build.tuple, Expr.print, printArgs_of_view h, Listing.isSome_single?]
  simp only [Bracket.around, Listing.text, String.append_assoc]
  rfl

/-- A tuple of what is spelled is spelled. -/
def tuple (l : Listing Spelling Spelling) : Spelling :=
  .bracketed .round (Build.tuple (l.args writing writing))
    (.tuple 0 (l.args operands operands) 0)
    (print_tuple (fun _ => rfl) l) (print_tuple print_read l) rfl
    (tuple_written l)
    (fun _ _ _ _ _ hg => by
      apply reads_token
      intro pos
      exact tuple_reads l hg)
    (by rw [Build.tuple, Expr.bare, Expr.bare, bareArgs_operands])

/-! ### What goes on with an operand -/

/-- What goes on with what is spelled is spelled with it, if one round reads it. -/
def extend (s : Spelling) (tail : String) (more : List Token.Face) (built read : Expr)
    (hprint : built.print = s.text ++ tail) (hread : read.print = s.text ++ tail)
    (hclosed : read.isOperation = false) (hwritten : Written (s.text ++ tail) (s.faces ++ more))
    (hend : EndsStatement more)
    (hhead : ∃ f others, more = f :: others ∧ f.kind ≠ .lambda)
    (hround : ∀ source depth m g rest e, g.kind ≠ .lambda → e.unplaced = s.read →
      (primaryRound (.ofDepth depth) e).ReadsIn (.lines source) m (more ++ g :: rest)
        (g :: rest) (Round.Again fun e => e.unplaced = read))
    (hbare : read.bare = built.bare) : Spelling where
  built := built
  faces := s.faces ++ more
  read := read
  written := hprint ▸ hwritten
  opens := hprint ▸ s.opens.append tail more
  endsStatement := hend.append s.faces
  readsOn source := by
    obtain ⟨f, others, rfl, hf⟩ := hhead
    exact (s.readsOn source).again hf (hround source)
  bare_read := hbare
  print_read := hread.trans hprint.symm
  isOperation_read := hclosed

/-! ### Indexes -/

theorem index_reads (key : Spelling) {e tree : Expr} (he : e.unplaced = tree) :
    (primaryRound (.ofDepth depth) e).ReadsIn (.lines source) m
      (Bracket.square.allFaces key.faces ++ g :: rest) (g :: rest)
      (Round.Again fun found => found.unplaced = .index tree 0 key.read 0) := by
  have hread : (Nested.ofDepth depth).expr.ReadsIn (.lines source) m
      (key.faces ++ Chain.opFace .rbrack :: g :: rest) _ _ :=
    reads.nested depth m key (Chain.opFace .rbrack) (g :: rest) (by decide)
  obtain ⟨f, more, hfaces, hf⟩ := key.exists_native
  have hcolon : f.kind ≠ .colon := fun hkind => hf (hkind ▸ by decide)
  have hall : Bracket.square.allFaces key.faces ++ g :: rest =
      Chain.opFace .lbrack :: (key.faces ++ Chain.opFace .rbrack :: g :: rest) := by
    simp [Bracket.allFaces, Bracket.opening, Bracket.closing]
  rw [hall]
  rw [hfaces] at hread ⊢
  have hindex : (indexOrSlice (.ofDepth depth) e).ReadsIn (.lines source) m
      (Chain.opFace .lbrack :: (f :: more ++ Chain.opFace .rbrack :: g :: rest)) (g :: rest)
      fun found => found.unplaced = .index tree 0 key.read 0 := by
    refine (reads_expect rfl).bind fun lbrack _ => reads_kind ?_
    rw [if_neg hcolon]
    refine hread.bind fun found hfound => reads_kind ?_
    rw [if_neg (show (Chain.opFace .rbrack).kind ≠ .colon by decide)]
    refine (reads_expect rfl).bind fun rbrack _ => reads_pure ?_
    rw [Expr.unplaced, hfound, he]
    rfl
  exact reads_kind (hindex.bind fun found hfound => reads_pure hfound)

theorem print_index {view : Spelling → Expr} (h : ∀ s, (view s).print = s.text)
    (s key : Spelling) :
    (Build.index (view s) (view key)).print = s.text ++ Bracket.square.around key.text := by
  simp only [Build.index, Expr.print, Bracket.around, h, String.append_assoc]
  rfl

/-- What is spelled is spelled with an index. -/
def index (s key : Spelling) : Spelling :=
  s.extend (Bracket.square.around key.text) (Bracket.square.allFaces key.faces)
    (Build.index s.built key.built) (.index s.read 0 key.read 0)
    (print_index (fun _ => rfl) s key) (print_index print_read s key) rfl
    (s.written.append (Bracket.square.written key.written) fun rest => by
      rw [Bracket.around, Glyph.ofText_append, Glyph.ofText_append]
      rintro g ⟨⟩
      decide)
    (Bracket.square.endsStatement key.faces) ⟨_, _, rfl, nofun⟩
    (fun _ _ _ _ _ _ _ he => index_reads key he)
    (by rw [Build.index, Expr.bare, Expr.bare, s.bare_read, key.bare_read])

/-! ### Calls -/

theorem callArgs_reads (l : Listing Spelling Spelling) :
    (callArgs (.ofDepth depth)).ReadsIn (.lines source) m
      (Chain.opFace .lparen :: (argFaces l ++ Chain.opFace .rparen :: g :: rest)) (g :: rest)
      fun found => unplacedArgs found.2.1 = l.args operands operands := by
  have hargs : (argList (.ofDepth depth)).ReadsIn (.lines source) m
      (argFaces l ++ Chain.opFace .rparen :: g :: rest) _ _ := argList_reads reads reads l
  refine (reads_expect_append rfl).bind fun lparen _ => ?_
  refine hargs.bind fun (args, separated) hargs => ?_
  exact (reads_expect rfl).bind fun rparen _ => reads_pure hargs

theorem call_reads (l : Listing Spelling Spelling) {e tree : Expr} (he : e.unplaced = tree) :
    (primaryRound (.ofDepth depth) e).ReadsIn (.lines source) m
      (Bracket.round.allFaces (argFaces l) ++ g :: rest) (g :: rest)
      (Round.Again fun found =>
        found.unplaced = Build.call tree (l.args operands operands)) := by
  have hall : Bracket.round.allFaces (argFaces l) ++ g :: rest =
      Chain.opFace .lparen :: (argFaces l ++ Chain.opFace .rparen :: g :: rest) := by
    simp [Bracket.allFaces, Bracket.opening, Bracket.closing]
  rw [hall]
  refine reads_kind ((callArgs_reads l).bind fun (lparen, args, rparen) hargs => reads_pure ?_)
  change (Expr.call e lparen args rparen false).unplaced = _
  rw [Expr.unplaced, show unplacedArgs args = _ from hargs, he]
  rfl

/-- A function with arguments between parentheses. -/
theorem called_written (x : Template.Name) (l : Listing Spelling Spelling) :
    Written (x.text ++ Bracket.round.around (l.text operands operands))
      (x.face :: Bracket.round.allFaces (argFaces l)) := by
  have hargs := Bracket.round.written (args_written l)
  refine ⟨fun pending rest hend => ?_, x.oneLine.append hargs.oneLine⟩
  have hname : Lexes {} pending x.text
      (Glyph.ofText (Bracket.round.around (l.text operands operands)) ++ rest) [x.face] := by
    refine .name rfl x ?_
    rw [Bracket.around, Glyph.ofText_append, Glyph.ofText_append]
    rintro g ⟨⟩
    rfl
  exact hname.append (hargs.lexes _ rest hend)

theorem print_call {view : Spelling → Expr} (h : ∀ s, (view s).print = s.text)
    (x : Template.Name) (l : Listing Spelling Spelling) :
    (Build.call (Build.ident x.text)
      (l.args ⟨text, faces, view⟩ ⟨text, faces, view⟩)).print =
      x.text ++ Bracket.round.around (l.text operands operands) := by
  rw [Build.call, Expr.print, printCall, printArgs_of_view h]
  · simp only [Bracket.around, Listing.text, String.append_assoc]
    rfl
  · nofun

/-- A call of a function by its name is spelled if its arguments are. -/
def call (x : Template.Name) (l : Listing Spelling Spelling) : Spelling :=
  (Atom.name x).spelling.extend (Bracket.round.around (l.text operands operands))
    (Bracket.round.allFaces (argFaces l))
    (Build.call (Build.ident x.text) (l.args writing writing))
    (Build.call (Build.ident x.text) (l.args operands operands))
    (print_call (fun _ => rfl) x l) (print_call print_read x l) rfl
    (called_written x l)
    (Bracket.round.endsStatement _) ⟨_, _, rfl, nofun⟩
    (fun _ _ _ _ _ _ _ he => call_reads l he)
    (by rw [Build.call, Build.call, Expr.bare, Expr.bare, bareArgs_operands])

/-! ### Pipes -/

theorem pipe_reads (x : Template.Name) (l : Listing Spelling Spelling) {e tree : Expr}
    (he : e.unplaced = tree) :
    (primaryRound (.ofDepth depth) e).ReadsIn (.lines source) m
      (Chain.opFace .pipe :: x.face :: Bracket.round.allFaces (argFaces l) ++ g :: rest)
      (g :: rest) (Round.Again fun found =>
        found.unplaced = Build.pipe tree (Build.ident x.text) (l.args operands operands)) := by
  have hall : Chain.opFace .pipe :: x.face :: Bracket.round.allFaces (argFaces l) ++ g :: rest =
      Chain.opFace .pipe :: x.face :: Chain.opFace .lparen ::
        (argFaces l ++ Chain.opFace .rparen :: g :: rest) := by
    simp [Bracket.allFaces, Bracket.opening, Bracket.closing]
  have hfunc {behind : List Token.Face} :
      (pipedFunc (.ofDepth depth)).ReadsIn (.lines source) m
        (x.face :: Chain.opFace .lparen :: behind) (Chain.opFace .lparen :: behind)
        fun found => found.unplaced = Build.ident x.text := by
    refine (operand_ident (by decide)).bind fun found ⟨pos, hfound⟩ => ?_
    refine LoopsIn.reads (.done (reads_kind ?_))
    rw [if_neg (by decide)]
    subst hfound
    exact reads_pure rfl
  have hpipe : (Grammar.pipe (.ofDepth depth) e).ReadsIn (.lines source) m
      (Chain.opFace .pipe :: x.face :: Chain.opFace .lparen ::
        (argFaces l ++ Chain.opFace .rparen :: g :: rest)) (g :: rest)
      fun found =>
        found.unplaced = Build.pipe tree (Build.ident x.text) (l.args operands operands) := by
    refine reads_next.bind fun _ _ => hfunc.bind fun func hfound => reads_kind ?_
    refine (callArgs_reads l).bind fun (lparen, args, rparen) hargs => reads_pure ?_
    obtain ⟨positional, spread, named, namedSpread⟩ := args
    simp only [unplacedArgs] at hargs
    simp only [Expr.unplaced, unplacedArgs, unplacedExprs, he, hfound, Build.pipe, ← hargs]
  rw [hall]
  exact reads_kind (hpipe.bind fun found hfound => reads_pure hfound)

theorem pipe_written (s : Spelling) (x : Template.Name) (l : Listing Spelling Spelling) :
    Written (s.text ++ (" .| " ++ (x.text ++ Bracket.round.around (l.text operands operands))))
      (s.faces ++ Chain.opFace .pipe :: x.face :: Bracket.round.allFaces (argFaces l)) := by
  have hplain : .pipe ∈ plainMarks := by decide +kernel
  have hline : OneLine " .| " := by decide
  have hcalled := called_written x l
  have hmark (pending : Bool) (rest : List Glyph) :
      Lexes {} pending " .| " rest [Chain.opFace .pipe] := .betweenSpaces rfl hplain
  refine s.written.append ⟨fun pending rest hend => ?_, hline.append hcalled.oneLine⟩
    fun rest => ?_
  · exact (hmark _ _).append (hcalled.lexes _ rest hend)
  · rw [Glyph.ofText_append]
    exact endsNumber_space

theorem print_pipe {view : Spelling → Expr} (h : ∀ s, (view s).print = s.text) (s : Spelling)
    (x : Template.Name) (l : Listing Spelling Spelling) :
    (Build.pipe (view s) (Build.ident x.text)
      (l.args ⟨text, faces, view⟩ ⟨text, faces, view⟩)).print =
      s.text ++ (" .| " ++ (x.text ++ Bracket.round.around (l.text operands operands))) := by
  let args := l.args ⟨text, faces, view⟩ ⟨text, faces, view⟩
  have hfirst : printArgs { args with positional := view s :: args.positional } =
      (s.text :: (printArgs args).1, (printArgs args).2) := by
    simp only [printArgs, printExprs, List.cons_append, h]
    rfl
  rw [Build.pipe, Expr.print, hfirst, printArgs_of_view h, printCall]
  simp only [Bracket.around, Listing.text, String.append_assoc]
  rfl

/-- What is spelled is spelled as what is piped into a function. -/
def pipe (s : Spelling) (x : Template.Name) (l : Listing Spelling Spelling) : Spelling :=
  s.extend (" .| " ++ (x.text ++ Bracket.round.around (l.text operands operands)))
    (Chain.opFace .pipe :: x.face :: Bracket.round.allFaces (argFaces l))
    (Build.pipe s.built (Build.ident x.text) (l.args writing writing))
    (Build.pipe s.read (Build.ident x.text) (l.args operands operands))
    (print_pipe (fun _ => rfl) s x l) (print_pipe print_read s x l) rfl
    (pipe_written s x l)
    ((Bracket.round.endsStatement _).append [_, _]) ⟨_, _, rfl, nofun⟩
    (fun _ _ _ _ _ _ _ he => pipe_reads x l he)
    (by
      have hargs := bareArgs_operands l
      simp only [Listing.args, bareArgs, Args.mk.injEq] at hargs
      simp only [Build.pipe, Expr.bare, Listing.args, bareArgs, bareExprs, hargs, s.bare_read])

end Spelling

/-! ### Selections -/

/-- Nothing is escaped in a word. -/
theorem quote_of_isWord {word : String} (h : isWord word = true) :
    Text.quote word = "\"" ++ word ++ "\"" := by
  have hcodes : ∀ n < 0xA0, ((Glyph.char (Char.ofNat n)).isLetter ||
      (Glyph.char (Char.ofNat n)).isDigit) = true →
      Text.quotedChar (Char.ofNat n) = [Char.ofNat n] := by
    decide +kernel
  have hchar (ch : Char) (hch : ((Glyph.char ch).isLetter || (Glyph.char ch).isDigit) = true) :
      Text.quotedChar ch = [ch] := by
    by_cases hcode : ch.toNat < 0xA0
    · have hsmall := hcodes ch.toNat hcode
      rw [Char.ofNat_toNat] at hsmall
      exact hsmall hch
    · have hne (other : Char) (hother : other.toNat < 0xA0) : ch ≠ other := by
        rintro rfl
        exact hcode hother
      have hcontrol : Text.isControl ch = false := by
        simp [Text.isControl]
        omega
      rw [Text.quotedChar, if_neg (hne '"' (by decide)), if_neg (hne '\\' (by decide)),
        if_neg (hne '\n' (by decide)), if_neg (hne '\r' (by decide)),
        if_neg (hne '\t' (by decide)), hcontrol, if_neg Bool.false_ne_true]
  have hall := List.all_eq_true.1 (Bool.and_eq_true_iff.1 h).2
  have hquoted : word.toList.flatMap Text.quotedChar = word.toList := by
    rw [List.flatMap_congr fun ch hch => hchar ch (hall ch hch), List.flatMap_singleton']
  apply String.toList_inj.1
  rw [Text.quote, hquoted, String.toList_ofList]
  simp

section Selection

variable {source : List Glyph} {base tree : Expr}

theorem selection_name (x : Template.Name) (he : base.unplaced = tree) :
    (selection (.ofDepth depth) base).ReadsIn (.lines source) m (f :: x.face :: g :: rest)
      (g :: rest) fun e =>
        e.unplaced = .selector tree (Build.string x.text) (f.kind = .nullishSelector) := by
  have hne : x.text ≠ "" := by
    intro hnone
    have hbare := x.isBare
    rw [hnone] at hbare
    cases hbare
  refine reads_kind (reads_next.bind fun _ _ => ?_)
  apply reads_token
  intro pos
  have htext : (x.face.placed pos).text = x.text := if_neg hne
  have hkind : (x.face.placed pos).kind = .ident := rfl
  rw [hkind, if_neg (by decide), if_pos (by decide), htext]
  refine reads_next.bind fun _ _ => reads_pure ?_
  rw [Expr.unplaced, he, Build.string, Build.literal, quote_of_isWord x.isWord]
  rfl

theorem selection_quoted (q : Quotation) (he : base.unplaced = tree) :
    (selection (.ofDepth depth) base).ReadsIn (.lines source) m
      (f :: (Bracket.round.allFaces [⟨q.kind, q.text⟩] ++ g :: rest)) (g :: rest)
      fun e => e.unplaced = .selector tree q.tree (f.kind = .nullishSelector) := by
  have hname : (Nested.ofDepth depth).expr.ReadsIn (.lines source) m
      (⟨q.kind, q.text⟩ :: Chain.opFace .rparen :: g :: rest) _ _ :=
    Spelling.reads.nested depth m q.spelling (Chain.opFace .rparen) (g :: rest) (by decide)
  refine reads_kind (reads_next.bind fun _ _ => ?_)
  apply reads_token
  intro pos
  rw [if_pos (by rfl)]
  refine reads_next.bind fun _ _ => hname.bind fun name hname => ?_
  refine (reads_expect rfl).bind fun rparen _ => reads_pure ?_
  rw [Expr.unplaced, he, hname]
  rfl

end Selection

/-- What is selected by name: what stands behind the mark. -/
structure Field where
  name : String
  text : String
  faces : List Token.Face
  selected_eq : selected (Build.string name) (Text.quote name) = text
  written : Written text faces
  begins : ∃ ch chars, text.toList = ch :: chars ∧ .char ch ∉ markTails ∧ ch.isDigit = false
  endsStatement : EndsStatement faces
  reads : ∀ (source : List Glyph) (depth m : Nat) (f g : Token.Face) (rest : List Token.Face)
    {base tree : Expr}, base.unplaced = tree →
    (selection (.ofDepth depth) base).ReadsIn (.lines source) m (f :: (faces ++ g :: rest))
      (g :: rest) fun e =>
        e.unplaced = .selector tree (Build.string name) (f.kind = .nullishSelector)

namespace Field

/-- A name is selected as it stands. -/
def bare (x : Template.Name) : Field where
  name := x.text
  text := x.text
  faces := [x.face]
  selected_eq := if_pos x.isBare
  written := (Atom.name x).written
  begins := by
    obtain ⟨ch, chars, htext, hch⟩ := x.exists_first
    have hhead := (Bool.and_eq_true_iff.1 x.isWord).1
    rw [htext] at hhead
    refine ⟨ch, chars, htext, hch, Bool.eq_false_iff.2 fun hdigit => ?_⟩
    rw [List.head?_cons, Option.any_some, Glyph.isLetter_of_isDigit hdigit] at hhead
    cases hhead
  endsStatement := .singleton rfl
  reads _ _ _ _ _ _ _ _ he := selection_name x he

/-- A name that cannot stand so is selected as a string between parentheses. -/
def quoted (k : Key) (hquoted : isBareName k.text = false) : Field where
  name := k.text
  text := Bracket.round.around (Text.quote k.text)
  faces := Bracket.round.allFaces [⟨.string, Text.quote k.text⟩]
  selected_eq := if_neg (by rw [hquoted]; exact Bool.false_ne_true)
  written := Bracket.round.written (Quotation.string k.text k.unmarked).written
  begins := by
    refine ⟨'(', (Text.quote k.text ++ ")").toList, ?_, by decide, by decide⟩
    rw [Bracket.around, String.append_assoc, String.toList_append]
    rfl
  endsStatement := Bracket.round.endsStatement _
  reads _ _ _ _ _ _ _ _ he := selection_quoted (.string k.text k.unmarked) he

/-- A name that is no keyword can be selected. -/
theorem exists_name (k : Key) (hk : (Token.Kind.ofWord k.text).isKeyword = false) :
    ∃ field : Field, field.name = k.text := by
  cases hbare : isBareName k.text with
  | false => exact ⟨quoted k hbare, rfl⟩
  | true =>
    have hkind := (Template.word_of_isBareName hbare).2
    rcases List.mem_cons.1 hkind with hident | hword
    · exact ⟨bare ⟨k.text, hbare, hident⟩, rfl⟩
    · exact absurd (List.contains_iff_mem.2 hword) (Bool.eq_false_iff.1 hk)

/-- The mark before what is selected. -/
def mark (isNullish : Bool) : Token.Kind := if isNullish then .nullishSelector else .period

end Field

namespace Spelling

variable {source : List Glyph}

theorem selection_written (x : Template.Name) (field : Field) (isNullish : Bool) :
    Written (x.text ++ ((Field.mark isNullish).spelling ++ field.text))
      (x.face :: Chain.opFace (Field.mark isNullish) :: field.faces) := by
  obtain ⟨ch, chars, htext, hch, hdigit⟩ := field.begins
  have hkinds : ∀ kind ∈ selectorMarks, kind ∈ Token.Kind.marks ∧ OneLine kind.spelling := by
    decide
  have hkind : Field.mark isNullish ∈ selectorMarks := by cases isNullish <;> decide
  obtain ⟨hmark, hline⟩ := hkinds _ hkind
  have hfirst (rest : List Glyph) :
      (Glyph.ofText field.text ++ rest).head? = some (.char ch) := by
    rw [Glyph.ofText, htext]
    rfl
  have hselector (pending : Bool) (rest : List Glyph) :
      Lexes {} pending (Field.mark isNullish).spelling (Glyph.ofText field.text ++ rest)
        [Chain.opFace (Field.mark isNullish)] := by
    refine .selectorMark rfl hkind (.of_tail (fun g hg => ?_) hmark) ?_
    · rw [hfirst] at hg
      cases hg
      exact hch
    · rw [hfirst]
      exact hdigit
  refine ⟨fun pending rest hend => ?_, x.oneLine.append (hline.append field.written.oneLine)⟩
  have hname : Lexes {} pending x.text
      (Glyph.ofText ((Field.mark isNullish).spelling ++ field.text) ++ rest) [x.face] := by
    refine .name rfl x ?_
    rw [Glyph.ofText_append]
    cases isNullish <;> rintro g ⟨⟩ <;> rfl
  exact hname.append ((hselector _ _).append (field.written.lexes _ rest hend))

theorem selector_reads (field : Field) (isNullish : Bool) {e tree : Expr}
    (he : e.unplaced = tree) :
    (primaryRound (.ofDepth depth) e).ReadsIn (.lines source) m
      (Chain.opFace (Field.mark isNullish) :: field.faces ++ g :: rest) (g :: rest)
      (Round.Again fun found =>
        found.unplaced = .selector tree (Build.string field.name) isNullish) := by
  have hread := field.reads source depth m (Chain.opFace (Field.mark isNullish)) g rest he
  cases isNullish <;> exact reads_kind (hread.bind fun found hfound => reads_pure hfound)

/-- A selection from a name is spelled. -/
def selector (x : Template.Name) (field : Field) (isNullish : Bool) : Spelling :=
  have hprint : (Expr.selector (Build.ident x.text) (Build.string field.name) isNullish).print =
      x.text ++ ((Field.mark isNullish).spelling ++ field.text) := by
    have hname : (Build.string field.name).print = Text.quote field.name := rfl
    rw [Expr.print, hname, field.selected_eq, String.append_assoc]
    cases isNullish <;> rfl
  (Atom.name x).spelling.extend ((Field.mark isNullish).spelling ++ field.text)
    (Chain.opFace (Field.mark isNullish) :: field.faces)
    (.selector (Build.ident x.text) (Build.string field.name) isNullish)
    (.selector (Build.ident x.text) (Build.string field.name) isNullish)
    hprint hprint rfl
    (selection_written x field isNullish)
    (field.endsStatement.append [_]) ⟨_, _, rfl, by cases isNullish <;> nofun⟩
    (fun _ _ _ _ _ _ _ he => selector_reads field isNullish he)
    rfl

end Spelling

end TemplateScript
