import TemplateScript.Proofs.Finish.Source
import TemplateScript.Proofs.InOrder.Statement
import TemplateScript.Proofs.Source.Parsed

/-!
# Documents with statements in order

In a list of statements each one begins where its first token does, and is followed by a token that
begins further on. That holds of a mark for a statement that could not be read, too: at least one
token is skipped. A value to emit begins where the delimiter before it does, so making one of three
statements leaves the others in order. So whatever is wrong with a text, the statements in every list
of its tree begin one behind the other, in the file.
-/

namespace TemplateScript

namespace Grammar

open Parse

variable {source : List Glyph} {deep : Nested} {t u v : Token}

/-! ### Templates -/

theorem mixedText_yields : Yields source t mixedText (Stmt.ReadFrom source t) := by
  unfold mixedText
  exact .token_bind (.get_bind fun r _ _ => .next_bind fun u hu =>
    .pure ⟨⟨rfl, .leaf rfl rfl⟩, hu⟩)

theorem delimiter_yields :
    Yields source t delimiter fun d u => t.Before u ∧ d.pos = t.pos := by
  unfold delimiter
  exact .token_bind (.next_bind fun u hu => .pure ⟨hu, rfl⟩)

theorem mixedValue_yields (hdeep : deep.Yields source) :
    Yields source t (mixedValue deep) (Stmt.ReadFrom source t) := by
  unfold mixedValue
  refine delimiter_yields.bind fun opening u _ ⟨hu, hpos⟩ => .readFrom hu
    ((expr_yields hdeep).bind fun e v _ he => .seq skipSemicolons_built fun _ w _ =>
      .kind_bind ?_)
  split
  · exact delimiter_yields.bind fun closing x _ _ =>
      .pure ⟨hpos, .of_parts rfl (List.forall_mem_singleton.2 he.ordered)⟩
  · exact .get_bind fun r _ _ => .failExpected _

/-! ### Pragma lines -/

theorem abandonPragma_yields {α : Type} {promise : α → Token → Prop} :
    Yields source t (abandonPragma : Parse α) promise := by
  have hskip : Yields source t
      (loop () fun _ => do
        if ← atPragmaEnd then return .done ()
        else
          next
          return .again ()) fun _ _ => True := by
    refine .loop (fun _ _ => True) trivial fun _ u _ => .seq atPragmaEnd_built fun atEnd v _ => ?_
    split
    · exact .pure trivial
    · exact .next_bind fun w _ => .pure trivial
  exact hskip.bind fun _ u _ _ => .seq (accept_built _) fun _ v _ => .bail

theorem inPragma_yields {α : Type} {p : Parse α} {promise : α → Token → Prop}
    (hp : Yields source t p promise) : Yields source t (inPragma p) promise :=
  .attempt_bind hp (fun _ _ _ ha => .pure ha) fun _ _ => abandonPragma_yields

/-- All keys and values of a pragma line have their statements in order. -/
def PragmaOrdered (source : List Glyph) (read : PragmaLine) : Prop :=
  ∀ entry ∈ read.entries, ∀ e ∈ entry.parts, e.Ordered 0 (Glyph.widths source)

theorem pragmaEntry_yields (hdeep : deep.Yields source) {read : PragmaLine}
    (hread : PragmaOrdered source read) :
    Yields source t (pragmaEntry deep read) fun read _ => PragmaOrdered source read := by
  unfold pragmaEntry
  refine .seq (inPragma_built pragmaKey_built) fun key u _ => .seq (accept_built _)
    fun accepted v _ => .ite_bind
      (fun value _ => ∀ e ∈ value, e.Ordered 0 (Glyph.widths source))
      (fun _ => (inPragma_yields (unary_yields hdeep)).map fun _ e _ he => by simpa using he.ordered)
      (fun _ => .pure (by simp)) fun value w _ hvalue => ?_
  have hmore (options : PragmaOptions) :
      PragmaOrdered source ⟨read.entries ++ [⟨.ident key, value⟩], options⟩ := by
    refine List.forall_mem_append.2 ⟨hread, List.forall_mem_singleton.2 ?_⟩
    exact List.forall_mem_cons.2 ⟨.leaf rfl rfl, fun e he => hvalue e (Option.mem_toList.1 he)⟩
  dsimp only
  split
  · exact .pure (hmore _)
  · exact .errorAt_bind _ _ (.pure (hmore _))

theorem pragmaEntries_yields (hdeep : deep.Yields source) :
    Yields source t (pragmaEntries deep) fun read _ => PragmaOrdered source read := by
  unfold pragmaEntries
  refine .loop (fun read _ => PragmaOrdered source read) (List.forall_mem_nil _)
    fun read u hread => .seq atPragmaEnd_built fun atEnd v _ => ?_
  split
  · exact .pure hread
  · refine (pragmaEntry_yields hdeep hread).bind fun read w _ hread =>
      .seq (accept_built _) fun accepted x _ => ?_
    split
    · exact .pure hread
    · exact .pure hread

theorem pragma_yields (hdeep : deep.Yields source) :
    Yields source t (Grammar.pragma deep) (Stmt.ReadFrom source t) := by
  unfold Grammar.pragma
  refine .pos_bind (.next_bind fun u hu => .readFrom hu ((pragmaEntries_yields hdeep).bind
    fun read v _ hread => .pos_bind (.kind_bind ?_)))
  split
  · next hkind =>
    exact .apply_bind hkind _ (.next_bind fun w _ =>
      .pure ⟨rfl, .of_parts rfl (ordered_keyValues hread)⟩)
  · exact inPragma_yields (.failExpected _)

/-! ### Statements of any sort -/

theorem returnStmt_yields (hdeep : deep.Yields source) :
    Yields source t (returnStmt deep) (Stmt.ReadFrom source t) := by
  unfold returnStmt
  refine .pos_bind (.next_bind fun u hu => .readFrom hu (.atExprEnd_bind fun bare => .ite_bind
    (fun result _ => ∀ e ∈ result, e.Ordered 0 (Glyph.widths source)) (fun _ => .pure (by simp))
    (fun _ => (expr_yields hdeep).map fun _ e _ he => by simpa using he.ordered)
    fun result v _ hresult => .expectSemicolon_bind fun w _ => .pure ⟨rfl, .of_parts rfl ?_⟩))
  exact List.forall_mem_map.2 fun e he => hresult e (Option.mem_toList.1 he)

theorem branchStmt_yields : Yields source t branchStmt (Stmt.ReadFrom source t) := by
  unfold branchStmt
  exact .token_bind (.next_bind fun u hu => .readFrom hu (.expectSemicolon_bind fun v _ =>
    .pure ⟨rfl, .leaf rfl rfl⟩))

theorem stmt_yields (hdeep : deep.Yields source) :
    Yields source t (stmt deep) (Stmt.ReadFrom source t) := by
  unfold stmt
  refine .token_bind ?_
  split
  · unfold emptyStmt
    exact .token_bind (.next_bind fun u hu => .pure ⟨⟨rfl, .leaf rfl rfl⟩, hu⟩)
  · unfold blockStmt
    exact (block_yields hdeep).bind fun body u _ ⟨hu, hpos, hbody⟩ => .readFrom hu
      (.expectSemicolon_bind fun v _ => .pure ⟨hpos, Stmt.ordered_block hbody⟩)
  · exact ifStmt_yields hdeep
  · exact forStmt_yields hdeep
  · exact tryStmt_yields hdeep
  · unfold throwStmt
    exact .pos_bind (.next_bind fun u hu => .readFrom hu ((expr_yields hdeep).bind
      fun e v _ he => .expectSemicolon_bind fun w _ =>
        .pure ⟨rfl, .of_parts rfl (List.forall_mem_singleton.2 he.ordered)⟩))
  · exact returnStmt_yields hdeep
  · exact branchStmt_yields
  · exact branchStmt_yields
  · exact decl_yields hdeep
  · exact decl_yields hdeep
  · exact decl_yields hdeep
  · exact decl_yields hdeep
  · exact mixedText_yields
  · exact delimiter_yields.map fun _ _ _ ⟨hu, hpos⟩ => ⟨⟨hpos, .leaf rfl rfl⟩, hu⟩
  · exact delimiter_yields.map fun _ _ _ ⟨hu, hpos⟩ => ⟨⟨hpos, .leaf rfl rfl⟩, hu⟩
  · exact mixedValue_yields hdeep
  · exact pragma_yields hdeep
  · exact .failAt _ _
  · exact .failAt _ _
  · exact .failAt _ _
  · exact (simpleStmt_yields hdeep).bind fun s u _ hs => .expectSemicolon_bind fun v hv =>
      .pure ⟨hs.toBeginsAt, hs.before.then hv⟩

/-! ### Lists of statements -/

/-- A mark for a statement that could not be read begins where reading it began, and at least the
first token is skipped. -/
theorem skipStmt_yields {first : Token} (hfirst : first.UpTo t) :
    Yields source t (skipStmt first) (Stmt.ReadFrom source first) := by
  unfold skipStmt
  refine .seq resync_built fun _ u hu => .token_bind ?_
  have hfirst : first.UpTo u := hfirst.trans hu
  dsimp only
  split
  · exact .next_bind fun v hv => .pos_bind (.pure ⟨⟨rfl, .leaf rfl rfl⟩, hfirst.before hv⟩)
  · next hmoved =>
    have hbefore : first.Before u := hfirst.resolve_left fun hsame => hmoved (by simp [hsame])
    exact .pos_bind (.pure ⟨⟨rfl, .leaf rfl rfl⟩, hbefore⟩)

/-- Statements that were read one behind the other from a token on, the last one first, and the
token behind them. -/
structure Stacked (source : List Glyph) (t : Token) (list : List Stmt) (u : Token) : Prop where
  upTo : t.UpTo u
  ordered : list.Pairwise fun s s' => s'.pos < s.pos
  since : ∀ s ∈ list, t.kind ≠ .eof ∧ t.pos ≤ s.pos
  before : ∀ s ∈ list, u.kind = .eof ∨ s.pos < u.pos
  bounded : ∀ s ∈ list, s.pos ≤ Glyph.widths source
  within : ∀ s ∈ list, s.Ordered 0 (Glyph.widths source)

/-- A token that comes later does not begin before what an earlier one is behind. -/
theorem behind_upTo {pos : Pos} (h : t.kind = .eof ∨ pos < t.pos) (hu : t.UpTo u) :
    u.kind = .eof ∨ pos < u.pos := by
  rcases hu with rfl | heof | ⟨hne, hlt⟩
  · exact h
  · exact .inl heof
  · exact .inr (Nat.lt_trans (h.resolve_left hne) hlt)

namespace Stacked

variable {list : List Stmt} {s : Stmt}

theorem nil : Stacked source t [] t :=
  { upTo := .refl t
    ordered := .nil
    since := List.forall_mem_nil _
    before := List.forall_mem_nil _
    bounded := List.forall_mem_nil _
    within := List.forall_mem_nil _ }

/-- Another statement that was read. -/
theorem cons (h : Stacked source t list u) (hne : u.kind ≠ .eof)
    (hle : u.pos ≤ Glyph.widths source) (hs : s.ReadFrom source u v) :
    Stacked source t (s :: list) v := by
  have hpos : s.pos = u.pos := hs.pos_eq
  refine ⟨h.upTo.trans hs.before.upTo, List.pairwise_cons.2 ⟨fun s' hs' => ?_, h.ordered⟩,
    List.forall_mem_cons.2 ⟨?_, h.since⟩,
    List.forall_mem_cons.2 ⟨?_, fun s' hs' => behind_upTo (h.before s' hs') hs.before.upTo⟩,
    List.forall_mem_cons.2 ⟨hpos ▸ hle, h.bounded⟩, List.forall_mem_cons.2 ⟨hs.ordered, h.within⟩⟩
  · exact hpos ▸ (h.before s' hs').resolve_left hne
  · rw [hpos]
    rcases h.upTo with rfl | hbefore
    · exact ⟨hne, Nat.le_refl _⟩
    · obtain ⟨hkind, hlt⟩ := hbefore.resolve_left hne
      exact ⟨hkind, Nat.le_of_lt hlt⟩
  · rw [hpos]
    exact hs.before.imp_right And.right

/-- A lone expression between delimiters becomes a value to emit, which begins where the first
delimiter does. -/
theorem foldValue (h : Stacked source t list u) : Stacked source t (foldValue list) u := by
  unfold Grammar.foldValue
  split
  · next closing e opening before =>
    have htail {P : Stmt → Prop}
        (hP : ∀ s ∈ Stmt.codeEnd closing :: .expr e :: .codeBegin opening :: before, P s) :
        P (.codeBegin opening) ∧ ∀ s ∈ before, P s :=
      List.forall_mem_cons.1 (List.forall_mem_cons.1 (List.forall_mem_cons.1 hP).2).2
    have hordered := (List.pairwise_cons.1 (List.pairwise_cons.1 h.ordered).2).2
    have he : e.Ordered 0 (Glyph.widths source) :=
      Stmt.ordered_ofExpr (h.within _ (List.mem_cons_of_mem _ List.mem_cons_self))
    exact
      { upTo := h.upTo
        ordered := List.pairwise_cons.2 (List.pairwise_cons.1 hordered)
        since := List.forall_mem_cons.2 (htail h.since)
        before := List.forall_mem_cons.2 (htail h.before)
        bounded := List.forall_mem_cons.2 (htail h.bounded)
        within := List.forall_mem_cons.2
          ⟨.of_parts rfl (List.forall_mem_singleton.2 he), (htail h.within).2⟩ }
  · exact h

/-- As they stand in the source, the statements are in order. -/
theorem orderedStmts (h : Stacked source t list u) :
    OrderedStmts 0 (Glyph.widths source) list.reverse :=
  { ordered := List.pairwise_reverse.2 h.ordered
    lo_le := fun _ _ => Nat.zero_le _
    le_hi := fun s hs => h.bounded s (List.mem_reverse.1 hs)
    within := fun s hs => h.within s (List.mem_reverse.1 hs) }

end Stacked

theorem addStmt_yields {list : List Stmt} {s : Stmt} (h : Stacked source t (s :: list) u) :
    Yields source u (addStmt list s) fun list v => Stacked source t list v := by
  unfold addStmt
  split
  · refine .get_bind fun r _ _ => ?_
    split
    · exact .pure h.foldValue
    · exact .pure h
  · exact .pure h

/-- At the end of a file, the list of statements ends. -/
theorem atStmtsEnd_bind {α : Type} {inBlock : Bool} {q : Bool → Parse α}
    {last : α → Token → Prop} (hend : Yields source t (q true) last)
    (hmore : t.kind ≠ .eof → Yields source t (q false) last) :
    Yields source t (atStmtsEnd inBlock >>= q) last := by
  unfold atStmtsEnd
  rw [bind_assoc]
  refine .kind_bind ?_
  rw [bind_assoc]
  refine .isFull_bind fun full => ?_
  rw [pure_bind]
  generalize hends : (full || t.kind = .rbrace || t.kind = .eof ||
    (inBlock && t.kind = .elseWord) : Bool) = ends
  cases ends with
  | true => exact hend
  | false => exact hmore (by simp_all)

theorem stmts_yields (hdeep : deep.Yields source) (inBlock : Bool) :
    Yields source t (stmts deep inBlock) fun list u => Stacked source t list.reverse u := by
  unfold stmts
  refine .loop (fun list u => Stacked source t list u) .nil fun list u hlist =>
    atStmtsEnd_bind (.pure ?_) fun hne => .token_bind (.bounded fun hle =>
      .attempt_bind (stmt_yields hdeep) (fun s v _ hs => ?_) fun v hv => ?_)
  · change Stacked source t list.reverse.reverse u
    rwa [List.reverse_reverse]
  · exact (addStmt_yields (hlist.cons hne hle hs)).bind fun list w _ hlist => .pure hlist
  · exact (skipStmt_yields hv).bind fun s w _ hs => .pure (hlist.cons hne hle hs)

/-- Statements of a file, all before a token. -/
structure FileStmts (source : List Glyph) (list : List Stmt) (u : Token) : Prop
    extends OrderedStmts 0 (Glyph.widths source) list where
  before : ∀ s ∈ list, u.kind = .eof ∨ s.pos < u.pos

namespace FileStmts

variable {list more : List Stmt}

theorem upTo (h : FileStmts source list t) (hu : t.UpTo u) : FileStmts source list u :=
  { h with before := fun s hs => behind_upTo (h.before s hs) hu }

theorem append (h : FileStmts source list t) (hmore : Stacked source t more.reverse u) :
    FileStmts source (list ++ more) u := by
  have hordered := hmore.orderedStmts
  rw [List.reverse_reverse] at hordered
  have hcross : ∀ s ∈ list, ∀ s' ∈ more, s.pos < s'.pos := by
    intro s hs s' hs'
    obtain ⟨hne, hle⟩ := hmore.since s' (List.mem_reverse.2 hs')
    exact Nat.lt_of_lt_of_le ((h.before s hs).resolve_left hne) hle
  exact
    { ordered := List.pairwise_append.2 ⟨h.ordered, hordered.ordered, hcross⟩
      lo_le := fun _ _ => Nat.zero_le _
      le_hi := List.forall_mem_append.2 ⟨h.le_hi, hordered.le_hi⟩
      within := List.forall_mem_append.2 ⟨h.within, hordered.within⟩
      before := List.forall_mem_append.2 ⟨(h.upTo hmore.upTo).before,
        fun s hs => hmore.before s (List.mem_reverse.2 hs)⟩ }

end FileStmts

theorem file_yields (hdeep : deep.Yields source) :
    Yields source t (file deep) fun list _ => OrderedStmts 0 (Glyph.widths source) list := by
  unfold file
  refine .loop (fun list u => FileStmts source list u)
    ⟨⟨⟨.nil, List.forall_mem_nil _, List.forall_mem_nil _⟩, List.forall_mem_nil _⟩,
      List.forall_mem_nil _⟩
    fun list u hlist => (stmts_yields hdeep false).bind fun more v _ hmore => .pos_bind
      (.isFull_bind fun full => .kind_bind ?_)
  have hall : FileStmts source (list ++ more) v := hlist.append hmore
  split
  · exact .pure hall.toOrderedStmts
  · exact .errorAt_bind _ _ (.next_bind fun w hw => .seq (accept_built _) fun _ x hx =>
      .pure (hall.upTo (hw.upTo.trans hx)))

end Grammar

/-! ### Depth -/

namespace Nested

variable {source : List Glyph}

theorem yields_none : none.Yields source where
  expr _ := .fault
  binary _ _ := .fault
  unary _ := .fault
  stmts _ := .fault
  ifStmt _ := .fault

/-- However deep phrases nest, they keep statements in order. -/
theorem yields_ofDepth (depth : Nat) : (ofDepth depth).Yields source := by
  induction depth with
  | zero => exact yields_none
  | succ depth ih => exact
    { expr := fun _ => (Grammar.expr_yields ih).promised fun _ _ _ h => h.ordered
      binary := fun least _ => (Grammar.binary_yields ih least).promised fun _ _ _ h => h.ordered
      unary := fun _ => (Grammar.unary_yields ih).promised fun _ _ _ h => h.ordered
      stmts := fun _ => (Grammar.stmts_yields ih true).promised fun list _ _ h => by
        simpa only [List.reverse_reverse] using h.orderedStmts
      ifStmt := fun _ => (Grammar.ifStmt_yields ih).promised fun _ _ _ h => h.ordered }

end Nested

/-! ### Sources -/

open Parse

/-- From the start of a text on, statements are read in order. -/
theorem Parse.source_inOrder {source : List Glyph} {r later : Reader} {floor : Nat}
    {stmts : List Stmt} (hahead : r.cursor.Ahead floor) (hin : r.InSource source)
    (hstrict : r.cursor.Strict) (h : Parse.source r = .ok stmts later) :
    OrderedStmts 0 (Glyph.widths source) stmts := by
  obtain ⟨_, first, hnext, hfile⟩ := bind_run_eq_ok.1 h
  obtain ⟨hsharp, -⟩ := Reader.sharp_nextWithin hahead hin hstrict hnext
  have hfiled : Yields source first.token
      (get >>= fun r => Grammar.file (Nested.ofDepth r.bound)) fun list _ =>
        OrderedStmts 0 (Glyph.widths source) list :=
    .get_bind fun r _ _ => Grammar.file_yields (Nested.yields_ofDepth r.bound)
  have hread := hfiled first hsharp rfl
  rw [hfile] at hread
  exact hread.2.2

/-- Every text has a tree, in which the statements of every list begin one behind the other, in the
file. -/
theorem FileSet.parse_inOrder (set : FileSet) (name text : String) (options : ParseOptions) :
    ∃ parsed later, set.parse name (Glyph.ofBytes (utf8 text)) options = .ok (parsed, later) ∧
      OrderedStmts set.base (set.base + (utf8 text).length) parsed.document.stmts := by
  let glyphs := Glyph.ofBytes (utf8 text)
  have hglyphs : glyphs = Glyph.ofText text := Glyph.ofBytes_toUTF8 text
  have hwidths : Glyph.widths glyphs = (utf8 text).length := Glyph.widths_ofBytes (utf8 text)
  let file := set.newFile name glyphs
  let cursor := Cursor.start file options.scan glyphs
  have hsound : cursor.Sound glyphs := Cursor.sound_bytes (.inl ⟨text, rfl⟩) hwidths rfl
  obtain ⟨stmts, r, -, hrun, -⟩ :=
    Parse.source_finishes (SourceFile.ready_reader hsound options.maxErrors)
  obtain ⟨later, hparse⟩ := parse_eq_ok_iff_source.2 ⟨stmts, r, hrun, rfl⟩
  refine ⟨_, later, hparse, ?_⟩
  have hahead : cursor.Ahead cursor.offset := by
    refine Cursor.ahead_start file options.scan fun g hg => ?_
    rw [hglyphs] at hg
    obtain ⟨ch, -, rfl⟩ := List.mem_map.1 hg
    exact ⟨ch, rfl⟩
  have hin : (SourceFile.reader cursor options.maxErrors).InSource glyphs :=
    ⟨Cursor.inSource_start rfl rfl, Cursor.poolPlaced_start _ _ _, Nat.le_refl _⟩
  have hstrict : cursor.Strict := Cursor.strict_start file options.scan glyphs
  have hlocal := Parse.source_inOrder hahead hin hstrict hrun
  have hshifted := hlocal.shift (n := set.base)
  rw [Nat.zero_add, hwidths, Nat.add_comm] at hshifted
  exact hshifted

/-- A mark for what could not be read, two semicolons, a mark for the parenthesis, and a statement
with a block. -/
example : (FileSet.parse {} "main" (Glyph.ofText "a b # c\n;;) \nx := func() \x7b y z\nw \x7d // d\n")
    { scan := { comments := true } }).toOption.map (·.1.document.stmts.map Stmt.pos) =
      some [1, 9, 10, 11, 14] := by
  decide +kernel

end TemplateScript
