import TemplateScript.Proofs.Built.Document
import TemplateScript.Proofs.Extent.Statement

/-!
# Extents of documents

Statements stand one behind the other, so that two delimiters with an expression between them make
one statement that lies where they do. A mark for a statement that could not be read promises
nothing, but behind it there is a diagnostic.
-/

namespace TemplateScript

namespace Grammar

open Parse

variable {given : Prop} {deep : Nested} {t : Token}

/-! ### Templates -/

theorem mixedText_covers (hkind : t.kind = .text) :
    Covers given t mixedText fun s u => s.Within t.pos u.pos := by
  have hwritten : t.isWritten = true := Token.isWritten_of_kind (by simp [hkind])
    (by simp [hkind]) (by simp [hkind])
  unfold mixedText
  exact .token_bind (.get_bind fun r => .next_bind fun u hu => .pure fun _ =>
    .leaf rfl (Nat.le_refl _) (Nat.le_add_right ..) (hu.literal_le hwritten))

theorem delimiter_covers (hkind : t.kind ∈ [.codeBegin, .codeEnd, .valueBegin, .valueEnd]) :
    Covers given t delimiter fun d u => d.pos = t.pos ∧ d.stop ≤ u.pos := by
  have hno : ∀ kind ∈ [Token.Kind.codeBegin, .codeEnd, .valueBegin, .valueEnd],
      kind ≠ .semicolon ∧ kind ≠ .pragmaEnd ∧ kind ≠ .eof := by decide
  obtain ⟨hsemicolon, hends, heof⟩ := hno _ hkind
  unfold delimiter
  exact .token_bind (.next_bind fun u hu => .pure fun _ =>
    ⟨rfl, hu.literal_le (Token.isWritten_of_kind hsemicolon hends heof)⟩)

/-- A value to emit lies where its delimiters do. -/
theorem within_mixedValue {opening closing : Delimiter} {e : Expr} {lo mid hi : Pos}
    (hlo : lo ≤ opening.pos) (he : e.Within mid closing.pos) (hmid : opening.pos ≤ mid)
    (hhi : closing.stop ≤ hi) : (Stmt.mixedValue opening e closing).Within lo hi :=
  .closed hlo (Nat.le_trans hmid (Nat.le_trans he.lo_le he.pos_le)) (Nat.le_add_right ..) hhi
    (List.forall_mem_singleton.2 (he.since hmid).anywhere)

theorem mixedValue_covers (hdeep : deep.Covers) (hkind : t.kind = .valueBegin) :
    Covers given t (mixedValue deep) fun s u => s.Within t.pos u.pos := by
  unfold mixedValue
  refine (delimiter_covers (by simp [hkind])).bind fun opening u hu => (expr_covers hdeep).bind
    fun e v hv => Covers.skipSemicolons.bind fun _ w hw => .kind_bind ?_
  split
  · next hclose =>
    refine (delimiter_covers (by simp [hclose])).bind fun closing x hx => .pure ?_
    rintro ⟨⟨hclosing, hend⟩, -, he, ⟨hopening, hstop⟩, -⟩
    have hbegin : opening.pos ≤ u.pos := hopening ▸ hu
    exact within_mixedValue (Nat.le_of_eq hopening.symm) (hclosing ▸ he.upTo hw) hbegin hend
  · exact .get_bind fun r => .failExpected _

/-! ### Pragma lines -/

theorem atPragmaEnd_covers : Covers given t atPragmaEnd fun _ _ => True :=
  .kind_bind (.pure fun _ => trivial)

theorem inPragma_covers {α : Type} {p : Parse α} {promise : α → Token → Prop}
    (hp : Covers given t p promise) : Covers given t (inPragma p) promise :=
  .attempt_bind hp (fun _ _ _ => .pure And.left) abandonPragma_built

theorem pragmaKey_covers :
    Covers given t pragmaKey fun key u => key.pos = t.pos ∧ key.stop ≤ u.pos := by
  have hno : ∀ kind ∈ .ident :: Token.Kind.keywords,
      kind ≠ .semicolon ∧ kind ≠ .pragmaEnd ∧ kind ≠ .eof := by decide
  unfold pragmaKey
  refine .token_bind ?_
  split
  · next hkind =>
    have hmem : t.kind ∈ .ident :: Token.Kind.keywords := by
      simpa [Token.Kind.isKeyword, List.contains_iff_mem] using hkind
    obtain ⟨hsemicolon, hends, heof⟩ := hno _ hmem
    exact .next_bind fun u hu => .pure fun _ =>
      ⟨rfl, hu.text_le (Token.isWritten_of_kind hsemicolon hends heof)⟩
  · exact .failExpected _

/-- The keys and values of a pragma line lie in a range. -/
def EntriesWithin (lo hi : Pos) (list : List (KeyValue Expr)) : Prop :=
  ∀ entry ∈ list, KeyValueWithin lo hi entry

theorem EntriesWithin.withEntry {lo mid hi : Pos} {list : List (KeyValue Expr)}
    (h : EntriesWithin lo mid list) (hmid : mid ≤ hi) {key : Ident} (hlo : lo ≤ key.pos)
    (hkey : key.stop ≤ hi) {value : Option Expr} (hvalue : ∀ e ∈ value, e.Within lo hi) :
    EntriesWithin lo hi (list ++ [⟨.ident key, value⟩]) := by
  have hname : (Expr.ident key).Within lo hi := .leaf rfl hlo (Nat.le_add_right ..) hkey
  refine List.forall_mem_append.2 ⟨fun entry hentry => (h entry hentry).mono (Nat.le_refl _) hmid,
    List.forall_mem_singleton.2 (List.forall_mem_cons.2 ⟨hname, fun e he => ?_⟩)⟩
  exact hvalue e (Option.mem_toList.1 he)

theorem pragmaEntry_covers (hdeep : deep.Covers) {lo : Pos} (hlo : lo ≤ t.pos)
    (read : PragmaLine) :
    Covers (EntriesWithin lo t.pos read.entries ∧ given) t (pragmaEntry deep read)
      fun read u => EntriesWithin lo u.pos read.entries := by
  unfold pragmaEntry
  refine (inPragma_covers pragmaKey_covers).bind fun key u hu => (Covers.accept _).bind
    fun accepted v hv => ?_
  refine .ite_bind (fun value w => ∀ e ∈ value, e.Within v.pos w.pos)
    (fun _ => (inPragma_covers (unary_covers hdeep)).map fun _ _ w _ he => by simpa using he)
    (fun _ => .pure fun _ => by simp) fun value w hw => ?_
  have hbegin := Nat.le_trans hlo (Nat.le_trans hu hv)
  have hend := Nat.le_trans hv hw
  dsimp only
  split
  · refine .pure ?_
    rintro ⟨hvalue, -, ⟨hkey, hstop⟩, hread, -⟩
    exact hread.withEntry (Nat.le_trans hu hend) (hkey ▸ hlo) (Nat.le_trans hstop hend)
      fun e he => (hvalue e he).since hbegin
  · exact (Covers.errorAt _ _).bind fun _ _ _ => .pure fun h => h.1.elim

theorem pragmaEntries_covers (hdeep : deep.Covers) :
    Covers given t (pragmaEntries deep) fun read u => EntriesWithin t.pos u.pos read.entries := by
  unfold pragmaEntries
  refine .loop (fun (read : PragmaLine) u => EntriesWithin t.pos u.pos read.entries)
    (fun _ => nofun) fun read u hu => atPragmaEnd_covers.bind fun atEnd v hv => ?_
  have hmono {list : List (KeyValue Expr)} {lo mid hi : Pos} (hhi : mid ≤ hi)
      (h : EntriesWithin lo mid list) : EntriesWithin lo hi list :=
    fun entry hentry => (h entry hentry).mono (Nat.le_refl _) hhi
  split
  · exact .pure fun h => hmono hv h.2.1
  · refine ((pragmaEntry_covers hdeep (Nat.le_trans hu hv) read).weaken fun h =>
      ⟨hmono hv h.2.1, trivial⟩).bind fun read w _ => (Covers.accept _).bind
        fun accepted x hx => ?_
    split
    · exact .pure fun h => hmono hx h.2.1
    · exact .pure fun h => hmono hx h.2.1

theorem pragma_covers (hdeep : deep.Covers) :
    Covers given t (Grammar.pragma deep) fun s u => s.Within t.pos u.pos := by
  unfold Grammar.pragma
  refine .pos_bind (.next_bind fun u hu => (pragmaEntries_covers hdeep).bind fun read v hv =>
    .pos_bind (.kind_bind ?_))
  split
  · refine .apply_bind read.options (.next_bind fun w hw => .pure ?_)
    rintro ⟨hread, -⟩
    refine .closed (Nat.le_refl _) (Nat.le_trans hu.le hv) (Nat.le_refl _) hw.le fun m hm => ?_
    exact ((within_keyValues hread m hm).since hu.le).anywhere
  · exact inPragma_covers (.failExpected _)

/-! ### Statements of any sort -/

theorem emptyStmt_covers (hkind : t.kind = .semicolon) :
    Covers given t emptyStmt fun s u => s.Within t.pos u.pos := by
  unfold emptyStmt
  refine .token_bind (.next_bind fun u hu => .pure fun _ => ?_)
  cases hinserted : t.flags.inserted with
  | true => exact .leaf rfl (Nat.le_refl _) (Nat.le_refl _) hu.le
  | false =>
    have hwritten : t.isWritten = true := by
      simp [Token.isWritten, Token.isInsertedSemicolon, hkind, hinserted]
    have hspelled := hu.legible.isSpelled (.inr (by rw [hkind]; decide))
    rw [hkind] at hspelled
    exact .leaf rfl (Nat.le_refl _) (Nat.le_succ _)
      (Nat.le_trans (Nat.add_le_add_left hspelled _) (hu.text_le hwritten))

theorem throwStmt_covers (hdeep : deep.Covers) :
    Covers given t (throwStmt deep) fun s u => s.Within t.pos u.pos := by
  unfold throwStmt
  refine .pos_bind (.next_bind fun u hu => (expr_covers hdeep).bind fun e v hv =>
    .expectSemicolon_bind fun w hw => .pure ?_)
  rintro ⟨he, -⟩
  exact .ending (.expr e) (Nat.le_refl _) rfl List.mem_cons_self (he.mono hu.le hw)
    (List.forall_mem_singleton.2 (.inl rfl))

theorem returnStmt_covers (hdeep : deep.Covers) (hkind : t.kind = .returnWord) :
    Covers given t (returnStmt deep) fun s u => s.Within t.pos u.pos := by
  unfold returnStmt
  refine .pos_bind (.next_bind fun u hu => .atExprEnd_bind fun bare => ?_)
  refine .ite_bind (fun result v => ∀ e ∈ result, e.Within u.pos v.pos)
    (fun _ => .pure fun _ => by simp)
    (fun _ => (expr_covers hdeep).map fun _ _ v _ he => by simpa using he)
    fun result v hv => .expectSemicolon_bind fun w hw => .pure ?_
  rintro ⟨hresult, -⟩
  cases result with
  | none =>
    exact .leaf rfl (Nat.le_refl _) (Nat.le_add_right ..)
      (Nat.le_trans (hu.spelling_le hkind rfl) (Nat.le_trans hv hw))
  | some e =>
    exact .ending (.expr e) (Nat.le_refl _) rfl List.mem_cons_self
      ((hresult e rfl).mono hu.le hw) (List.forall_mem_singleton.2 (.inl rfl))

theorem branchStmt_covers (hkind : t.kind.isFixed = true) :
    Covers given t branchStmt fun s u => s.Within t.pos u.pos := by
  unfold branchStmt
  exact .token_bind (.next_bind fun u hu => .expectSemicolon_bind fun v hv => .pure fun _ =>
    .leaf rfl (Nat.le_refl _) (Nat.le_add_right ..) (Nat.le_trans (hu.spelling_le rfl hkind) hv))

theorem stmt_covers (hdeep : deep.Covers) :
    Covers given t (stmt deep) fun s u => s.Within t.pos u.pos := by
  unfold stmt
  refine .token_bind ?_
  split
  · next hkind => exact emptyStmt_covers hkind
  · unfold blockStmt
    exact (block_covers hdeep).bind fun body u hu => .expectSemicolon_bind fun v hv => .pure
      fun h => Stmt.within_block (h.1.mono (Nat.le_refl _) hv)
  · exact ifStmt_covers hdeep
  · exact forStmt_covers hdeep
  · exact tryStmt_covers hdeep
  · exact throwStmt_covers hdeep
  · next hkind => exact returnStmt_covers hdeep hkind
  · next hkind => exact branchStmt_covers (by rw [hkind]; rfl)
  · next hkind => exact branchStmt_covers (by rw [hkind]; rfl)
  · exact decl_covers hdeep
  · exact decl_covers hdeep
  · exact decl_covers hdeep
  · exact decl_covers hdeep
  · next hkind => exact mixedText_covers hkind
  · next hkind =>
    exact (delimiter_covers (by simp [hkind])).map fun _ d u _ ⟨hpos, hstop⟩ =>
      .leaf rfl (Nat.le_of_eq hpos.symm) (Nat.le_add_right ..) hstop
  · next hkind =>
    exact (delimiter_covers (by simp [hkind])).map fun _ d u _ ⟨hpos, hstop⟩ =>
      .leaf rfl (Nat.le_of_eq hpos.symm) (Nat.le_add_right ..) hstop
  · next hkind => exact mixedValue_covers hdeep hkind
  · exact pragma_covers hdeep
  · exact .failAt _ _
  · exact .failAt _ _
  · exact .failAt _ _
  · exact (simpleStmt_covers hdeep).bind fun s u hu => .expectSemicolon_bind fun v hv => .pure
      fun h => h.1.upTo hv

/-! ### Lists of statements -/

/-- Statements stand one behind the other, the last one first in the list. -/
def StmtsWithin (lo hi : Pos) (list : List Stmt) : Prop :=
  Node.Row lo hi (list.reverse.map .stmt)

theorem stmtsWithin_cons {lo hi : Pos} {s : Stmt} {list : List Stmt} :
    StmtsWithin lo hi (s :: list) ↔ ∃ mid, StmtsWithin lo mid list ∧ s.Within mid hi := by
  unfold StmtsWithin
  rw [List.reverse_cons, List.map_append, List.map_cons, List.map_nil]
  exact Node.Row.snoc_iff

/-- A lone expression between delimiters becomes a value to emit, which lies where they do. -/
theorem StmtsWithin.foldValue {lo hi : Pos} {list : List Stmt} (h : StmtsWithin lo hi list) :
    StmtsWithin lo hi (foldValue list) := by
  unfold Grammar.foldValue
  split
  · next closing e opening before =>
    obtain ⟨c, h, hclosing⟩ := stmtsWithin_cons.1 h
    obtain ⟨b, h, he⟩ := stmtsWithin_cons.1 h
    obtain ⟨a, hbefore, hopening⟩ := stmtsWithin_cons.1 h
    have hend : closing.stop ≤ hi :=
      (hclosing.lies 0 (.inr ⟨trivial, .intro trivial (List.forall_mem_nil _)⟩)).here.stop_le
    exact stmtsWithin_cons.2 ⟨a, hbefore, within_mixedValue hopening.lo_le
      ((Stmt.Within.ofExpr he).upTo hclosing.lo_le) hopening.pos_le hend⟩
  · exact h

theorem addStmt_covers {lo : Pos} (list : List Stmt) (s : Stmt) :
    Covers (StmtsWithin lo t.pos (s :: list)) t (addStmt list s)
      fun list u => StmtsWithin lo u.pos list := by
  unfold addStmt
  split
  · refine .get_bind fun r => ?_
    split
    · exact .pure StmtsWithin.foldValue
    · exact .pure id
  · exact .pure id

theorem atStmtsEnd_covers (inBlock : Bool) :
    Covers given t (atStmtsEnd inBlock) fun _ _ => True :=
  .kind_bind (.isFull_bind (.pure fun _ => trivial) (.pure fun _ => trivial))

theorem stmts_covers (hdeep : deep.Covers) (inBlock : Bool) :
    Covers given t (stmts deep inBlock) fun list u => ∀ s ∈ list, s.Within t.pos u.pos := by
  unfold stmts
  refine .loop (fun list u => StmtsWithin t.pos u.pos list) (fun _ => Nat.le_refl _)
    fun list u _ => (atStmtsEnd_covers inBlock).bind fun atEnd v hv => ?_
  split
  · refine .pure fun h s hs => ?_
    exact (h.2.1.within _ (List.mem_map_of_mem hs)).upTo hv
  · refine .token_bind (.attempt_bind (stmt_covers hdeep) (fun s w _ => ?_)
      (.bind (skipStmt_built v) fun _ => .pure (by simp)))
    refine ((addStmt_covers list s).weaken ?_).bind fun list x _ => .pure And.left
    rintro ⟨hs, -, hlist, -⟩
    exact stmtsWithin_cons.2 ⟨v.pos, hlist.mono (Nat.le_refl _) hv, hs⟩

theorem file_covers (hdeep : deep.Covers) :
    Covers given t (file deep) fun list u => ∀ s ∈ list, s.Within t.pos u.pos := by
  unfold file
  refine .loop_kept (fun (list : List Stmt) u => ∀ s ∈ list, s.Within t.pos u.pos)
    (fun _ => List.forall_mem_nil _) fun list u hu => (stmts_covers hdeep false).bind
      fun more v hv => .pos_bind ?_
  have hall : (∀ s ∈ more, s.Within u.pos v.pos) → (∀ s ∈ list, s.Within t.pos u.pos) →
      ∀ s ∈ list ++ more, s.Within t.pos v.pos := fun hmore hlist =>
    List.forall_mem_append.2 ⟨fun s hs => (hlist s hs).upTo hv, fun s hs => (hmore s hs).since hu⟩
  refine .isFull_bind (.kind_bind (.pure False.elim)) (.kind_bind ?_)
  split
  · exact .pure fun ⟨hmore, hlist, _⟩ => hall hmore hlist
  · exact (Covers.errorAt _ _).bind fun _ _ _ => .next_bind fun _ _ => (Covers.accept _).bind
      fun _ _ _ => .pure fun h => h.2.1.elim

end Grammar

/-! ### Depth -/

namespace Nested

theorem covers_none : none.Covers where
  expr _ := .fault
  binary _ _ := .fault
  unary _ := .fault
  stmts _ := .fault
  ifStmt _ := .fault

/-- However deep phrases nest, they keep what they promise. -/
theorem covers_ofDepth (depth : Nat) : (ofDepth depth).Covers := by
  induction depth with
  | zero => exact covers_none
  | succ depth ih => exact
    { expr := fun _ => Grammar.expr_covers ih
      binary := fun least _ => Grammar.binary_covers ih least
      unary := fun _ => Grammar.unary_covers ih
      stmts := fun _ => Grammar.stmts_covers ih true
      ifStmt := fun _ => Grammar.ifStmt_covers ih }

end Nested

end TemplateScript
