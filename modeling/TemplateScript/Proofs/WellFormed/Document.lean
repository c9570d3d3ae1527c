import TemplateScript.Proofs.WellFormed.Statement

/-!
# Well-formed documents

A source in which nothing is found wrong has a well-formed tree. A mark for a statement that could
not be read is only made after a diagnostic was recorded, and no diagnostic is ever lost, so the
lists of statements keep what statements promise.
-/

namespace TemplateScript

namespace Grammar

open Parse

variable {source : List Glyph} {given : Prop} {deep : Nested}

/-! ### Templates -/

theorem mixedText_accounts :
    Accounts source given mixedText (Stmt.WellFormed (Glyph.lineOf source)) := by
  unfold mixedText
  exact token_accounts.bind fun token => .bind .get fun r => next_accounts.bind fun _ =>
    .pure fun _ => .leaf trivial rfl

theorem delimiter_accounts : Accounts source given delimiter fun _ => True := by
  unfold delimiter
  exact token_accounts.bind fun token => next_accounts.bind fun _ => .pure fun _ => trivial

theorem mixedValue_accounts (hdeep : deep.Accounts source) :
    Accounts source given (mixedValue deep) (Stmt.WellFormed (Glyph.lineOf source)) := by
  unfold mixedValue
  refine delimiter_accounts.bind fun opening => (expr_accounts hdeep).bind fun e =>
    skipSemicolons_accounts.bind fun _ => kind_accounts.bind fun kind => ?_
  split
  · exact delimiter_accounts.bind fun closing => .pure fun ⟨_, _, _, he, _⟩ =>
      .intro trivial (List.forall_mem_singleton.2 he)
  · exact .bind .get fun r => failExpected_accounts _

/-! ### Pragma lines -/

theorem atPragmaEnd_accounts : Accounts source given atPragmaEnd fun _ => True :=
  kind_accounts.bind fun _ => .pure fun _ => trivial

/-- A pragma line is abandoned after the reason was recorded. -/
theorem abandonPragma_accounted {α : Type} {promise : α → Prop} {r : Reader}
    (hr : r.InSource source) (herrors : r.errors ≠ []) :
    Accounted source r promise (abandonPragma r) := by
  have hskip : Accounts source True
      (loop () fun _ => do
        if ← atPragmaEnd then return .done ()
        else
          next
          return .again ()) fun _ => True := by
    refine .loop (fun _ => True) (fun _ => trivial) fun _ => ?_
    refine atPragmaEnd_accounts.bind fun atEnd => ?_
    split
    · exact .pure fun _ => trivial
    · exact next_accounts.bind fun _ => .pure fun _ => trivial
  refine (hskip.run hr).bind fun _ r₁ h₁ =>
    ((accept_accounts _).run h₁.inSource).bind fun _ r₂ h₂ => ?_
  exact ⟨.refl h₂.inSource, h₂.errors (h₁.errors herrors)⟩

theorem inPragma_accounts {α : Type} {p : Parse α} {promise : α → Prop}
    (hp : Accounts source given p promise) : Accounts source given (inPragma p) promise := by
  intro r hr
  have hrun := hp r hr
  unfold inPragma
  rw [bind_run]
  unfold attempt
  cases hpr : p r with
  | ok a r' =>
    rw [hpr] at hrun
    exact hrun
  | error e r' =>
    rw [hpr] at hrun
    cases e with
    | bail => exact (abandonPragma_accounted hrun.1.inSource hrun.2).after hrun.1
    | fault f => trivial

theorem pragmaKey_accounts : Accounts source given pragmaKey fun _ => True := by
  unfold pragmaKey
  refine token_accounts.bind fun token => ?_
  split
  · exact next_accounts.bind fun _ => .pure fun _ => trivial
  · exact failExpected_accounts _

/-- All keys and values of a pragma line are well formed. -/
def PragmaLine.WellFormed (line : Pos → Nat) (read : PragmaLine) : Prop :=
  ∀ e ∈ read.entries.flatMap KeyValue.parts, e.WellFormed line

theorem PragmaLine.WellFormed.withEntry {line : Pos → Nat} {read : PragmaLine}
    (h : read.WellFormed line) (key : Ident) {value : Option Expr}
    (hvalue : ∀ e ∈ value, e.WellFormed line) (options : PragmaOptions) :
    PragmaLine.WellFormed line ⟨read.entries ++ [⟨.ident key, value⟩], options⟩ := by
  intro e he
  simp only [List.flatMap_append, List.flatMap_singleton, KeyValue.parts, List.mem_append,
    List.mem_cons, Option.mem_toList] at he
  rcases he with he | rfl | he
  · exact h e he
  · exact Expr.wellFormed_ident key
  · exact hvalue e he

theorem pragmaEntry_accounts (hdeep : deep.Accounts source) (read : PragmaLine) :
    Accounts source (read.WellFormed (Glyph.lineOf source) ∧ given) (pragmaEntry deep read)
      (PragmaLine.WellFormed (Glyph.lineOf source)) := by
  unfold pragmaEntry
  refine (inPragma_accounts pragmaKey_accounts).bind fun key => (accept_accounts _).bind
    fun accepted => ?_
  refine .ite_bind (fun value => ∀ e ∈ value, e.WellFormed (Glyph.lineOf source))
    ((inPragma_accounts (unary_accounts hdeep)).map fun _ e he => by simpa using he)
    (.pure fun _ => by simp) fun value => ?_
  dsimp only
  split
  · exact .pure fun ⟨hvalue, _, _, hread, _⟩ => hread.withEntry key hvalue _
  · exact (errorAt_accounts _ _).bind fun _ => .pure fun h => h.1.elim

theorem pragmaEntries_accounts (hdeep : deep.Accounts source) :
    Accounts source given (pragmaEntries deep) (PragmaLine.WellFormed (Glyph.lineOf source)) := by
  unfold pragmaEntries
  refine .loop (PragmaLine.WellFormed (Glyph.lineOf source))
    (fun _ e he => by simp at he) fun read => ?_
  refine atPragmaEnd_accounts.bind fun atEnd => ?_
  split
  · exact .pure fun h => h.2.1
  · refine ((pragmaEntry_accounts hdeep read).weaken fun h => h.2).bind fun read' =>
      (accept_accounts _).bind fun accepted => ?_
    split
    · exact .pure fun h => h.2.1
    · exact .pure fun h => h.2.1

theorem apply_accounts (options : PragmaOptions) :
    Accounts source given (modify fun r => { r with cursor := r.cursor.apply options } : Parse PUnit)
      fun _ => True :=
  fun _ hr => ⟨(Reader.Steps.refl.apply options).leads hr, fun _ _ => trivial⟩

theorem pragma_accounts (hdeep : deep.Accounts source) :
    Accounts source given (Grammar.pragma deep) (Stmt.WellFormed (Glyph.lineOf source)) := by
  unfold Grammar.pragma
  refine pos_accounts.bind fun start => next_accounts.bind fun _ =>
    (pragmaEntries_accounts hdeep).bind fun read => pos_accounts.bind fun last =>
      kind_accounts.bind fun kind => ?_
  split
  · exact (apply_accounts read.options).bind fun _ => next_accounts.bind fun _ => .pure
      fun ⟨_, _, _, _, hread, _⟩ => .intro trivial (Node.everywhere_exprs hread)
  · exact inPragma_accounts (failExpected_accounts _)

/-! ### Statements of any sort -/

theorem branchStmt_accounts :
    Accounts source given branchStmt (Stmt.WellFormed (Glyph.lineOf source)) := by
  unfold branchStmt
  exact token_accounts.bind fun token => next_accounts.bind fun _ =>
    expectSemicolon_accounts.bind fun _ => .pure fun _ => .leaf trivial rfl

theorem stmt_accounts (hdeep : deep.Accounts source) :
    Accounts source given (stmt deep) (Stmt.WellFormed (Glyph.lineOf source)) := by
  unfold stmt
  refine token_accounts.bind fun token => ?_
  split
  · unfold emptyStmt
    exact token_accounts.bind fun token => next_accounts.bind fun _ => .pure fun _ =>
      .leaf trivial rfl
  · unfold blockStmt
    exact (block_accounts hdeep).bind fun body => expectSemicolon_accounts.bind fun _ => .pure
      fun ⟨_, hbody, _⟩ => Stmt.wellFormed_block hbody
  · exact ifStmt_accounts hdeep
  · exact forStmt_accounts hdeep
  · exact tryStmt_accounts hdeep
  · unfold throwStmt
    exact pos_accounts.bind fun pos => next_accounts.bind fun _ => (expr_accounts hdeep).bind
      fun e => expectSemicolon_accounts.bind fun _ => .pure
        fun ⟨_, he, _⟩ => .intro trivial (List.forall_mem_singleton.2 he)
  · unfold returnStmt
    refine pos_accounts.bind fun pos => next_accounts.bind fun _ => atExprEnd_accounts.bind
      fun bare => ?_
    refine .ite_bind (fun result => ∀ e ∈ result, e.WellFormed (Glyph.lineOf source))
      (.pure fun _ => by simp) ((expr_accounts hdeep).map fun _ e he => by simpa using he)
      fun result => expectSemicolon_accounts.bind fun _ => .pure ?_
    rintro ⟨-, hresult, -⟩
    exact .intro trivial (List.forall_mem_map.2 fun e he => hresult e (Option.mem_toList.1 he))
  · exact branchStmt_accounts
  · exact branchStmt_accounts
  · exact decl_accounts hdeep
  · exact decl_accounts hdeep
  · exact decl_accounts hdeep
  · exact decl_accounts hdeep
  · exact mixedText_accounts
  · exact delimiter_accounts.map fun _ _ _ => .leaf trivial rfl
  · exact delimiter_accounts.map fun _ _ _ => .leaf trivial rfl
  · exact mixedValue_accounts hdeep
  · exact pragma_accounts hdeep
  · exact failAt_accounts _ _
  · exact failAt_accounts _ _
  · exact failAt_accounts _ _
  · exact (simpleStmt_accounts hdeep).bind fun s => expectSemicolon_accounts.bind fun _ =>
      .pure fun ⟨_, hs, _⟩ => hs

/-! ### Lists of statements -/

theorem resync_accounts : Accounts source given resync fun _ => True := by
  unfold resync
  refine pos_accounts.bind fun start => .loop (fun _ => True) (fun _ => trivial) fun depth => ?_
  refine token_accounts.bind fun token => isFull_accounts.bind fun full => ?_
  split
  · exact .pure fun _ => trivial
  split
  · exact .pure fun _ => trivial
  split
  · exact next_accounts.bind fun _ => .pure fun _ => trivial
  split
  · exact next_accounts.bind fun _ => .pure fun _ => trivial
  split
  · split
    · exact .pure fun _ => trivial
    · exact next_accounts.bind fun _ => .pure fun _ => trivial
  split
  · exact .pure fun _ => trivial
  · exact next_accounts.bind fun _ => .pure fun _ => trivial

theorem skipStmt_accounts (first : Token) :
    Accounts source given (skipStmt first) fun _ => True := by
  unfold skipStmt
  refine resync_accounts.bind fun _ => token_accounts.bind fun token => ?_
  dsimp only
  split
  · exact next_accounts.bind fun _ => pos_accounts.bind fun _ => .pure fun _ => trivial
  · exact pos_accounts.bind fun _ => .pure fun _ => trivial

/-- A lone expression between delimiters becomes a value to emit, with the expression in it. -/
theorem foldValue_wellFormed {line : Pos → Nat} {list : List Stmt}
    (h : ∀ s ∈ list, s.WellFormed line) : ∀ s ∈ foldValue list, s.WellFormed line := by
  unfold foldValue
  split
  · next closing e opening before =>
    have he : e.WellFormed line := (h (.expr e) (by simp)).ofExpr
    exact List.forall_mem_cons.2 ⟨.intro trivial (List.forall_mem_singleton.2 he),
      fun s hs => h s (by simp [hs])⟩
  · exact h

theorem addStmt_accounts (list : List Stmt) (s : Stmt) :
    Accounts source (∀ s' ∈ s :: list, s'.WellFormed (Glyph.lineOf source)) (addStmt list s)
      fun list => ∀ s ∈ list, s.WellFormed (Glyph.lineOf source) := by
  unfold addStmt
  split
  · refine .bind .get fun r => ?_
    split
    · exact .pure fun h => foldValue_wellFormed h.2
    · exact .pure fun h => h.2
  · exact .pure id

theorem atStmtsEnd_accounts (inBlock : Bool) :
    Accounts source given (atStmtsEnd inBlock) fun _ => True :=
  kind_accounts.bind fun _ => isFull_accounts.bind fun _ => .pure fun _ => trivial

theorem stmts_accounts (hdeep : deep.Accounts source) (inBlock : Bool) :
    Accounts source given (stmts deep inBlock) fun list =>
      ∀ s ∈ list, s.WellFormed (Glyph.lineOf source) := by
  unfold stmts
  refine .loop (fun list => ∀ s ∈ list, s.WellFormed (Glyph.lineOf source))
    (fun _ => by simp) fun list => ?_
  refine (atStmtsEnd_accounts inBlock).bind fun atEnd => ?_
  split
  · exact .pure fun h s hs => h.2.1 s (List.mem_reverse.1 hs)
  refine token_accounts.bind fun first =>
    (Accounts.attempt (stmt_accounts hdeep)).bind fun read => ?_
  split
  · next s =>
    refine ((addStmt_accounts list s).weaken ?_).bind fun list => .pure fun h => h.1
    rintro ⟨⟨_, hread, hs⟩, -, -, hlist, -⟩
    exact List.forall_mem_cons.2 ⟨Option.some.inj hread ▸ hs, hlist⟩
  · refine (skipStmt_accounts first).bind fun bad => .pure ?_
    rintro ⟨-, ⟨_, hread, -⟩, -⟩
    cases hread

theorem file_accounts (hdeep : deep.Accounts source) :
    Accounts source given (file deep) fun list =>
      ∀ s ∈ list, s.WellFormed (Glyph.lineOf source) := by
  unfold file
  refine .loop (fun list => ∀ s ∈ list, s.WellFormed (Glyph.lineOf source))
    (fun _ => by simp) fun list => ?_
  refine (stmts_accounts hdeep false).bind fun more => pos_accounts.bind fun pos =>
    isFull_accounts.bind fun full => kind_accounts.bind fun kind => ?_
  split
  · refine .pure ?_
    rintro ⟨-, -, -, hmore, hlist, -⟩
    exact List.forall_mem_append.2 ⟨hlist, hmore⟩
  · exact (errorAt_accounts _ _).bind fun _ => next_accounts.bind fun _ =>
      (accept_accounts _).bind fun _ => .pure fun h => h.2.2.1.elim

end Grammar

/-! ### Whole sources -/

namespace Nested

variable {source : List Glyph}

theorem accounts_none : none.Accounts source where
  expr := .fault
  binary _ := .fault
  unary := .fault
  stmts := .fault
  ifStmt := .fault

/-- However deep phrases nest, they keep what they promise. -/
theorem accounts_ofDepth (depth : Nat) : (ofDepth depth).Accounts source := by
  induction depth with
  | zero => exact accounts_none
  | succ depth ih => exact
    { expr := Grammar.expr_accounts ih
      binary := Grammar.binary_accounts ih
      unary := Grammar.unary_accounts ih
      stmts := Grammar.stmts_accounts ih true
      ifStmt := Grammar.ifStmt_accounts ih }

end Nested

theorem Parse.source_accounts {source : List Glyph} :
    Parse.Accounts source True Parse.source fun list =>
      ∀ s ∈ list, s.WellFormed (Glyph.lineOf source) :=
  Parse.next_accounts.bind fun _ => .bind .get fun _ =>
    Grammar.file_accounts (Nested.accounts_ofDepth _)

theorem Diagnostic.sort_eq_nil {list : List Diagnostic} : sort list = [] ↔ list = [] := by
  rw [← List.length_eq_zero_iff, sort, List.length_mergeSort, List.length_eq_zero_iff]

namespace SourceFile

variable {f : SourceFile} {glyphs : List Glyph} {options : ParseOptions} {parsed : Parsed}

theorem parseLocal_wellFormed (hlines : f.lines = [0])
    (h : f.parseLocal glyphs options = .ok parsed) (herrors : parsed.errors = []) :
    parsed.document.WellFormed (Glyph.lineOf glyphs) := by
  unfold parseLocal Cursor.start? at h
  by_cases hsize : f.size = Glyph.widths glyphs
  · have hreader : (reader (Cursor.start f options.scan glyphs) options.maxErrors).InSource
        glyphs :=
      ⟨Cursor.inSource_start hsize hlines, Cursor.poolPlaced_start _ _ _, Nat.le_refl _⟩
    have hrun := Parse.source_accounts _ hreader
    rw [if_pos hsize] at h
    dsimp only [bind, Except.bind] at h
    cases hsource : Parse.source (reader (Cursor.start f options.scan glyphs) options.maxErrors) with
    | ok list r =>
      rw [hsource] at h hrun
      cases h
      exact hrun.2 (Diagnostic.sort_eq_nil.1 herrors) trivial
    | error e r =>
      rw [hsource] at h
      cases e <;> cases h
  · rw [if_neg hsize] at h
    cases h

theorem parse_wellFormed (hlines : f.lines = [0])
    (h : f.parse glyphs options = .ok parsed) (herrors : parsed.errors = []) :
    parsed.document.WellFormed fun pos => Glyph.lineOf glyphs (pos - f.base) := by
  unfold parse at h
  cases hlocal : f.parseLocal glyphs options with
  | error fault =>
    rw [hlocal] at h
    cases h
  | ok parsedLocal =>
    rw [hlocal] at h
    cases h
    refine (parseLocal_wellFormed hlines hlocal herrors).shift f.base fun pos => ?_
    rw [Nat.add_sub_cancel]

end SourceFile

end TemplateScript
