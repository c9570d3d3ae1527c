import TemplateScript.Proofs.Built.Statement

/-!
# What documents are built of

With the options of a pragma line the last of the operations comes in. A whole source is built of
operations, however deep its phrases nest, so its reader comes to its end in steps.
-/

namespace TemplateScript

open Parse

namespace Grammar

variable {known : List Nat} {deep : Nested}

/-! ### Templates -/

theorem mixedText_built : Built known mixedText fun _ => [] :=
  .bind .token fun t => .look (q := fun c => do
    let opening := c.options.delimiters.opening
    let value :=
      if t.flags.escaped then
        String.ofList (resolveDelimiters opening.toList 0 t.literal.toList)
      else t.literal
    next
    return Stmt.mixedText ⟨t.pos, t.literal, value, t.flags⟩) fun _ => .bind .next fun _ =>
      .pure (by simp)

theorem delimiter_built : Built known delimiter fun _ => [] :=
  .bind .token fun t => .bind .next fun _ => .pure (by simp)

theorem mixedValue_built (hdeep : deep.Built) : Built known (mixedValue deep) fun _ => [] := by
  refine .bind delimiter_built fun opening => .bind (expr_built hdeep) fun e =>
    .bind skipSemicolons_built fun _ => .bind kind_built fun kind => ?_
  split
  · exact .bind delimiter_built fun closing => .pure (by simp)
  · exact .look (q := fun c => failExpected c.options.delimiters.closing) fun _ =>
      failExpected_built _

/-! ### Pragma lines -/

theorem atPragmaEnd_built : Built known atPragmaEnd fun _ => [] :=
  .bind kind_built fun kind => .pure (by simp)

theorem abandonPragma_built {α : Type} {marks : α → List Nat} :
    Built known (abandonPragma : Parse α) marks := by
  refine .seq (.loop (fun _ => []) (by simp) fun _ known _ =>
    .bind atPragmaEnd_built fun atEnd => ?_) fun _ => .bind (accept_built _) fun _ => .bail
  split
  · exact .pure (by simp)
  · exact .bind .next fun _ => .pure (by simp)

theorem inPragma_built {α : Type} {p : Parse α} {marks : α → List Nat} (hp : Built known p marks) :
    Built known (inPragma p) marks := by
  refine .bind hp.attempt fun read => ?_
  cases read with
  | some a => exact .pure (List.subset_append_left ..)
  | none => exact abandonPragma_built

theorem pragmaKey_built : Built known pragmaKey fun key => [key.pos] := by
  refine .bind .token fun t => ?_
  split
  · exact .bind .next fun _ => .pure (by simp)
  · exact failExpected_built _

theorem pragmaEntry_built (hdeep : deep.Built) (read : PragmaLine) :
    Built known (pragmaEntry deep read) fun _ => [] := by
  refine .bind (inPragma_built pragmaKey_built) fun key => .bind (accept_built _) fun accepted =>
    .ite_seq ((inPragma_built (unary_built hdeep)).map fun _ => by simp)
      (.pure (by simp)) fun value => ?_
  dsimp only
  split
  · exact .pure (by simp)
  · exact .bind (.errorAt (by simp) _) fun _ => .pure (by simp)

theorem pragmaEntries_built (hdeep : deep.Built) :
    Built known (pragmaEntries deep) fun _ => [] := by
  refine .loop (fun _ => []) (by simp) fun read known _ => .bind atPragmaEnd_built fun atEnd => ?_
  split
  · exact .pure (by simp)
  · refine .bind (pragmaEntry_built hdeep read) fun read => .bind (accept_built _)
      fun accepted => ?_
    split
    · exact .pure (by simp)
    · exact .pure (by simp)

theorem pragma_built (hdeep : deep.Built) : Built known (Grammar.pragma deep) fun _ => [] := by
  refine .bind pos_built fun start => .bind .next fun _ => .bind (pragmaEntries_built hdeep)
    fun read => .bind pos_built fun last => .apply _ ?_ ?_
  · exact .bind .next fun _ => .pure (by simp)
  · exact inPragma_built (failExpected_built _)

/-! ### Statements of any sort -/

theorem stmt_built (hdeep : deep.Built) : Built known (stmt deep) fun _ => [] := by
  refine .bind .token fun t => ?_
  split
  · exact .bind .token fun _ => .bind .next fun _ => .pure (by simp)
  · exact .bind (block_built hdeep) fun _ => .bind expectSemicolon_built fun _ => .pure (by simp)
  · exact ifStmt_built hdeep
  · exact forStmt_built hdeep
  · exact tryStmt_built hdeep
  · exact .bind pos_built fun _ => .bind .next fun _ => .bind (expr_built hdeep) fun _ =>
      .bind expectSemicolon_built fun _ => .pure (by simp)
  · exact .bind pos_built fun _ => .bind .next fun _ => .bind atExprEnd_built fun _ =>
      .ite_seq (.pure (by simp)) ((expr_built hdeep).map fun _ => by simp)
        fun _ => .bind expectSemicolon_built fun _ => .pure (by simp)
  · exact .bind .token fun _ => .bind .next fun _ => .bind expectSemicolon_built fun _ =>
      .pure (by simp)
  · exact .bind .token fun _ => .bind .next fun _ => .bind expectSemicolon_built fun _ =>
      .pure (by simp)
  · exact decl_built hdeep
  · exact decl_built hdeep
  · exact decl_built hdeep
  · exact decl_built hdeep
  · exact mixedText_built
  · exact delimiter_built.map fun _ => by simp
  · exact delimiter_built.map fun _ => by simp
  · exact mixedValue_built hdeep
  · exact pragma_built hdeep
  · exact failAt_built (by simp) _
  · exact failAt_built (by simp) _
  · exact failAt_built (by simp) _
  · exact .bind (simpleStmt_built hdeep) fun s => .bind expectSemicolon_built fun _ =>
      .pure (by simp)

/-! ### Resuming -/

theorem resync_built : Built known resync fun _ => [] := by
  refine .bind pos_built fun start => .loop (fun _ => []) (by simp) fun depth known _ =>
    .bind .token fun t => .bind .isFull fun full => ?_
  split
  · exact .pure (by simp)
  split
  · exact .pure (by simp)
  split
  · exact .bind .next fun _ => .pure (by simp)
  split
  · exact .bind .next fun _ => .pure (by simp)
  split
  · split
    · exact .pure (by simp)
    · exact .bind .next fun _ => .pure (by simp)
  split
  · exact .pure (by simp)
  · exact .bind .next fun _ => .pure (by simp)

theorem skipStmt_built (first : Token) : Built known (skipStmt first) fun _ => [] := by
  refine .bind resync_built fun _ => .bind .token fun t => ?_
  dsimp only
  split
  · exact .bind .next fun _ => .bind pos_built fun _ => .pure (by simp)
  · exact .bind pos_built fun _ => .pure (by simp)

/-! ### Lists of statements -/

theorem addStmt_built (list : List Stmt) (s : Stmt) :
    Built known (addStmt list s) fun _ => [] := by
  unfold addStmt
  split
  · next closing =>
    refine .look (q := fun c =>
      if c.options.valueSugar then return foldValue (.codeEnd closing :: list)
      else return .codeEnd closing :: list) fun c => ?_
    split
    · exact .pure (by simp)
    · exact .pure (by simp)
  · exact .pure (by simp)

theorem stmtsRound_built (hdeep : deep.Built) (inBlock : Bool) (list : List Stmt) :
    Built known (stmtsRound deep inBlock list) fun _ => [] := by
  have hend : Built known (atStmtsEnd inBlock) fun _ => [] :=
    .bind kind_built fun kind => .bind .isFull fun full => .pure (by simp)
  refine .bind hend fun atEnd => ?_
  split
  · exact .pure (by simp)
  · refine .bind .token fun first => .bind (stmt_built hdeep).attempt fun read => ?_
    cases read with
    | some s => exact .bind (addStmt_built list s) fun list => .pure (by simp)
    | none => exact .bind (skipStmt_built first) fun bad => .pure (by simp)

theorem stmts_built (hdeep : deep.Built) (inBlock : Bool) :
    Built known (stmts deep inBlock) fun _ => [] :=
  .loop (fun _ => []) (by simp) fun list _ _ => (stmtsRound_built hdeep inBlock list).marked
    fun result => by cases result <;> simp

theorem file_built (hdeep : deep.Built) : Built known (file deep) fun _ => [] := by
  refine .loop (fun _ => []) (by simp) fun list known _ => .bind (stmts_built hdeep false)
    fun more => .bind pos_built fun pos => .bind .isFull fun full => .bind kind_built fun kind => ?_
  split
  · exact .pure (by simp)
  · exact .bind (.errorAt (by simp) _) fun _ => .bind .next fun _ => .bind (accept_built _)
      fun _ => .pure (by simp)

end Grammar

/-! ### Whole sources -/

theorem Nested.built_ofDepth (depth : Nat) : (ofDepth depth).Built := by
  induction depth with
  | zero => exact ⟨.fault _, fun _ => .fault _, .fault _, .fault _, .fault _⟩
  | succ depth ih => exact
    { expr := Grammar.expr_built ih
      binary := Grammar.binary_built ih
      unary := Grammar.unary_built ih
      stmts := Grammar.stmts_built ih true
      ifStmt := Grammar.ifStmt_built ih }

theorem Parse.source_built : Built [] Parse.source fun _ => [] :=
  .bind .next fun _ => .look (q := fun c => Grammar.file (Nested.ofDepth (c.bound + 2))) fun _ =>
    Grammar.file_built (Nested.built_ofDepth _)

end TemplateScript
