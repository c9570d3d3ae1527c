import TemplateScript.Proofs.Sugar.Statement

/-!
# Documents that sugar does not change

When a code block closes, the statements before the new one may be read as a value. With all values
unfolded they are the same statements as before, so lists of statements that look alike go on doing
so, whatever a pragma line says of values in between.
-/

namespace TemplateScript

open Parse

/-- The options of a pragma line leave the file as it is. -/
theorem Cursor.Lined.apply {c : Cursor} (h : c.Lined) (options : PragmaOptions) :
    (c.apply options).Lined :=
  h.reaches (stays_apply c options).reaches

namespace Grammar

variable {deep : Nested}

/-! ### Text and delimiters -/

theorem mixedText_twins : Twins id mixedText mixedText :=
  token_twins.seq fun _ => .get fun _ _ => next_twins.seq fun _ => .pure rfl

theorem delimiter_twins : Twins id delimiter delimiter :=
  token_twins.seq fun _ => next_twins.seq fun _ => .pure rfl

theorem mixedValue_twins (hdeep : deep.Twin) :
    Twins Stmt.unfolded (mixedValue deep) (mixedValue deep) := by
  unfold mixedValue
  refine delimiter_twins.seq fun opening => (expr_twins hdeep).bind fun e₁ e₂ he =>
    skipSemicolons_twins.seq fun _ => kind_twins.seq fun _ => .ite Iff.rfl (fun _ => ?_) fun _ =>
      .get fun _ _ => failExpected_twins _
  exact delimiter_twins.seq fun closing => .pure (by simp only [Stmt.unfolded, he])

/-! ### Pragma lines -/

theorem switch?_unfolded (value : Option Expr) : switch? (unfoldExpr? value) = switch? value := by
  cases value with
  | none => rfl
  | some e => cases e <;> rfl

theorem text?_unfolded (value : Option Expr) : text? (unfoldExpr? value) = text? value := by
  cases value with
  | none => rfl
  | some e => cases e <;> rfl

/-- What an entry sets does not depend on the values in it. -/
theorem setOption?_unfolded (options : PragmaOptions) (key : String) (value : Option Expr) :
    setOption? options key (unfoldExpr? value) = setOption? options key value := by
  unfold setOption?
  rw [switch?_unfolded, text?_unfolded]

/-- What was read of a pragma line with the values in it unfolded. -/
def PragmaLine.unfolded (line : PragmaLine) : PragmaLine :=
  ⟨unfoldKeyValues line.entries, line.options⟩

theorem atPragmaEnd_twins : Twins id atPragmaEnd atPragmaEnd := kind_twins.seq fun _ => .pure rfl

theorem abandonPragma_twins {α γ : Type} {view : α → γ} :
    Twins view abandonPragma abandonPragma := by
  unfold abandonPragma
  refine (Twins.loop_same fun _ => ?_).seq fun _ => (accept_twins _).seq fun _ => .bail
  exact atPragmaEnd_twins.seq fun _ => .ite Iff.rfl (fun _ => .pure rfl) fun _ =>
    next_twins.seq fun _ => .pure rfl

theorem inPragma_twins {α γ : Type} {view : α → γ} {p₁ p₂ : Parse α} (hp : Twins view p₁ p₂) :
    Twins view (inPragma p₁) (inPragma p₂) := by
  unfold inPragma
  refine hp.attempt.bind fun read₁ read₂ h => ?_
  cases read₁ with
  | none =>
    cases read₂ with
    | none => exact abandonPragma_twins
    | some a₂ => cases h
  | some a₁ =>
    cases read₂ with
    | none => cases h
    | some a₂ => exact .pure (Option.some.inj h)

theorem pragmaKey_twins : Twins id pragmaKey pragmaKey :=
  token_twins.seq fun _ => .ite Iff.rfl (fun _ => next_twins.seq fun _ => .pure rfl) fun _ =>
    failExpected_twins _

theorem pragmaEntry_twins (hdeep : deep.Twin) {line₁ line₂ : PragmaLine}
    (h : line₁.unfolded = line₂.unfolded) :
    Twins PragmaLine.unfolded (pragmaEntry deep line₁) (pragmaEntry deep line₂) := by
  obtain ⟨entries₁, options⟩ := line₁
  obtain ⟨entries₂, _⟩ := line₂
  obtain ⟨hentries, rfl⟩ := PragmaLine.mk.inj h
  have hvalue : Twins unfoldExpr? (some <$> inPragma (unary deep))
      (some <$> inPragma (unary deep)) :=
    (inPragma_twins (unary_twins hdeep)).map fun _ _ h => congrArg some h
  unfold pragmaEntry
  refine (inPragma_twins pragmaKey_twins).seq fun key => (accept_twins _).seq fun _ =>
    .ite_bind Iff.rfl (fun _ => hvalue) (fun _ => .pure rfl) fun value₁ value₂ hvalue => ?_
  have hset : setOption? options key.name value₁ = setOption? options key.name value₂ := by
    rw [← setOption?_unfolded, hvalue, setOption?_unfolded]
  have hmore (options : PragmaOptions) :
      PragmaLine.unfolded ⟨entries₁ ++ [⟨.ident key, value₁⟩], options⟩ =
        PragmaLine.unfolded ⟨entries₂ ++ [⟨.ident key, value₂⟩], options⟩ := by
    rw [unfoldKeyValues_eq_map, unfoldKeyValues_eq_map] at hentries
    simp only [PragmaLine.unfolded, unfoldKeyValues_eq_map, List.map_append, hentries,
      List.map_singleton, KeyValue.unfolded, hvalue]
  dsimp only
  rw [hset]
  cases setOption? options key.name value₂ with
  | some options => exact .pure (hmore options)
  | none => exact (errorAt_twins _ _).seq fun _ => .pure (hmore options)

theorem pragmaEntries_twins (hdeep : deep.Twin) :
    Twins PragmaLine.unfolded (pragmaEntries deep) (pragmaEntries deep) := by
  unfold pragmaEntries
  refine .loop PragmaLine.unfolded rfl fun line₁ line₂ h => atPragmaEnd_twins.seq fun _ =>
    .ite Iff.rfl (fun _ => .pure (congrArg Round.done h)) fun _ =>
      (pragmaEntry_twins hdeep h).bind fun line₁ line₂ h => (accept_twins _).seq fun _ => ?_
  exact .ite Iff.rfl (fun _ => .pure (congrArg Round.again h)) fun _ =>
    .pure (congrArg Round.done h)

/-- A pragma line sets the same options for both readers, unless it leaves values as they were. -/
theorem pragma_twins (hdeep : deep.Twin) :
    Twins Stmt.unfolded (Grammar.pragma deep) (Grammar.pragma deep) := by
  unfold Grammar.pragma
  refine pos_twins.seq fun start => next_twins.seq fun _ => (pragmaEntries_twins hdeep).bind
    fun line₁ line₂ h => pos_twins.seq fun last => kind_twins.seq fun kind => ?_
  obtain ⟨hentries, hoptions⟩ := PragmaLine.mk.inj h
  rw [hoptions]
  refine .ite Iff.rfl (fun _ => ?_) fun _ => inPragma_twins (failExpected_twins _)
  refine Twins.seq (.modify fun r on hr => ⟨line₂.options.valueSugar.getD on, ?_, hr.apply _⟩)
    fun _ => next_twins.seq fun _ => .pure (by simp only [Stmt.unfolded, hentries])
  simp only [Reader.sugared, Cursor.apply_setValueSugar]

/-! ### Statements of any sort -/

theorem stmt_twins (hdeep : deep.Twin) : Twins Stmt.unfolded (stmt deep) (stmt deep) := by
  unfold stmt
  refine token_twins.seq fun token => ?_
  split
  · exact token_twins.seq fun _ => next_twins.seq fun _ => .pure rfl
  · exact blockStmt_twins (block_twins hdeep)
  · exact ifStmt_twins hdeep
  · exact forStmt_twins hdeep
  · exact tryStmt_twins hdeep
  · exact pos_twins.seq fun _ => next_twins.seq fun _ => (expr_twins hdeep).bind fun _ _ h =>
      expectSemicolon_twins.seq fun _ => .pure (by simp only [Stmt.unfolded, h])
  · have hresult : Twins unfoldExpr? (some <$> expr deep) (some <$> expr deep) :=
      (expr_twins hdeep).map fun _ _ h => congrArg some h
    exact pos_twins.seq fun _ => next_twins.seq fun _ => atExprEnd_twins.seq fun _ =>
      .ite_bind Iff.rfl (fun _ => .pure rfl) (fun _ => hresult) fun _ _ h =>
        expectSemicolon_twins.seq fun _ => .pure (by simp only [Stmt.unfolded, h])
  case h_14 => exact mixedText_twins.mono _
  case h_15 => exact delimiter_twins.seq fun _ => .pure rfl
  case h_16 => exact delimiter_twins.seq fun _ => .pure rfl
  case h_17 => exact mixedValue_twins hdeep
  case h_18 => exact pragma_twins hdeep
  case h_22 =>
    exact (simpleStmt_twins hdeep).bind fun _ _ h => expectSemicolon_twins.seq fun _ => .pure h
  all_goals first
    | exact token_twins.seq fun _ => next_twins.seq fun _ => expectSemicolon_twins.seq fun _ =>
        .pure rfl
    | exact decl_twins hdeep
    | exact failAt_twins _ _

/-! ### Resuming -/

theorem resync_twins : Twins id resync resync := by
  unfold resync
  refine pos_twins.seq fun start => .loop_same fun depth => token_twins.seq fun token =>
    isFull_twins.seq fun _ => ?_
  refine .ite Iff.rfl (fun _ => .pure rfl) fun _ => .ite Iff.rfl (fun _ => .pure rfl) fun _ =>
    .ite Iff.rfl (fun _ => next_twins.seq fun _ => .pure rfl) fun _ =>
    .ite Iff.rfl (fun _ => next_twins.seq fun _ => .pure rfl) fun _ => .ite Iff.rfl (fun _ => ?_)
      fun _ => .ite Iff.rfl (fun _ => .pure rfl) fun _ => next_twins.seq fun _ => .pure rfl
  exact .ite Iff.rfl (fun _ => .pure rfl) fun _ => next_twins.seq fun _ => .pure rfl

theorem skipStmt_twins (first : Token) : Twins id (skipStmt first) (skipStmt first) := by
  unfold skipStmt
  refine resync_twins.seq fun _ => token_twins.seq fun token => .ite Iff.rfl (fun _ => ?_)
    fun _ => ?_
  · exact next_twins.seq fun _ => pos_twins.seq fun _ => .pure rfl
  · exact pos_twins.seq fun _ => .pure rfl

/-- Statements, the last one first, with all values unfolded. -/
def unfoldBack (list : List Stmt) : List Stmt := unfoldStmts list.reverse

theorem unfoldBack_cons (s : Stmt) (list : List Stmt) :
    unfoldBack (s :: list) = unfoldBack list ++ s.unfolded.spread := by
  rw [unfoldBack, List.reverse_cons, unfoldStmts_append, unfoldStmts, unfoldStmts, List.append_nil,
    unfoldBack]

/-- Reading statements as a value is undone by unfolding it. -/
theorem unfoldBack_foldValue (list : List Stmt) :
    unfoldBack (foldValue list) = unfoldBack list := by
  unfold foldValue
  split
  · simp only [unfoldBack_cons, Stmt.unfolded, Stmt.spread, List.append_assoc, List.cons_append,
      List.nil_append]
  · rfl

/-- Unfolded, the new statement stands behind the others, whatever has become of it. -/
theorem addStmt_run (list : List Stmt) (s : Stmt) (r : Reader) :
    ∃ more, addStmt list s r = .ok more r ∧
      unfoldBack more = unfoldBack list ++ s.unfolded.spread := by
  unfold addStmt
  split
  · rw [get_bind]
    split
    · exact ⟨_, rfl, (unfoldBack_foldValue _).trans (unfoldBack_cons _ _)⟩
    · exact ⟨_, rfl, unfoldBack_cons _ _⟩
  · exact ⟨_, rfl, unfoldBack_cons _ _⟩

theorem addStmt_twins {list₁ list₂ : List Stmt} {s₁ s₂ : Stmt}
    (hlist : unfoldBack list₁ = unfoldBack list₂) (hs : s₁.unfolded = s₂.unfolded) :
    Twins unfoldBack (addStmt list₁ s₁) (addStmt list₂ s₂) := by
  intro r on hr
  obtain ⟨more₁, hrun₁, hmore₁⟩ := addStmt_run list₁ s₁ (r.sugared on)
  obtain ⟨more₂, hrun₂, hmore₂⟩ := addStmt_run list₂ s₂ r
  rw [hrun₁, hrun₂]
  exact .ok on (by rw [hmore₁, hmore₂, hlist, hs]) hr

theorem stmts_twins (hdeep : deep.Twin) (inBlock : Bool) :
    Twins unfoldStmts (stmts deep inBlock) (stmts deep inBlock) := by
  unfold stmts
  refine .loop unfoldBack rfl fun list₁ list₂ hlist => ?_
  have hend : Twins id (atStmtsEnd inBlock) (atStmtsEnd inBlock) :=
    kind_twins.seq fun _ => isFull_twins.seq fun _ => .pure rfl
  refine hend.seq fun _ => .ite Iff.rfl (fun _ => .pure (congrArg Round.done hlist)) fun _ =>
    token_twins.seq fun first => (stmt_twins hdeep).attempt.bind fun read₁ read₂ hread => ?_
  cases read₁ with
  | none =>
    cases read₂ with
    | none =>
      exact (skipStmt_twins first).seq fun s => .pure (congrArg Round.again (by
        rw [unfoldBack_cons, unfoldBack_cons, hlist]))
    | some s₂ => cases hread
  | some s₁ =>
    cases read₂ with
    | none => cases hread
    | some s₂ =>
      exact (addStmt_twins hlist (Option.some.inj hread)).bind fun _ _ h =>
        .pure (congrArg Round.again h)

theorem file_twins (hdeep : deep.Twin) : Twins unfoldStmts (file deep) (file deep) := by
  unfold file
  refine .loop unfoldStmts rfl fun list₁ list₂ hlist => (stmts_twins hdeep false).bind
    fun more₁ more₂ hmore => pos_twins.seq fun pos => isFull_twins.seq fun _ => kind_twins.seq
      fun _ => ?_
  have hall : unfoldStmts (list₁ ++ more₁) = unfoldStmts (list₂ ++ more₂) := by
    rw [unfoldStmts_append, unfoldStmts_append, hlist, hmore]
  refine .ite Iff.rfl (fun _ => .pure (congrArg Round.done hall)) fun _ => ?_
  exact (errorAt_twins _ _).seq fun _ => next_twins.seq fun _ => (accept_twins _).seq fun _ =>
    .pure (congrArg Round.again hall)

end Grammar

/-! ### Depth -/

theorem Nested.twin_ofDepth (depth : Nat) : (ofDepth depth).Twin := by
  induction depth with
  | zero => exact ⟨.fault _, fun _ => .fault _, .fault _, .fault _, .fault _⟩
  | succ depth ih =>
    exact ⟨Grammar.expr_twins ih, Grammar.binary_twins ih, Grammar.unary_twins ih,
      Grammar.stmts_twins ih true, Grammar.ifStmt_twins ih⟩

/-- Whole sources are read alike. -/
theorem Parse.source_twins : Twins unfoldStmts source source :=
  next_twins.seq fun _ => .get fun r _ => Grammar.file_twins (Nested.twin_ofDepth r.bound)

end TemplateScript
