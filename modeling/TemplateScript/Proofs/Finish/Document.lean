import TemplateScript.Proofs.Finish.Statement

/-!
# Documents that end

A statement that cannot be read is skipped, at least its first token: either reading has gone on
since that token, or the token is still in hand and is used now. So every round of a list of
statements takes a token, and the list comes to an end wherever its rounds do.
-/

namespace TemplateScript

open Parse

/-- Setting options takes no token, and leaves the reader ready. -/
theorem Reader.takes_apply (r : Reader) (options : PragmaOptions) :
    r.Takes [] { r with cursor := r.cursor.apply options } :=
  ⟨r.cursor.apply_eq_performAll options, rfl⟩

theorem Reader.Ready.apply {source : List Glyph} {r : Reader} (h : r.Ready source)
    (options : PragmaOptions) :
    Reader.Ready source { r with cursor := r.cursor.apply options } := by
  obtain ⟨calls, hcalls⟩ := r.cursor.apply_eq_performAll options
  have hsound := h.cursor.performAll calls
  rw [hcalls] at hsound
  exact ⟨hsound, h.token_le, h.errors_le⟩

namespace Grammar

variable {m : Terms} {moved : Bool} {seen : Token → Prop} {deep : Nested}

/-! ### Templates -/

theorem mixedText_finishes {t : Token} (ht : t.kind ≠ .eof) :
    Finishes m moved (· = t) mixedText (fun _ => True) fun _ => true := by
  unfold mixedText
  exact .token_bind fun u hu _ => .get_bind fun r => (next_seen (hu ▸ ht)).bind fun _ _ =>
    .pure (fun _ => trivial) id

theorem delimiter_finishes {t : Token} (ht : t.kind ≠ .eof) :
    Finishes m moved (· = t) delimiter (fun _ => True) fun _ => true := by
  unfold delimiter
  exact .token_bind fun u hu _ => (next_seen (hu ▸ ht)).bind fun _ _ =>
    .pure (fun _ => trivial) id

theorem mixedValue_finishes (hdeep : deep.Finishes m.source m.sure m.depth) {t : Token}
    (ht : t.kind ≠ .eof) :
    Finishes m moved (· = t) (mixedValue deep) (fun _ => True) fun _ => true := by
  unfold mixedValue
  refine (delimiter_finishes ht).bind fun opening _ => (expr_finishes hdeep).bind fun e _ =>
    skipSemicolons_finishes.bind fun _ _ => .kind_bind fun u _ => ?_
  split
  · next hkind =>
    exact (delimiter_finishes (ne_of_eq_of_ne hkind (by decide))).bind fun closing _ =>
      .pure (fun _ => trivial) id
  · exact .get_bind fun r => .failExpected

/-! ### Pragma lines -/

theorem atPragmaEnd_bind {α : Type} {q : Bool → Parse α} {promise : α → Prop} {goes : α → Bool}
    (hq : ∀ t, Finishes m moved (· = t) (q (t.kind = .pragmaEnd || t.kind = .eof)) promise goes) :
    Finishes m moved seen (atPragmaEnd >>= q) promise goes :=
  fun o r hfollows hr _ => hq r.token o r hfollows hr rfl

/-- Before the end of a pragma line there is no end of the file. -/
theorem ne_eof_of_pragma {t : Token}
    (h : ¬ (decide (t.kind = .pragmaEnd) || decide (t.kind = .eof)) = true) : t.kind ≠ .eof := by
  intro hkind
  simp [hkind] at h

theorem abandonPragma_finishes {α : Type} {promise : α → Prop} {goes : α → Bool} :
    Finishes m moved seen (abandonPragma : Parse α) promise goes := by
  unfold abandonPragma
  refine .seq (.loop (fun _ => True) (fun _ => trivial) fun _ _ => atPragmaEnd_bind fun t => ?_)
    fun _ => (accept_finishes (by decide)).bind fun _ _ => .bail
  split
  · exact .still rfl (fun _ => trivial)
  · next hend =>
    exact (next_seen (ne_eof_of_pragma hend)).bind fun _ _ => .pure (fun _ => trivial) fun _ => rfl

theorem inPragma_finishes {α : Type} {p : Parse α} {promise : α → Prop} {goes : α → Bool}
    (hp : Finishes m moved seen p promise goes) :
    Finishes m moved seen (inPragma p) promise goes := by
  unfold inPragma
  refine hp.attempt.bind fun read hread => ?_
  cases read with
  | some a => exact .pure (fun hsure => hread hsure a rfl) id
  | none => exact abandonPragma_finishes

theorem pragmaKey_finishes : Finishes m moved seen pragmaKey (·.pos ≤ m.size) fun _ => true := by
  unfold pragmaKey
  refine .token_bind fun t _ hpos => ?_
  split
  · next hkind =>
    have ht : t.kind ≠ .eof := by
      intro h
      rw [h] at hkind
      cases hkind
    exact (next_seen ht).bind fun _ _ => .pure hpos id
  · exact .failExpected

theorem pragmaEntry_finishes (hdeep : deep.Finishes m.source m.sure m.depth) (read : PragmaLine) :
    Finishes m moved seen (pragmaEntry deep read) (fun _ => True) fun _ => true := by
  unfold pragmaEntry
  refine (inPragma_finishes pragmaKey_finishes).bind fun key hkey =>
    (accept_finishes (by decide)).bind fun accepted _ => ?_
  refine .ite_bind (fun _ => True) (fun _ => true)
    (fun _ => (inPragma_finishes (unary_finishes hdeep)).map (fun _ _ _ => trivial) fun _ => id)
    (fun _ => .pure (fun _ => trivial) fun _ => rfl) fun value _ => ?_
  dsimp only
  split
  · exact .pure (fun _ => trivial) id
  · exact .errorAt_bind hkey (.pure (fun _ => trivial) id)

theorem pragmaEntries_finishes (hdeep : deep.Finishes m.source m.sure m.depth) :
    Finishes m moved seen (pragmaEntries deep) (fun _ => True) fun _ => moved := by
  unfold pragmaEntries
  refine .loop (fun _ => True) (fun _ => trivial) fun read _ => atPragmaEnd_bind fun t => ?_
  split
  · exact .still rfl (fun _ => trivial)
  · refine (pragmaEntry_finishes (m := m.begun moved) hdeep read).bind fun read _ =>
      .accept (by decide) ?_ ?_
    · exact .pure (fun _ => trivial) fun _ => rfl
    · exact .still rfl (fun _ => trivial)

theorem apply_bind {α : Type} (options : PragmaOptions) {q : PUnit → Parse α}
    {promise : α → Prop} {goes : α → Bool} (hq : Finishes m moved seen (q ⟨⟩) promise goes) :
    Finishes m moved seen
      (modify (fun r => { r with cursor := r.cursor.apply options }) >>= q) promise goes := by
  intro o r hfollows hr hseen
  refine hq o { r with cursor := r.cursor.apply options } ?_ (fun hsure => ?_) hseen
  · exact (hfollows.trans (r.takes_apply options).follows).less fun h =>
      Bool.or_eq_true_iff.2 (.inl h)
  · exact ⟨(hr hsure).1.apply options, (hr hsure).2⟩

theorem pragma_finishes (hdeep : deep.Finishes m.source m.sure m.depth) {t : Token}
    (ht : t.kind ≠ .eof) :
    Finishes m moved (· = t) (Grammar.pragma deep) (fun _ => True) fun _ => true := by
  unfold Grammar.pragma
  refine .pos_bind fun start _ => (next_seen ht).bind fun _ _ => (pragmaEntries_finishes hdeep).bind
    fun read _ => .pos_bind fun last _ => .kind_bind fun u _ => ?_
  split
  · next hkind =>
    exact apply_bind read.options
      ((next_at hkind (by decide)).bind fun _ _ => .pure (fun _ => trivial) id)
  · exact inPragma_finishes .failExpected

/-! ### Statements of any sort -/

theorem branchStmt_finishes {t : Token} (ht : t.kind ≠ .eof) :
    Finishes m moved (· = t) branchStmt (fun _ => True) fun _ => true := by
  unfold branchStmt
  exact .token_bind fun u hu _ => (next_seen (hu ▸ ht)).bind fun _ _ =>
    expectSemicolon_finishes.bind fun _ _ => .pure (fun _ => trivial) id

theorem stmt_finishes (hdeep : deep.Finishes m.source m.sure m.depth) :
    Finishes m moved seen (stmt deep) (fun _ => True) fun _ => true := by
  unfold stmt
  refine .token_bind fun t _ hpos => ?_
  have live {kind : Token.Kind} (hkind : t.kind = kind) (hne : kind ≠ .eof) : t.kind ≠ .eof :=
    hkind ▸ hne
  split
  · next hkind =>
    unfold emptyStmt
    exact .token_bind fun u hu _ => (next_seen (hu ▸ live hkind (by decide))).bind fun _ _ =>
      .pure (fun _ => trivial) id
  · unfold blockStmt
    exact (block_finishes hdeep).bind fun body _ => expectSemicolon_finishes.bind fun _ _ =>
      .pure (fun _ => trivial) id
  · exact ifStmt_finishes hdeep
  · exact forStmt_finishes hdeep
  · exact tryStmt_finishes hdeep
  · next hkind =>
    unfold throwStmt
    exact .pos_bind fun pos _ => (next_at hkind (by decide)).bind fun _ _ =>
      (expr_finishes hdeep).bind
      fun e _ => expectSemicolon_finishes.bind fun _ _ => .pure (fun _ => trivial) id
  · next hkind =>
    unfold returnStmt
    refine .pos_bind fun pos _ => (next_at hkind (by decide)).bind fun _ _ => .atExprEnd_bind
      fun bare => ?_
    exact .ite_bind (fun _ => True) (fun _ => true) (fun _ => .pure (fun _ => trivial) id)
      (fun _ => (expr_finishes hdeep).map (fun _ _ _ => trivial) fun _ => id) fun result _ =>
        expectSemicolon_finishes.bind fun _ _ => .pure (fun _ => trivial) id
  · next hkind => exact branchStmt_finishes (live hkind (by decide))
  · next hkind => exact branchStmt_finishes (live hkind (by decide))
  · next hkind => exact decl_finishes hdeep (live hkind (by decide))
  · next hkind => exact decl_finishes hdeep (live hkind (by decide))
  · next hkind => exact decl_finishes hdeep (live hkind (by decide))
  · next hkind => exact decl_finishes hdeep (live hkind (by decide))
  · next hkind => exact mixedText_finishes (live hkind (by decide))
  · next hkind =>
    exact (delimiter_finishes (live hkind (by decide))).map (fun _ _ _ => trivial) fun _ => id
  · next hkind =>
    exact (delimiter_finishes (live hkind (by decide))).map (fun _ _ _ => trivial) fun _ => id
  · next hkind => exact mixedValue_finishes hdeep (live hkind (by decide))
  · next hkind => exact pragma_finishes hdeep (live hkind (by decide))
  · exact .failAt hpos
  · exact .failAt hpos
  · exact .failAt hpos
  · exact (simpleStmt_finishes hdeep).bind fun s _ => expectSemicolon_finishes.bind fun _ _ =>
      .pure (fun _ => trivial) id

/-! ### Resuming -/

theorem resync_finishes : Finishes m moved seen resync (fun _ => True) fun _ => moved := by
  unfold resync
  refine .pos_bind fun start _ => .loop (fun _ => True) (fun _ => trivial) fun depth _ =>
    .token_bind fun t _ _ => .isFull_bind fun full => ?_
  split
  · exact .still rfl (fun _ => trivial)
  split
  · exact .still rfl (fun _ => trivial)
  · next hresume =>
    have ht : t.kind ≠ .eof := by
      intro h
      rw [h] at hresume
      exact hresume rfl
    split
    · exact (next_seen ht).bind fun _ _ => .still rfl (fun _ => trivial)
    split
    · exact (next_seen ht).bind fun _ _ => .pure (fun _ => trivial) fun _ => rfl
    split
    · split
      · exact .still rfl (fun _ => trivial)
      · exact (next_seen ht).bind fun _ _ => .pure (fun _ => trivial) fun _ => rfl
    split
    · exact .still rfl (fun _ => trivial)
    · exact (next_seen ht).bind fun _ _ => .pure (fun _ => trivial) fun _ => rfl

/-- Skipping a statement uses its first token at least, whether or not it was used before. -/
theorem skipStmt_cameOf {o r : Reader} (hfollows : o.Follows false r)
    (hr : m.sure → r.Ready m.source ∧ o.weight + m.near.toNat ≤ m.depth)
    (hlive : o.token.kind ≠ .eof) :
    CameOf m o (fun _ => True) (fun _ => true) (skipStmt o.token r) := by
  unfold skipStmt
  refine CameOf.bind (resync_finishes o r hfollows hr (show anyToken r.token from trivial))
    fun _ r' hfollows' hr' => ?_
  have hterms (hsure : m.sure) : r'.Ready m.source ∧ o.weight + m.near.toNat ≤ m.depth :=
    ⟨(hr' hsure).1, (hr hsure).2⟩
  rw [token_bind]
  dsimp only
  split
  · next hsame =>
    have hkind : r'.token.kind = o.token.kind := of_decide_eq_true (Bool.and_eq_true_iff.1 hsame).2
    have hnext : Finishes m false (· = r'.token)
        (next >>= fun _ => pos >>= fun last => pure (Stmt.bad o.token.pos last))
        (fun _ => True) fun _ => true :=
      (next_seen (hkind ▸ hlive)).bind fun _ _ => .pos_bind fun last _ =>
        .pure (fun _ => trivial) id
    exact hnext o r' hfollows' hterms rfl
  · next hother =>
    rcases hfollows'.token_or hlive with hsame | hmoved
    · simp [hsame] at hother
    · exact ⟨hmoved, fun hsure => ⟨(hr' hsure).1, trivial⟩⟩

/-! ### Lists of statements -/

theorem addStmt_finishes (list : List Stmt) (s : Stmt) :
    Finishes m moved seen (addStmt list s) (fun _ => True) fun _ => moved := by
  unfold addStmt
  split
  · refine .get_bind fun r => ?_
    split
    · exact .pure (fun _ => trivial) id
    · exact .pure (fun _ => trivial) id
  · exact .pure (fun _ => trivial) id

/-- A round moves unless it is the last. -/
theorem stmtsRound_finishes (hdeep : deep.Finishes m.source m.sure m.depth) (inBlock : Bool)
    (list : List Stmt) :
    Finishes m false anyToken (stmtsRound deep inBlock list) (fun _ => True)
      Finishes.goesAgain := by
  refine .fresh Finishes.goesAgain (fun r _ hr => ?_) fun _ h => .inr h
  let atEnd := r.isFull || r.token.kind = .rbrace || r.token.kind = .eof ||
    (inBlock && r.token.kind = .elseWord)
  change CameOf m r _ _ ((if atEnd = true then _ else _ : Parse _) r)
  split
  · exact ⟨.refl r, fun hsure => ⟨(hr hsure).1, trivial⟩⟩
  · next hend =>
    have hlive : r.token.kind ≠ .eof := by
      intro h
      simp [atEnd, h] at hend
    rw [token_bind]
    refine CameOf.bind ((stmt_finishes hdeep).attempt r r (.refl r) hr
      (show anyToken r.token from trivial)) fun read r' hfollows hr' => ?_
    have hterms (hsure : m.sure) : r'.Ready m.source ∧ r.weight + m.near.toNat ≤ m.depth :=
      ⟨(hr' hsure).1, (hr hsure).2⟩
    cases read with
    | some s =>
      have hadd : Finishes m true anyToken (addStmt list s >>= fun list => pure (Round.again list))
          (fun _ : Round (List Stmt) (List Stmt) => True) Finishes.goesAgain :=
        (addStmt_finishes list s).bind fun _ _ => .pure (fun _ => trivial) fun _ => rfl
      exact hadd r r' hfollows hterms trivial
    | none =>
      refine (skipStmt_cameOf hfollows hterms hlive).bind fun bad r'' hmoved hr'' => ?_
      exact ⟨hmoved, hr''⟩

theorem stmts_finishes (hdeep : deep.Finishes m.source m.sure m.depth) (inBlock : Bool) :
    Finishes m moved seen (stmts deep inBlock) (fun _ => True) fun _ => moved := by
  rw [stmts_eq]
  refine .loop (fun _ => True) (fun _ => trivial) fun list _ => ?_
  exact (stmtsRound_finishes (m := m.begun moved) hdeep inBlock list).promised fun _ result _ => by
    cases result <;> trivial

theorem file_finishes (hdeep : deep.Finishes m.source m.sure m.depth) :
    Finishes m moved seen (file deep) (fun _ => True) fun _ => moved := by
  unfold file
  refine .loop (fun _ => True) (fun _ => trivial) fun list _ =>
    (stmts_finishes (m := m.begun moved) hdeep false).bind fun more _ => .pos_bind fun pos hpos =>
      .isFull_bind fun full => .kind_bind fun t _ => ?_
  split
  · exact .still rfl (fun _ => trivial)
  · next hbrace =>
    have hkind : t.kind = .rbrace := by
      by_contra hne
      simp [hne] at hbrace
    exact .errorAt_bind hpos ((next_at hkind (by decide)).bind fun _ _ =>
      (accept_finishes (by decide)).bind fun _ _ => .pure (fun _ => trivial) fun _ => rfl)

end Grammar

end TemplateScript
