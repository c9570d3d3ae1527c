import TemplateScript.Proofs.Agree.Pooled
import TemplateScript.Proofs.Agree.Preceded
import TemplateScript.Proofs.Recovery.Tokens

/-!
# Where reading resumes

A statement that cannot be read is skipped, token by token, up to behind the semicolon that ends it.
Braces on the way count, so a semicolon inside them does not end the statement; but those that had
been read before the token at fault do not count.
-/

namespace TemplateScript

open Parse

/-- The reader with another token in hand, which the cursor stands behind. -/
abbrev Reader.turn (r : Reader) (cursor : Cursor) (token : Token) : Reader :=
  { r with cursor, token, commentEnd := none }

/-! ### Loops -/

namespace Parse

variable {σ α : Type} {round : σ → Parse (Round σ α)} {s : σ} {r later : Reader}

/-- A loop whose first round is the last. -/
theorem loop_done {a : α} (h : round s r = .ok (.done a) later) : loop s round r = .ok a later := by
  have hround : loop s round r = rounds round (r.cursor.bound + 1 + 1) s r := rfl
  rw [hround, rounds, bind_run_ok h]
  rfl

theorem rounds_again {limit : Nat} {next : σ} (h : round s r = .ok (.again next) later) :
    rounds round (limit + 1) s r = rounds round limit next later := by
  rw [rounds, bind_run_ok h]

end Parse

namespace Grammar

variable {deep : Nested} {r mid later : Reader} {e : Expr} {list : List Stmt}

/-- Where no limit is set, there are never enough diagnostics. -/
theorem isFull_eq_of_unlimited (h : r.maxErrors = 0) : r.isFull = false := by
  unfold Reader.isFull
  rw [h]
  rfl

/-- At a name, there are more statements to read. -/
theorem atStmtsEnd_of_ident (hmax : r.maxErrors = 0) (hkind : r.token.kind = .ident)
    (inBlock : Bool) : atStmtsEnd inBlock r = .ok false r := by
  unfold atStmtsEnd
  rw [kind_bind, isFull_bind, isFull_eq_of_unlimited hmax, hkind]
  cases inBlock <;> rfl

/-! ### Targets and missing operands -/

/-- A name on its own is an operand. -/
theorem operand_run (hkind : r.token.kind = .ident) (hnext : next r = .ok () later)
    (hlater : later.token.kind ≠ .lambda) :
    operand deep r = .ok (.ident ⟨r.token.literal, r.token.pos⟩) later := by
  have hident : expectIdent r = .ok ⟨r.token.literal, r.token.pos⟩ later := by
    unfold expectIdent
    rw [token_bind, if_pos hkind, bind_run_ok hnext]
    rfl
  unfold operand
  rw [token_bind]
  simp only [hkind]
  rw [bind_run_ok hident, kind_bind, if_neg hlater]
  rfl

/-- Kinds that an expression list does not go on with. -/
def exprEnds : List Token.Kind :=
  [.semicolon, .ident, .int, .rbrack, .eof, .inWord, .lbrace, .define, .valueEnd, .codeEnd]

/-- An operand is all there is of an expression list before what goes on with none of them. -/
theorem exprs_run (h : operand deep r = .ok e later) (hr : unaryOp? r.token.kind = none)
    (hlater : later.token.kind ∈ exprEnds) :
    exprs deep r = .ok [e] later := by
  have hextends : later.token.kind ∉ Token.Kind.extenders := by
    revert hlater
    generalize later.token.kind = kind
    revert kind
    decide
  have hends : later.token.kind.precedence = 0 ∧ later.token.kind ≠ .question ∧
      later.token.kind ≠ .comma := by
    revert hlater
    generalize later.token.kind = kind
    revert kind
    decide
  simp only [Token.Kind.extenders, List.mem_cons, List.not_mem_nil, or_false, not_or] at hextends
  obtain ⟨hperiod, hselector, hlbrack, hlparen, hpipe⟩ := hextends
  have hprimary : primary deep r = .ok e later := by
    unfold primary
    rw [bind_run_ok h]
    refine loop_done ?_
    rw [kind_bind]
    refine congrFun (?_ : _ = (pure (Round.done e) : Parse (Round Expr Expr))) later
    split
    · next hkind => exact absurd hkind hperiod
    · next hkind => exact absurd hkind hselector
    · next hkind => exact absurd hkind hlbrack
    · next hkind => exact absurd hkind hlparen
    · next hkind => exact absurd hkind hpipe
    · rfl
  have hunary : unary deep r = .ok e later := by
    unfold unary
    rw [token_bind, hr]
    exact hprimary
  have hbinary : binary deep 1 r = .ok e later := by
    unfold binary
    rw [bind_run_ok hunary]
    refine loop_done ?_
    rw [token_bind]
    simp only [hends.1, Nat.zero_lt_one, decide_true, Bool.true_or, if_true]
    rfl
  have hexpr : expr deep r = .ok e later := by
    unfold expr
    rw [bind_run_ok hbinary, kind_bind, if_pos hends.2.1]
    rfl
  unfold exprs
  rw [bind_run_ok hexpr]
  refine loop_done ?_
  unfold accept
  rw [bind_assoc, kind_bind, if_neg hends.2.2]
  rfl

/-- Without an operand there are no expressions. -/
theorem exprs_missing (h : operand deep r = .error .bail later) (hr : unaryOp? r.token.kind = none) :
    exprs deep r = .error .bail later := by
  have hunary : unary deep r = .error .bail later := by
    unfold unary
    rw [token_bind, hr]
    exact bind_run_error h _
  have hexpr : expr deep r = .error .bail later := bind_run_error (bind_run_error hunary _) _
  exact bind_run_error hexpr _

/-- What is recorded where an operand is missing. -/
theorem operand_missing (hkind : r.token.kind = .rparen ∨ r.token.kind = .rbrack)
    (hpos : r.token.pos ≤ r.cursor.file.size) :
    operand deep r = .error .bail (r.record
      ⟨r.cursor.file.place r.token.pos, .expectedOperand r.token.describe⟩) := by
  have hfail : operand deep r =
      failAt r.token.pos (.expectedOperand r.token.describe) r := by
    unfold operand
    rw [token_bind]
    rcases hkind with hkind | hkind <;> simp only [hkind]
  have herror : errorAt r.token.pos (.expectedOperand r.token.describe) r =
      .ok () (r.record ⟨r.cursor.file.place r.token.pos, .expectedOperand r.token.describe⟩) :=
    bind_run_ok (place_run hpos) _
  rw [hfail, failAt, bind_run_ok herror]
  rfl

/-- The definition of a name, where an operand is missing, cannot be read. -/
theorem stmt_missing {named valued : Reader} (hkind : r.token.kind = .ident)
    (hnext : next r = .ok () named) (hdefine : named.token.kind = .define)
    (hvalue : next named = .ok () valued)
    (hmissing : valued.token.kind = .rparen ∨ valued.token.kind = .rbrack)
    (hpos : valued.token.pos ≤ valued.cursor.file.size) :
    stmt deep r = .error .bail (valued.record
      ⟨valued.cursor.file.place valued.token.pos, .expectedOperand valued.token.describe⟩) := by
  have htarget : exprs deep r = .ok [.ident ⟨r.token.literal, r.token.pos⟩] named :=
    exprs_run (operand_run hkind hnext (by rw [hdefine]; decide)) (by rw [hkind]; rfl)
      (by rw [hdefine]; decide)
  have hunary : unaryOp? valued.token.kind = none := by
    rcases hmissing with hkind | hkind <;> rw [hkind] <;> rfl
  have hassignment : assignment deep [.ident ⟨r.token.literal, r.token.pos⟩] named =
      .error .bail (valued.record
        ⟨valued.cursor.file.place valued.token.pos, .expectedOperand valued.token.describe⟩) := by
    unfold assignment
    rw [token_bind, bind_run_ok hvalue, hdefine]
    exact bind_run_error (exprs_missing (operand_missing hmissing hpos) hunary) _
  have hsimple : simpleStmt deep r = .error .bail (valued.record
      ⟨valued.cursor.file.place valued.token.pos, .expectedOperand valued.token.describe⟩) := by
    unfold simpleStmt simpleStmtFrom
    rw [bind_run_ok htarget, kind_bind, hdefine]
    exact hassignment
  unfold stmt
  rw [token_bind]
  simp only [hkind]
  exact bind_run_error hsimple _

/-! ### Skipping -/

/-- A round of the loop that skips to where the next statement may begin. -/
def resyncRound (start : Pos) (depth : Nat) : Parse (Round Nat Unit) := do
  let token ← token
  if ← isFull then return .done ()
  else if resumeKinds.contains token.kind then return .done ()
  else if token.kind = .semicolon && depth = 0 then
    next
    return .done ()
  else if token.kind = .lbrace then
    next
    return .again (depth + 1)
  else if token.kind = .rbrace then
    if depth = 0 then return .done ()
    else
      next
      return .again (depth - 1)
  else if depth = 0 && token.pos ≠ start && stmtWords.contains token.kind then return .done ()
  else
    next
    return .again depth

/-- How many braces are open behind a token that is skipped. Nothing is said if reading may resume
at it. -/
def bracesBehind (depth : Nat) (kind : Token.Kind) : Option Nat :=
  if kind = .lbrace then some (depth + 1)
  else if kind = .rbrace then if depth = 0 then none else some (depth - 1)
  else if (.semicolon :: resumeKinds ++ stmtWords).contains kind then none
  else some depth

/-- How many braces are open behind tokens that are skipped. -/
def openBraces (depth : Nat) (faces : List Token.Face) : Option Nat :=
  faces.foldlM (fun depth f => bracesBehind depth f.kind) depth

variable {start : Pos} {depth after : Nat}

theorem resyncRound_again (h : bracesBehind depth r.token.kind = some after)
    (hfull : r.isFull = false) (hnext : next r = .ok () later) :
    resyncRound start depth r = .ok (.again after) later := by
  unfold resyncRound
  rw [token_bind, isFull_bind, hfull, if_neg Bool.false_ne_true]
  unfold bracesBehind at h
  split at h
  · next hkind =>
    cases h
    rw [hkind, if_neg (by decide), if_neg (by simp), if_pos rfl, bind_run_ok hnext]
    rfl
  · next hlbrace =>
    split at h
    · next hkind =>
      split at h
      · cases h
      · next hdepth =>
        cases h
        rw [hkind, if_neg (by decide), if_neg (by simp), if_neg (by decide), if_pos rfl,
          if_neg hdepth, bind_run_ok hnext]
        rfl
    · next hrbrace =>
      split at h
      · cases h
      · next hskipped =>
        cases h
        simp only [List.contains_eq_mem, List.cons_append, List.mem_cons, List.mem_append,
          decide_eq_true_eq, not_or] at hskipped
        obtain ⟨hsemicolon, hresume, hword⟩ := hskipped
        rw [if_neg (by simpa using hresume), if_neg (by simp [hsemicolon]), if_neg hlbrace,
          if_neg hrbrace, if_neg (by simp [hword]), bind_run_ok hnext]
        rfl

theorem resyncRound_semicolon (hkind : r.token.kind = .semicolon) (hfull : r.isFull = false) :
    resyncRound start 0 r = (next >>= fun _ => pure (Round.done () : Round Nat Unit)) r := by
  unfold resyncRound
  rw [token_bind, isFull_bind, hfull, hkind, if_neg Bool.false_ne_true, if_neg (by decide),
    if_pos (by decide)]

/-- The token that the cursor hands out is the next one, whatever was found wrong before. -/
theorem next_hands {c : Cursor} {t : Token} (h : r.cursor.Hands t c) :
    next r = .ok () (r.turn c t) :=
  Reader.next_of_faultless h.scan_eq h.kind_ne h.errors_eq h.taken_eq

/-- Tokens are skipped one by one, whatever was found wrong before. -/
theorem rounds_skip (start : Pos) {ended c : Cursor} {f : Token.Face} {p : Pos}
    {faces : List Token.Face} {t : Token} (hleads : r.cursor.Leads faces ended)
    (hhands : ended.Hands t c) (htoken : r.token = f.placed p) (hfull : r.isFull = false)
    (hopen : openBraces depth (f :: faces) = some after) (limit : Nat) :
    rounds (resyncRound start) (limit + (faces.length + 1)) depth r =
      rounds (resyncRound start) limit after (r.turn c t) := by
  induction faces generalizing r f p depth with
  | nil =>
    have hskip : bracesBehind depth r.token.kind = some after := by
      simpa [openBraces, htoken] using hopen
    cases hleads
    exact rounds_again (resyncRound_again hskip hfull (next_hands hhands))
  | cons f' rest ih =>
    rw [openBraces, List.foldlM_cons] at hopen
    obtain ⟨between, hfirst, hmore⟩ := Option.bind_eq_some_iff.1 hopen
    have hskip : bracesBehind depth r.token.kind = some between := htoken ▸ hfirst
    cases hleads with
    | cons hfirstHands hrest =>
      rw [← ih (r := r.turn _ _) hrest rfl hfull hmore, List.length_cons, ← Nat.add_assoc limit]
      exact rounds_again (resyncRound_again hskip hfull (next_hands hfirstHands))

/-- Behind the last token of a statement, reading resumes. -/
theorem resync_run {ended c : Cursor} {f : Token.Face} {p : Pos} {faces : List Token.Face}
    {t : Token} {u : Unit} (hleads : r.cursor.Leads faces ended) (hhands : ended.Hands t c)
    (hkind : t.kind = .semicolon) (htoken : r.token = f.placed p) (hfull : r.isFull = false)
    (hopen : openBraces 0 (f :: faces) = some 0) (hrun : resync r = .ok u later) :
    next (r.turn c t) = .ok () later := by
  have hloop : rounds (resyncRound r.token.pos) r.bound 0 r = .ok u later := hrun
  have hmore := rounds_mono (Nat.le_add_right r.bound (faces.length + 1)) hloop
  rw [rounds_skip _ hleads hhands htoken hfull hopen, Reader.bound, rounds] at hmore
  obtain ⟨result, mid, hround, hrest⟩ := bind_run_eq_ok.1 hmore
  rw [resyncRound_semicolon (r := r.turn c t) hkind hfull] at hround
  obtain ⟨_, end_, hnext, hround⟩ := bind_run_eq_ok.1 hround
  cases hround
  cases hrest
  exact hnext

variable {deep : Nested} {mid : Reader} {inBlock : Bool} {list : List Stmt}
  {result : Round (List Stmt) (List Stmt)}

/-- A statement that cannot be read is skipped up to the semicolon that ends it, if the braces from
the token at fault on are closed by then. The token behind it is in hand then. -/
theorem stmtsRound_resumes {ended c : Cursor} {f : Token.Face} {p : Pos} {faces : List Token.Face}
    {t : Token} (hend : atStmtsEnd inBlock r = .ok false r) (hfails : stmt deep r = .error .bail mid)
    (hleads : mid.cursor.Leads faces ended) (hhands : ended.Hands t c) (hkind : t.kind = .semicolon)
    (htoken : mid.token = f.placed p) (hfull : mid.isFull = false)
    (hopen : openBraces 0 (f :: faces) = some 0)
    (hrun : stmtsRound deep inBlock list r = .ok result later) :
    ∃ end_, next (mid.turn c t) = .ok () end_ ∧
      (r.token.pos < end_.token.pos →
        result = .again (.bad r.token.pos end_.token.pos :: list) ∧ later = end_) := by
  have hattempt : attempt (stmt deep) r = .ok none mid := by
    unfold attempt
    rw [hfails]
  unfold stmtsRound at hrun
  rw [bind_run_ok hend, if_neg Bool.false_ne_true, token_bind, bind_run_ok hattempt] at hrun
  obtain ⟨bad, skipped, hskip, hrun⟩ := bind_run_eq_ok.1 hrun
  cases hrun
  obtain ⟨_, end_, hresync, hskip⟩ := bind_run_eq_ok.1 hskip
  refine ⟨end_, resync_run hleads hhands hkind htoken hfull hopen hresync, fun hlt => ?_⟩
  have hfurther : (end_.token.pos = r.token.pos && end_.token.kind = r.token.kind) = false := by
    rw [decide_eq_false (Nat.ne_of_gt hlt), Bool.false_and]
  rw [token_bind, hfurther] at hskip
  cases hskip
  exact ⟨rfl, rfl⟩

end Grammar

namespace Scrap

open Grammar

mutual

/-- Behind a piece, as many braces are open as before. -/
theorem openBraces_faces (depth : Nat) : ∀ s : Scrap, openBraces depth s.faces = some depth
  | .closer bracket => by cases bracket <;> rfl
  | .name _ => rfl
  | .int _ => rfl
  | .braces inner => by
    have hopen : bracesBehind depth (Chain.opFace .lbrace).kind = some (depth + 1) := rfl
    have hclose : openBraces (depth + 1) [Chain.opFace .rbrace] = some depth := rfl
    have hinner := openBraces_allFaces (depth + 1) inner
    unfold openBraces at hinner hclose ⊢
    rw [faces, List.foldlM_cons, hopen, Option.bind_eq_bind, Option.bind_some,
      List.foldlM_append, hinner]
    exact hclose

theorem openBraces_allFaces (depth : Nat) :
    ∀ scraps : List Scrap, openBraces depth (allFaces scraps) = some depth
  | [] => rfl
  | s :: rest => by
    have hfirst := openBraces_faces depth s
    have hrest := openBraces_allFaces depth rest
    unfold openBraces at hfirst hrest ⊢
    rw [allFaces, List.foldlM_append, hfirst]
    exact hrest

end

end Scrap

namespace BrokenLine

open Grammar

variable {line : BrokenLine} {c : Cursor} {source : List Glyph} {r later : Reader} {deep : Nested}
  {inBlock : Bool} {list : List Stmt} {result : Round (List Stmt) (List Stmt)}

/-- What is found wrong with the line. -/
def Walk.error (walk : line.Walk c) : Diagnostic :=
  ⟨walk.missed.file.place walk.pos, .expectedOperand line.first.text⟩

/-- The semicolon that the end of the line stands for. -/
def Walk.stop (walk : line.Walk c) : Token := (⟨.semicolon, "\n"⟩ : Token.Face).placed walk.endPos

/-- A line that cannot be read is skipped as one statement, for which one diagnostic is recorded.
The token behind the line is in hand then. -/
theorem Walk.stmtsRound_run (walk : line.Walk c) (hc : c.Sound source)
    (hcursor : r.cursor = walk.named) (htoken : r.token = line.target.face.placed walk.namePos)
    (hmax : r.maxErrors = 0)
    (hlast : ∀ d ∈ r.errors.getLast?, d.place.line ≠ walk.error.place.line)
    (hrun : stmtsRound deep inBlock list r = .ok result later) :
    ∃ end_, next ({ r with errors := r.errors ++ [walk.error] }.turn walk.behind walk.stop) =
        .ok () end_ ∧
      (walk.namePos < end_.token.pos →
        result = .again (.bad walk.namePos end_.token.pos :: list) ∧ later = end_) := by
  have hkind : r.token.kind = .ident := by
    rw [htoken]
    rfl
  obtain ⟨hpos, hmissed⟩ := walk.sound_missed hc
  have hfirst : line.first.kind = .rparen ∨ line.first.kind = .rbrack := by
    cases line.first
    · exact .inl rfl
    · exact .inr rfl
  let defining := r.turn walk.defined ((Chain.opFace .define).placed walk.opPos)
  let valued := r.turn walk.missed ((Chain.opFace line.first.kind).placed walk.pos)
  have hdescribe : valued.token.describe = line.first.text := by
    cases hfirst : line.first <;> simp only [valued, hfirst] <;> rfl
  have hnext : next r = .ok () defining := next_hands (hcursor ▸ walk.define)
  have hvalue : next defining = .ok () valued := next_hands walk.missing
  have hstmt : stmt deep r = .error .bail (valued.record walk.error) := by
    have hmissing : stmt deep r = _ :=
      stmt_missing hkind hnext rfl hvalue hfirst
        (hmissed.inSource.size_eq ▸ Nat.le_trans hpos hmissed.inSource.offset_le)
    rw [hdescribe] at hmissing
    exact hmissing
  have hrecord : valued.record walk.error = { valued with errors := r.errors ++ [walk.error] } :=
    Reader.record_add hmax hlast
  rw [hrecord] at hstmt
  have hopen : openBraces 0 (Chain.opFace line.first.kind :: line.skipped) = some 0 :=
    Scrap.openBraces_allFaces 0 (.closer line.first :: line.rest)
  have hresumes := stmtsRound_resumes (atStmtsEnd_of_ident hmax hkind inBlock) hstmt walk.skips
    walk.semicolon rfl rfl (isFull_eq_of_unlimited hmax) hopen hrun
  rwa [htoken] at hresumes

end BrokenLine

end TemplateScript
