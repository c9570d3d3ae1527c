import TemplateScript.Proofs.Script.Phrases

/-!
# Scripts are read as their trees

However the blocks of a script are fenced, the tokens of a script are read as its trees. What a
statement is read as rests on what the blocks in it are read as, so the statements of all blocks are
read by induction on how deep phrases may nest.
-/

namespace TemplateScript

open Parse Grammar

namespace Command

variable {α β : Type} {w : Operands α} {v : Operands β} {K : Token.Outlook} {depth m : Nat}
  {inBlock : Bool} {rest sep : List Token.Face} {f g : Token.Face}

/-- What a statement begins with, where another may stand, is no end of statements. -/
theorem exists_head (hv : v.Begins K) (s : Command α β) :
    ∃ f more, Command.faces w v s = f :: more ∧
      [Token.Kind.rbrace, .eof, .elseWord].contains f.kind = false := by
  cases s with
  | expr e =>
    obtain ⟨f, more, hfaces, -⟩ := hv.exists_head e
    have hhead := hv.head_kind e f (by rw [hfaces]; rfl)
    have hends : ∀ kind ∈ [Token.Kind.rbrace, .eof, .elseWord], kind ∈ Token.Kind.stmtHeads := by
      decide
    refine ⟨f, more, hfaces, ?_⟩
    rw [List.contains_eq_mem]
    exact decide_eq_false fun hmem => hhead (hends _ hmem)
  | block fence body =>
    refine ⟨fence.opener, _, rfl, ?_⟩
    rw [fence.opener_kind]
    rfl
  | assign | ifThen | ifElse | each | ret => exact ⟨_, _, rfl, rfl⟩

/-- A statement is read as its tree if the blocks in it are read as theirs. -/
theorem stmt_reads (hw : w.Read K) (hv : v.Begins K)
    (hdeep : ∀ body,
      ReadsBody K (.ofDepth depth) m (bodyFaces (allFaces w v body)) (trees w v body))
    (s : Command α β) (hend : EndedBy sep g) :
    (stmt (.ofDepth depth)).ReadsIn K m (Command.faces w v s ++ (sep ++ g :: rest)) (g :: rest)
      fun found => found.unplaced = tree w v s := by
  have hends : ∀ kind ∈ [Token.Kind.semicolon, .rbrace], kind.endsSimple = true := by decide
  obtain ⟨next, behind, hbehind, hnext⟩ := hend.exists_head rest
  have hsimple := hends _ hnext
  have hexprs := Token.Kind.endsExprs_of_endsSimple hsimple
  have hexpr := Token.Kind.endsExpr_of_endsExprs hexprs
  cases s with
  | assign x op isAssign e =>
    obtain ⟨f, more, hfaces, -⟩ := hw.exists_head e
    have hread := hw.reads depth m e next behind hexpr
    simp only [Command.faces, List.cons_append]
    have hname : x.face.kind ∉ Token.Kind.stmtHeads := by
      change Token.Kind.ident ∉ _
      decide
    apply stmt_of_simple hname ?_ hend
    rw [hbehind]
    rw [hfaces] at hread ⊢
    refine (assign_reads isAssign hread hexprs).mono ?_
    rintro found ⟨pos, opPos, value, rfl, hvalue⟩
    simp only [Stmt.unplaced, unplacedExprs, Expr.unplaced, hvalue, tree, Build.assign]
    rfl
  | ifThen test fence body =>
    simp only [Command.faces, List.cons_append, List.append_assoc, List.nil_append]
    exact reads_token fun _ => ifThen_reads hv test fence (hdeep body) hend
  | ifElse test fence body elseFence otherwise =>
    simp only [Command.faces, List.cons_append, List.append_assoc, List.nil_append]
    exact reads_token fun _ =>
      ifElse_reads hv test fence (hdeep body) elseFence (hdeep otherwise) hend
  | each key value list fence body =>
    simp only [Command.faces, List.cons_append, List.append_assoc, List.nil_append]
    exact reads_token fun _ => each_reads hw key value list fence (hdeep body) hend
  | block fence body =>
    have hsemicolon : expectSemicolon.ReadsIn K m (sep ++ g :: rest) (g :: rest) _ := hend.reads
    simp only [Command.faces, List.cons_append, List.append_assoc, List.nil_append]
    rw [hbehind] at hsemicolon ⊢
    apply reads_token
    intro pos
    dsimp only
    rw [fence.opener_kind]
    refine (block_reads fence (hdeep body)).bind fun found hfound => ?_
    refine hsemicolon.bind fun _ _ => reads_pure ?_
    rw [Stmt.unplaced, hfound, tree, Build.blockStmt]
  | ret result =>
    simp only [Command.faces, List.cons_append]
    exact reads_token fun _ => ret_reads hw result hend
  | expr e =>
    obtain ⟨f, more, hfaces, -⟩ := hv.exists_head e
    have hread := hv.reads depth m e next behind hexpr
    have hhead := hv.head_kind e f (by rw [hfaces]; rfl)
    simp only [Command.faces]
    rw [hfaces] at hread ⊢
    apply stmt_of_simple hhead ?_ hend
    rw [hbehind]
    refine (simpleStmt_reads hread hsimple).mono ?_
    rintro found ⟨value, rfl, hvalue⟩
    rw [Stmt.unplaced, hvalue, tree, Build.expr]

/-- A statement is put before those that came before it. -/
theorem round_reads (hw : w.Read K) (hv : v.Begins K)
    (hdeep : ∀ body,
      ReadsBody K (.ofDepth depth) m (bodyFaces (allFaces w v body)) (trees w v body))
    (s : Command α β) (hend : EndedBy sep g) (list : List Stmt) :
    (stmtsRound (.ofDepth depth) inBlock list).ReadsIn K m
      (Command.faces w v s ++ (sep ++ g :: rest)) (g :: rest)
      (Round.Again fun next => ∃ found, found.unplaced = tree w v s ∧ next = found :: list) := by
  obtain ⟨f, more, hfaces, hf⟩ := exists_head (w := w) hv s
  have hstmt : (stmt (.ofDepth depth)).ReadsIn K m
      (Command.faces w v s ++ (sep ++ g :: rest)) _ _ :=
    stmt_reads hw hv hdeep s hend
  rw [hfaces] at hstmt ⊢
  refine Template.stmtsRound_reads hstmt hf fun found hfound => ?_
  unfold foldValue
  split
  · next heq =>
    rw [(List.cons.inj heq).1] at hfound
    cases s <;> cases hfound
  · rfl

/-- The statements are those that came before, the last one first, and those of a script. -/
def Adds (w : Operands α) (v : Operands β) (list : List Stmt) (script : List (Command α β))
    (stmts : List Stmt) : Prop :=
  ∃ more, stmts = list.reverse ++ more ∧ unplacedStmts more = trees w v script

theorem Adds.cons {script : List (Command α β)} {s : Command α β} {found : Stmt}
    {list stmts : List Stmt} (hfound : found.unplaced = tree w v s)
    (h : Adds w v (found :: list) script stmts) : Adds w v list (s :: script) stmts := by
  obtain ⟨more, rfl, hmore⟩ := h
  refine ⟨found :: more, by simp, ?_⟩
  rw [unplacedStmts, hfound, hmore, trees]

/-- No more statements are read before what ends them. -/
theorem loops_nil (hg : g.kind = .rbrace ∨ g.kind = .eof) (list : List Stmt) :
    LoopsIn (stmtsRound (.ofDepth depth) inBlock) K m (g :: rest) (g :: rest) list
      (Adds w v list []) := by
  refine .done ((Template.stmtsRound_done hg).mono fun found hfound => ?_)
  cases found with
  | again _ => exact hfound.elim
  | done stmts => exact ⟨[], hfound.trans (List.append_nil _).symm, rfl⟩

/-- A statement is read before others. -/
theorem loops_cons {after : List Token.Face} {script : List (Command α β)} (hw : w.Read K)
    (hv : v.Begins K)
    (hdeep : ∀ body,
      ReadsBody K (.ofDepth depth) m (bodyFaces (allFaces w v body)) (trees w v body))
    (s : Command α β) (hend : EndedBy sep g)
    (hmore : ∀ list, LoopsIn (stmtsRound (.ofDepth depth) inBlock) K m (g :: rest) after list
      (Adds w v list script)) (list : List Stmt) :
    LoopsIn (stmtsRound (.ofDepth depth) inBlock) K m
      (Command.faces w v s ++ (sep ++ g :: rest)) after list (Adds w v list (s :: script)) := by
  refine .step (round_reads hw hv hdeep s hend list) ?_
  rintro next ⟨found, hfound, rfl⟩
  intro limit
  exact (hmore _ limit).mono fun stmts hstmts => hstmts.cons hfound

/-- Statements with semicolons between them are read up to the brace behind them. -/
theorem body_loops (hw : w.Read K) (hv : v.Begins K)
    (hdeep : ∀ body,
      ReadsBody K (.ofDepth depth) m (bodyFaces (allFaces w v body)) (trees w v body))
    (hg : g.kind = .rbrace) (body : List (Command α β)) (list : List Stmt) :
    LoopsIn (stmtsRound (.ofDepth depth) inBlock) K m (bodyFaces (allFaces w v body) ++ g :: rest)
      (g :: rest) list (Adds w v list body) := by
  induction body generalizing list with
  | nil => exact loops_nil (.inl hg) list
  | cons s body ih =>
    cases body with
    | nil => exact loops_cons hw hv hdeep s (.brace hg) (loops_nil (.inl hg)) list
    | cons second body =>
      obtain ⟨f, more, hmore⟩ := List.exists_cons_of_ne_nil
        (List.append_ne_nil_of_right_ne_nil (bodyFaces (allFaces w v (second :: body)))
          (List.cons_ne_nil g rest))
      rw [hmore] at ih
      have hall := loops_cons hw hv hdeep s (.semicolon ";" f) ih list
      rw [List.singleton_append, ← hmore] at hall
      have hfaces : bodyFaces (allFaces w v (s :: second :: body)) =
          Command.faces w v s ++ semicolon :: bodyFaces (allFaces w v (second :: body)) := rfl
      rw [hfaces, List.append_assoc]
      exact hall

/-- However deep phrases may nest, the statements of a block are read as their trees. -/
theorem readsBody_ofDepth (hw : w.Read K) (hv : v.Begins K) (depth m : Nat)
    (body : List (Command α β)) :
    ReadsBody K (.ofDepth depth) m (bodyFaces (allFaces w v body)) (trees w v body) := by
  induction depth generalizing body with
  | zero => exact fun g rest _ => reads_fault _
  | succ depth ih =>
    intro g rest hg
    change (stmts (.ofDepth depth) true).ReadsIn K m _ _ _
    rw [stmts_eq]
    refine (body_loops hw hv ih hg body []).reads.mono ?_
    rintro stmts ⟨more, rfl, hmore⟩
    exact hmore

/-- The statements of a script are read up to the end of the source. -/
theorem script_loops (hw : w.Read K) (hv : v.Begins K) (script : List (Command α β))
    (list : List Stmt) :
    LoopsIn (stmtsRound (.ofDepth depth) inBlock) K m (sourceFaces w v script ++ [⟨.eof, ""⟩])
      [⟨.eof, ""⟩] list (Adds w v list script) := by
  induction script generalizing list with
  | nil => exact loops_nil (.inr rfl) list
  | cons s script ih =>
    obtain ⟨f, more, hmore⟩ := List.exists_cons_of_ne_nil
      (List.append_ne_nil_of_right_ne_nil (sourceFaces w v script)
        (List.cons_ne_nil (⟨.eof, ""⟩ : Token.Face) []))
    rw [hmore] at ih
    have hall := loops_cons hw hv (readsBody_ofDepth hw hv depth m) s (.semicolon "\n" f) ih list
    rw [List.singleton_append, ← hmore] at hall
    have hfaces : sourceFaces w v (s :: script) =
        Command.faces w v s ++ [.lineBreak] ++ sourceFaces w v script := rfl
    rw [hfaces, List.append_assoc, List.append_assoc]
    exact hall

/-- A whole source that is a script is read as its trees. -/
theorem file_reads (hw : w.Read K) (hv : v.Begins K) (depth m : Nat) (script : List (Command α β)) :
    (file (.ofDepth depth)).ReadsIn K m (sourceFaces w v script ++ [⟨.eof, ""⟩]) [⟨.eof, ""⟩]
      fun stmts => unplacedStmts stmts = trees w v script := by
  have hstmts : (stmts (.ofDepth depth) false).ReadsIn K m (sourceFaces w v script ++ [⟨.eof, ""⟩])
      [⟨.eof, ""⟩] (Adds w v [] script) := by
    rw [stmts_eq]
    exact (script_loops hw hv script []).reads
  refine LoopsIn.reads (.done (hstmts.bind fun stmts ⟨more, hmore, htrees⟩ => ?_))
  apply reads_pos
  intro pos
  apply reads_isFull
  refine reads_kind (reads_pure ?_)
  rw [hmore]
  exact htrees

/-- What comes of a source whose tokens are those of a script. -/
theorem source_reads (hw : w.Read K) (hv : v.Begins K) {script : List (Command α β)} {c : Cursor}
    (h : c.GivesIn K (sourceFaces w v script ++ [⟨.eof, ""⟩])) {t : Token} {stmts : List Stmt}
    {later : Reader} (hok : Parse.source (.on m c t) = .ok stmts later) :
    unplacedStmts stmts = trees w v script ∧ later.errors = [] := by
  have hfile (depth : Nat) := file_reads hw hv depth m script
  obtain ⟨f, more, hmore⟩ := List.exists_cons_of_ne_nil
    (List.append_ne_nil_of_right_ne_nil (sourceFaces w v script)
      (List.cons_ne_nil (⟨.eof, ""⟩ : Token.Face) []))
  rw [hmore] at h hfile
  obtain ⟨hstmts, herrors, -⟩ := source_of_reads h hfile hok
  exact ⟨hstmts, herrors⟩

end Command

end TemplateScript
