import TemplateScript.Proofs.Grammar.Operand
import TemplateScript.Proofs.Template.Canonical

/-!
# Phrases of canonical templates

What the tokens of a template are read as, from the operands of its code up to its statements. The
parser comes back to where a template ends with the tree of the template in hand.
-/

namespace TemplateScript

namespace Template

open Parse Grammar

/-! ### Tokens -/

/-- The token that begins a block of code. -/
def opener (isValue : Bool) : Token.Face :=
  ⟨if isValue then .valueBegin else .codeBegin, opening isValue⟩

/-- The token that ends a block of code. -/
def closer (isValue : Bool) : Token.Face := ⟨if isValue then .valueEnd else .codeEnd, "\x7d"⟩

/-- The token of a name. -/
def Name.face (x : Name) : Token.Face := ⟨.ident, x.text⟩

mutual

/-- The tokens of a template. -/
def faces : Template → List Token.Face
  | .text run => [⟨.text, run.text⟩]
  | .value x => [opener true, x.face, closer true]
  | .define x => [opener false, x.face, ⟨.define, ""⟩, ⟨.int, "1"⟩, closer false]
  | .branch x body =>
    [opener false, ⟨.ifWord, "if"⟩, x.face, ⟨.lbrace, "do"⟩, closer false] ++
      (allFaces body ++ [opener false, ⟨.rbrace, "end"⟩, closer false])
  | .each x y body =>
    [opener false, ⟨.forWord, "for"⟩, x.face, ⟨.inWord, "in"⟩, y.face, ⟨.lbrace, "do"⟩,
        closer false] ++
      (allFaces body ++ [opener false, ⟨.rbrace, "end"⟩, closer false])

/-- The tokens of templates, in order. -/
def allFaces : List Template → List Token.Face
  | [] => []
  | t :: ts => t.faces ++ allFaces ts

end

variable {deep : Nested} {m : Nat} {before after rest : List Token.Face} {f g : Token.Face}
  {x : Name} {P : Expr → Prop}

/-! ### Text and delimiters -/

theorem mixedText_reads {run : Run} :
    mixedText.Reads m (⟨.text, run.text⟩ :: g :: rest) (g :: rest)
      fun s => ∃ pos, s = .mixedText ⟨pos, run.text, run.text, {}⟩ := by
  apply reads_token
  intro pos
  apply reads_get
  intro r
  exact reads_next.bind fun _ _ => reads_pure ⟨pos, rfl⟩

theorem delimiter_reads :
    delimiter.Reads m (f :: g :: rest) (g :: rest) fun d => ∃ pos, d = ⟨pos, f.literal, f.flags⟩ := by
  apply reads_token
  intro pos
  exact reads_next.bind fun _ _ => reads_pure ⟨pos, rfl⟩

theorem mixedValue_reads :
    (mixedValue deep).Reads m (opener true :: x.face :: closer true :: g :: rest) (g :: rest)
      fun s => ∃ pos name closed,
        s = .mixedValue (first true pos) (.ident ⟨x.text, name⟩) (last closed) := by
  refine delimiter_reads.bind fun opened ⟨pos, hopened⟩ => ?_
  refine (expr_ident (by decide)).bind fun e ⟨name, he⟩ => ?_
  refine (reads_skipSemicolons (by decide)).bind fun _ _ => reads_kind ?_
  rw [if_pos (show (closer true).kind = .valueEnd from rfl)]
  refine delimiter_reads.bind fun closing ⟨closed, hclosing⟩ => reads_pure ⟨pos, name, closed, ?_⟩
  rw [hopened, he, hclosing]
  rfl

/-! ### Statements -/

/-- The statements between the delimiters of a branch or a loop. -/
def IsBodyOf (body : List Template) (stmts : List Stmt) : Prop :=
  ∃ closed opened inner, Grows body inner ∧
    stmts = .codeEnd (last closed) :: (inner ++ [.codeBegin (first false opened)])

/-- What the statements of a block are read as, if the block is the body of a branch or a loop. -/
def ReadsBody (deep : Nested) (m : Nat) (body : List Template) : Prop :=
  ∀ rest, deep.stmts.Reads m
    (closer false :: (allFaces body ++ opener false :: ⟨.rbrace, "end"⟩ :: closer false :: rest))
    (⟨.rbrace, "end"⟩ :: closer false :: rest) (IsBodyOf body)

variable {body : List Template} {y : Name}

theorem define_reads :
    (simpleStmt deep).Reads m
      (x.face :: ⟨.define, ""⟩ :: ⟨.int, "1"⟩ :: closer false :: rest) (closer false :: rest)
      fun s => ∃ name op one,
        s = .assign [.ident ⟨x.text, name⟩] .define op [.literal ⟨.int 1, "1", one⟩] := by
  have hone : Value.ofToken? .int "1" = some (.int 1) := by rfl
  refine (assign_reads rfl (expr_literal (by decide) hone (by decide)) (by decide)).mono ?_
  rintro s ⟨name, op, e, rfl, one, rfl⟩
  exact ⟨name, op, one, rfl⟩

theorem closeBlock_reads :
    closeBlock.Reads m (⟨.rbrace, "end"⟩ :: g :: rest) (g :: rest) fun _ => True := by
  apply reads_pos
  intro pos
  apply reads_isFull
  rw [if_neg Bool.false_ne_true]
  apply reads_kind
  exact reads_next.bind fun _ _ => reads_pure trivial

theorem openBlock_reads (hbody : ReadsBody deep m body) :
    (openBlock deep).Reads m
      (⟨.lbrace, "do"⟩ :: closer false :: (allFaces body ++
        opener false :: ⟨.rbrace, "end"⟩ :: closer false :: rest)) (closer false :: rest)
      fun found => found.2 = false ∧ ∃ lbrace closed opened rbrace inner, Grows body inner ∧
        found.1 = bodyOf lbrace closed opened rbrace inner := by
  refine (reads_expect rfl).bind fun lbrace _ => ?_
  refine (hbody rest).bind fun stmts ⟨closed, opened, inner, hgrows, hstmts⟩ => ?_
  apply reads_kind
  rw [if_neg (by decide)]
  refine closeBlock_reads.bind fun rbrace _ => reads_pure ⟨rfl, ?_⟩
  rw [hstmts]
  exact ⟨lbrace, closed, opened, rbrace, inner, hgrows, rfl⟩

theorem ifStmt_reads (hbody : ReadsBody deep m body) :
    (ifStmt deep).Reads m
      (⟨.ifWord, "if"⟩ :: x.face :: ⟨.lbrace, "do"⟩ :: closer false :: (allFaces body ++
        opener false :: ⟨.rbrace, "end"⟩ :: closer false :: rest)) (closer false :: rest)
      fun s => ∃ word test lbrace closed opened rbrace inner, Grows body inner ∧
        s = .ifElse word none (.ident ⟨x.text, test⟩) (bodyOf lbrace closed opened rbrace inner)
          none := by
  have hhead (after : List Token.Face) : (ifHead deep).Reads m (x.face :: ⟨.lbrace, "do"⟩ :: after)
      (⟨.lbrace, "do"⟩ :: after) fun found => ∃ pos, found = (none, .ident ⟨x.text, pos⟩) := by
    apply reads_kind
    refine (simpleStmt_reads (expr_ident (by decide)) (by decide)).bind
      fun s ⟨e, hs, pos, he⟩ => ?_
    refine (reads_accept_none (by decide)).bind fun found hfound => ?_
    subst hs he hfound
    exact reads_pure ⟨pos, rfl⟩
  refine (reads_expect rfl).bind fun word _ => ?_
  refine (hhead _).bind fun found ⟨test, hfound⟩ => ?_
  subst hfound
  refine (openBlock_reads hbody).bind
    fun (block, isShared) ⟨_, lbrace, closed, opened, rbrace, inner, hgrows, hblock⟩ => ?_
  refine (reads_accept_none (by decide)).bind fun found hfound => ?_
  subst hfound hblock
  refine (reads_expectSemicolon (by decide)).bind fun _ _ => reads_pure ?_
  exact ⟨word, test, lbrace, closed, opened, rbrace, inner, hgrows, rfl⟩

theorem forStmt_reads (hbody : ReadsBody deep m body) :
    (forStmt deep).Reads m
      (⟨.forWord, "for"⟩ :: x.face :: ⟨.inWord, "in"⟩ :: y.face :: ⟨.lbrace, "do"⟩ ::
        closer false :: (allFaces body ++
          opener false :: ⟨.rbrace, "end"⟩ :: closer false :: rest)) (closer false :: rest)
      fun s => ∃ word key list lbrace closed opened rbrace inner, Grows body inner ∧
        s = .forIn word ⟨x.text, key⟩ none (.ident ⟨y.text, list⟩)
          (bodyOf lbrace closed opened rbrace inner) none := by
  refine (reads_expect rfl).bind fun word _ => ?_
  apply reads_kind
  refine (exprs_reads (expr_ident (by decide)) (by decide)).bind
    fun targets ⟨e, htargets, key, he⟩ => ?_
  subst htargets he
  apply reads_kind
  rw [if_pos rfl]
  apply reads_pos
  intro inPos
  refine reads_next.bind fun _ _ => ?_
  refine (expr_ident (by decide)).bind fun e ⟨list, he⟩ => ?_
  subst he
  unfold loopBody
  rw [bind_assoc]
  refine (openBlock_reads hbody).bind
    fun (block, isShared) ⟨_, lbrace, closed, opened, rbrace, inner, hgrows, hblock⟩ => ?_
  subst hblock
  dsimp only
  rw [bind_assoc]
  have helse : (loopElse deep isShared).Reads m (closer false :: rest) (closer false :: rest)
      (· = none) := by
    refine (reads_accept_none (by decide)).bind fun found hfound => ?_
    subst hfound
    exact reads_pure rfl
  refine helse.bind fun found hfound => ?_
  rw [bind_assoc]
  refine (reads_expectSemicolon (by decide)).bind fun _ _ => reads_pure ?_
  exact ⟨word, key, list, lbrace, closed, opened, rbrace, inner, hgrows, by rw [hfound]⟩

/-! ### Lists of statements -/

variable {K : Token.Outlook} {S : Stmt → Prop} {inBlock : Bool} {list : List Stmt}
  {ts : List Template}

/-- A statement is put before those that came before it, unless a value is made of them. -/
theorem stmtsRound_reads (h : (stmt deep).ReadsIn K m (f :: before) after S)
    (hf : [Token.Kind.rbrace, .eof, .elseWord].contains f.kind = false)
    (hkeep : ∀ s, S s → foldValue (s :: list) = s :: list) :
    (stmtsRound deep inBlock list).ReadsIn K m (f :: before) after
      (Round.Again fun next => ∃ s, S s ∧ next = s :: list) := by
  have hend : (atStmtsEnd inBlock).ReadsIn K m (f :: before) (f :: before) (· = false) := by
    apply reads_kind
    apply reads_isFull
    refine reads_pure ?_
    simp only [List.contains_eq_mem, List.mem_cons, List.not_mem_nil, or_false,
      decide_eq_false_iff_not, not_or] at hf
    simp [hf]
  have hadd (s : Stmt) (hs : S s) :
      (addStmt list s).ReadsIn K m after after fun next => next = s :: list := by
    unfold addStmt
    split
    · apply reads_get
      intro r
      split
      · exact reads_pure (hkeep _ hs)
      · exact reads_pure rfl
    · exact reads_pure rfl
  refine hend.bind fun found hfound => ?_
  subst hfound
  rw [if_neg Bool.false_ne_true]
  apply reads_token
  intro pos
  refine h.attempt.bind fun found ⟨s, hfound, hs⟩ => ?_
  subst hfound
  exact (hadd s hs).bind fun next hnext => reads_pure ⟨s, hs, hnext⟩

theorem stmtsRound_done (hf : f.kind = .rbrace ∨ f.kind = .eof) :
    (stmtsRound deep inBlock list).ReadsIn K m (f :: rest) (f :: rest)
      (Round.Done (· = list.reverse)) := by
  have hend : (atStmtsEnd inBlock).ReadsIn K m (f :: rest) (f :: rest) (· = true) := by
    apply reads_kind
    apply reads_isFull
    refine reads_pure ?_
    rcases hf with hf | hf <;> simp [hf]
  refine hend.bind fun found hfound => ?_
  subst hfound
  exact reads_pure rfl

/-- A delimiter between statements. -/
theorem stmt_opener :
    (stmt deep).Reads m (opener false :: g :: rest) (g :: rest)
      fun s => ∃ pos, s = .codeBegin (first false pos) :=
  reads_token fun _ => delimiter_reads.bind fun _ ⟨pos, hd⟩ => reads_pure ⟨pos, by rw [hd]; rfl⟩

theorem stmt_closer :
    (stmt deep).Reads m (closer false :: g :: rest) (g :: rest)
      fun s => ∃ pos, s = .codeEnd (last pos) :=
  reads_token fun _ => delimiter_reads.bind fun _ ⟨pos, hd⟩ => reads_pure ⟨pos, by rw [hd]; rfl⟩

theorem exists_cons (ts : List Template) (g : Token.Face) (rest : List Token.Face) :
    ∃ g' rest', allFaces ts ++ g :: rest = g' :: rest' := by
  cases h : allFaces ts with
  | nil => exact ⟨g, rest, rfl⟩
  | cons g' rest' => exact ⟨g', rest' ++ g :: rest, rfl⟩

/-- A block of code between delimiters, with one statement in it that is no expression. -/
theorem code_loops {P : List Stmt → Prop}
    (h : (stmt deep).Reads m (f :: before) (closer false :: g :: rest) S)
    (hf : [Token.Kind.rbrace, .eof, .elseWord].contains f.kind = false)
    (hS : ∀ s, S s → (∀ e, s ≠ .expr e) ∧ ∀ d, s ≠ .codeEnd d)
    (hnext : ∀ pos s closed, S s → Loops (stmtsRound deep inBlock) m (g :: rest) after
      (.codeEnd (last closed) :: s :: .codeBegin (first false pos) :: list) P) :
    Loops (stmtsRound deep inBlock) m (opener false :: f :: before) after list P := by
  refine .step (stmtsRound_reads stmt_opener rfl ?_) ?_
  · rintro s ⟨pos, rfl⟩
    rfl
  rintro opened ⟨s, ⟨pos, rfl⟩, rfl⟩
  refine .step (stmtsRound_reads h hf ?_) ?_
  · intro s hs
    unfold foldValue
    split
    · next heq => exact absurd (List.cons.inj heq).1 ((hS s hs).2 _)
    · rfl
  rintro inside ⟨s, hs, rfl⟩
  refine .step (stmtsRound_reads stmt_closer rfl ?_) ?_
  · rintro d ⟨closed, rfl⟩
    unfold foldValue
    split
    · next heq => exact absurd (List.cons.inj (List.cons.inj heq).2).1 ((hS s hs).1 _)
    · rfl
  rintro behind ⟨d, ⟨closed, rfl⟩, rfl⟩
  exact hnext pos s closed hs

/-- Templates are read to their end, where the tree of them stands before what came before. -/
theorem loops_templates (hdeep : ∀ body, ReadsBody deep m body) {P : List Stmt → Prop}
    (ts : List Template) (list : List Stmt)
    (hnext : ∀ stmts, Grows ts stmts →
      Loops (stmtsRound deep inBlock) m (g :: rest) after (stmts.reverse ++ list) P) :
    Loops (stmtsRound deep inBlock) m (allFaces ts ++ g :: rest) after list P := by
  induction ts generalizing list with
  | nil => exact hnext [] .nil
  | cons t ts ih =>
    obtain ⟨g', rest', hmore⟩ := exists_cons ts g rest
    have hrest (stmts : List Stmt) (hgrow : ∀ later, Grows ts later →
        Grows (t :: ts) (stmts.reverse ++ later)) :
        Loops (stmtsRound deep inBlock) m (g' :: rest') after (stmts ++ list) P := by
      rw [← hmore]
      refine ih _ fun later hlater => ?_
      have := hnext _ (hgrow later hlater)
      rwa [List.reverse_append, List.reverse_reverse, List.append_assoc] at this
    rw [allFaces, List.append_assoc, hmore]
    cases t with
    | text run =>
      refine .step (stmtsRound_reads (reads_token fun _ => mixedText_reads) rfl ?_) ?_
      · rintro s ⟨pos, rfl⟩
        rfl
      rintro behind ⟨s, ⟨pos, rfl⟩, rfl⟩
      exact hrest [_] fun later hlater => .text hlater
    | value x =>
      refine .step (stmtsRound_reads (reads_token fun _ => mixedValue_reads) rfl ?_) ?_
      · rintro s ⟨pos, name, closed, rfl⟩
        rfl
      rintro behind ⟨s, ⟨pos, name, closed, rfl⟩, rfl⟩
      exact hrest [_] fun later hlater => .value hlater
    | define x =>
      have hstmt : (stmt deep).Reads m
          (x.face :: ⟨.define, ""⟩ :: ⟨.int, "1"⟩ :: closer false :: g' :: rest')
          (closer false :: g' :: rest') _ :=
        reads_token fun _ => define_reads.bind fun s hs =>
          (reads_expectSemicolon (by decide)).bind fun _ _ => reads_pure hs
      refine code_loops hstmt rfl ?_ ?_
      · rintro s ⟨name, op, one, rfl⟩
        exact ⟨nofun, nofun⟩
      · rintro pos s closed ⟨name, op, one, rfl⟩
        exact hrest [_, _, _] fun later hlater => .define hlater
    | branch x body =>
      have hstmt : (stmt deep).Reads m _ (closer false :: g' :: rest') _ :=
        reads_token fun _ => ifStmt_reads (x := x) (hdeep body)
      simp only [faces, List.append_assoc, List.cons_append, List.nil_append]
      refine code_loops hstmt rfl ?_ ?_
      · rintro s ⟨word, test, lbrace, closed, opened, rbrace, inner, hgrows, rfl⟩
        exact ⟨nofun, nofun⟩
      · rintro pos s stop ⟨word, test, lbrace, closed, opened, rbrace, inner, hgrows, rfl⟩
        exact hrest [_, _, _] fun later hlater => .branch hgrows hlater
    | each x y body =>
      have hstmt : (stmt deep).Reads m _ (closer false :: g' :: rest') _ :=
        reads_token fun _ => forStmt_reads (x := x) (y := y) (hdeep body)
      simp only [faces, List.append_assoc, List.cons_append, List.nil_append]
      refine code_loops hstmt rfl ?_ ?_
      · rintro s ⟨word, key, names, lbrace, closed, opened, rbrace, inner, hgrows, rfl⟩
        exact ⟨nofun, nofun⟩
      · rintro pos s stop ⟨word, key, names, lbrace, closed, opened, rbrace, inner, hgrows, rfl⟩
        exact hrest [_, _, _] fun later hlater => .each hgrows hlater

/-- However deep phrases may nest, the body of a branch or a loop is read as its tree. -/
theorem readsBody_ofDepth (depth m : Nat) (body : List Template) :
    ReadsBody (.ofDepth depth) m body := by
  induction depth generalizing body with
  | zero => exact fun rest => reads_fault _
  | succ depth ih =>
    intro rest
    obtain ⟨g, more, hmore⟩ := exists_cons body (opener false)
      (⟨.rbrace, "end"⟩ :: closer false :: rest)
    change (stmts (.ofDepth depth) true).Reads m _ _ _
    rw [stmts_eq, hmore]
    refine LoopsIn.reads (.step (stmtsRound_reads stmt_closer rfl ?_) ?_)
    · rintro s ⟨pos, rfl⟩
      rfl
    rintro list ⟨s, ⟨closed, rfl⟩, rfl⟩
    rw [← hmore]
    refine loops_templates ih body _ fun inner hgrows => ?_
    refine .step (stmtsRound_reads stmt_opener rfl ?_) ?_
    · rintro s ⟨pos, rfl⟩
      rfl
    rintro list ⟨s, ⟨opened, rfl⟩, rfl⟩
    refine .done ((stmtsRound_done (.inl rfl)).mono ?_)
    intro found hfound
    cases found with
    | again _ => exact hfound.elim
    | done stmts =>
      refine ⟨closed, opened, inner, hgrows, hfound.trans ?_⟩
      simp

/-- A whole source of templates is read as their tree. -/
theorem file_reads (depth m : Nat) (ts : List Template) :
    (file (.ofDepth depth)).Reads m (allFaces ts ++ [⟨.eof, ""⟩]) [⟨.eof, ""⟩] (Grows ts) := by
  have hstmts : (stmts (.ofDepth depth) false).Reads m (allFaces ts ++ [⟨.eof, ""⟩]) [⟨.eof, ""⟩]
      (Grows ts) := by
    rw [stmts_eq]
    refine LoopsIn.reads (loops_templates (readsBody_ofDepth depth m) ts [] fun stmts hgrows => ?_)
    refine .done ((stmtsRound_done (.inr rfl)).mono ?_)
    intro found hfound
    cases found with
    | again _ => exact hfound.elim
    | done all =>
      rw [Round.Done, List.append_nil, List.reverse_reverse] at hfound
      exact hfound ▸ hgrows
  refine LoopsIn.reads (.done (hstmts.bind fun stmts hgrows => ?_))
  apply reads_pos
  intro pos
  apply reads_isFull
  exact reads_kind (reads_pure hgrows)

/-- What comes of a source whose tokens are those of templates. -/
theorem source_grows {ts : List Template} {c : Cursor} (h : c.Gives (allFaces ts ++ [⟨.eof, ""⟩]))
    {t : Token} {m : Nat} {stmts : List Stmt} {later : Reader}
    (hok : Parse.source (.on m c t) = .ok stmts later) :
    Grows ts stmts ∧ later.errors = [] ∧ later.comments = [] := by
  have hfile (depth : Nat) := file_reads depth m ts
  obtain ⟨g, rest, hfaces⟩ := exists_cons ts ⟨.eof, ""⟩ []
  rw [hfaces] at h hfile
  exact source_of_reads h hfile hok

end Template

end TemplateScript
