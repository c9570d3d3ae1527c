import TemplateScript.Proofs.Extent.Expression

/-!
# Extents of statements

Every phrase for a statement of code promises a tree between the token it begins at and the one
behind it. A block that an `else` closes ends one byte behind where the `else` begins, so that it
lies before whatever follows the `else`.
-/

namespace TemplateScript

section Nodes

variable {lo mid hi : Pos}

theorem Stmt.within_expr {e : Expr} (h : e.Within lo hi) : (Stmt.expr e).Within lo hi :=
  .ending (.expr e) h.lo_le rfl List.mem_cons_self h.from_pos
    (List.forall_mem_singleton.2 (.inl rfl))

/-- The expression that a statement is. -/
theorem Stmt.Within.ofExpr {e : Expr} (h : (Stmt.expr e).Within lo hi) : e.Within lo hi :=
  ⟨h.lo_le, h.pos_le, h.pos_le_stop, fun slack hsure =>
    (h.lies slack (hsure.imp_right fun ⟨_, he⟩ =>
      ⟨trivial, .intro trivial (List.forall_mem_singleton.2 he)⟩)).parts _ List.mem_cons_self⟩

theorem Stmt.within_block {body : Block Stmt} (h : body.Within lo hi) :
    (Stmt.block body).Within lo hi :=
  .closed h.lo_le h.le (Nat.le_succ _) h.stop_le
    (List.forall_mem_map.2 fun s hs => (h.stmts s hs).anywhere)

/-- The parts of blocks one behind the other lie before the brace that closes the last. -/
structure BlocksWithin (lo hi : Pos) (last : Block Stmt) (parts : List Node) : Prop where
  lo_le : lo ≤ last.rbrace
  parts : ∀ m ∈ parts, m.Within lo last.rbrace
  stop_le : last.stop ≤ hi

namespace BlocksWithin

variable {last body : Block Stmt} {parts : List Node}

theorem one (h : body.Within lo hi) : BlocksWithin lo hi body (Node.ofBlock body) :=
  ⟨Nat.le_trans h.lo_le h.le, h.parts, h.stop_le⟩

theorem more (h : BlocksWithin lo mid last parts) (hbody : body.Within mid hi) :
    BlocksWithin lo hi body (parts ++ Node.ofBlock body) := by
  have hclosed : last.rbrace ≤ mid := Nat.le_of_succ_le h.stop_le
  have hbegin : mid ≤ body.rbrace := Nat.le_trans hbody.lo_le hbody.le
  have hmid : lo ≤ mid := Nat.le_trans h.lo_le hclosed
  refine ⟨Nat.le_trans hmid hbegin, List.forall_mem_append.2 ⟨fun m hm => ?_, fun m hm => ?_⟩,
    hbody.stop_le⟩
  · exact (h.parts m hm).upTo (Nat.le_trans hclosed hbegin)
  · exact (hbody.parts m hm).since hmid

theorem mono (h : BlocksWithin lo mid last parts) {lo' : Pos} (hlo : lo' ≤ lo) (hhi : mid ≤ hi) :
    BlocksWithin lo' hi last parts :=
  ⟨Nat.le_trans hlo h.lo_le, fun m hm => (h.parts m hm).since hlo, Nat.le_trans h.stop_le hhi⟩

/-- A statement that ends with its blocks, behind whatever else it is made of. -/
theorem within {s : Stmt} (before : List Node) (h : BlocksWithin lo hi last parts)
    (hpos : s.pos = lo) (hstop : s.stop = last.stop)
    (hbefore : ∀ m ∈ before, m.Within lo last.rbrace)
    (hchildren : ∀ m ∈ s.children, m ∈ before ∨ m ∈ parts) : s.Within lo hi := by
  subst hpos
  have hend : last.rbrace ≤ s.stop := hstop.symm ▸ Nat.le_succ _
  refine .closed (Nat.le_refl _) h.lo_le hend (hstop.trans_le h.stop_le) fun m hm => ?_
  rcases hchildren m hm with hm | hm
  · exact (hbefore m hm).anywhere
  · exact (h.parts m hm).anywhere

end BlocksWithin

end Nodes

namespace Grammar

open Parse

variable {given : Prop} {deep : Nested} {t u : Token} {lo : Pos}

/-! ### Simple statements -/

theorem checkTargets_covers (op : Token.Kind) (list : List Expr) :
    Covers given t (checkTargets op list) fun _ _ => True := by
  induction list generalizing given t with
  | nil => exact .pure fun _ => trivial
  | cons e rest ih =>
    unfold checkTargets
    dsimp only
    split
    · exact (Covers.errorAt _ _).bind fun _ _ _ => ih
    · exact ih

/-- An assignment ends with the last of its values. -/
theorem within_assign {targets values : List Expr} {op : Token.Kind} {hi : Pos}
    (hu : t.Precedes u) (htargets : targets ≠ []) (hvalues : values ≠ [])
    (htargetsRow : Node.Row lo t.pos (targets.map .expr))
    (hvaluesRow : Node.Row u.pos hi (values.map .expr)) :
    (Stmt.assign targets op t.pos values).Within lo hi := by
  obtain ⟨first, rest, rfl⟩ := List.exists_cons_of_ne_nil htargets
  obtain ⟨before, tail, rfl⟩ := List.eq_nil_or_concat' values |>.resolve_left hvalues
  obtain ⟨mid, hfirst, hrest⟩ := htargetsRow
  rw [List.map_append] at hvaluesRow
  obtain ⟨last, hbefore, htail⟩ := Node.Row.snoc_iff.1 hvaluesRow
  have hbegin : first.pos ≤ mid := hfirst.pos_le
  have hopen : first.pos ≤ u.pos := Nat.le_trans hbegin (Nat.le_trans hrest.le hu.le)
  have hend : u.pos ≤ tail.pos := Nat.le_trans hbefore.le htail.lo_le
  have hstop : (Stmt.assign (first :: rest) op t.pos (before ++ [tail])).stop = tail.stop := by
    simp [Stmt.stop]
  refine .ending (.expr tail) hfirst.lo_le hstop ?_
    (htail.since (Nat.le_trans hopen hbefore.le)) fun m hm => ?_
  · simp [Node.children, Stmt.children]
  · simp only [Node.children, Stmt.children, List.map_append, List.map_cons, List.map_nil,
      List.cons_append, List.mem_cons, List.mem_append, List.not_mem_nil, or_false] at hm
    rcases hm with rfl | hm | hm | rfl
    · exact .inr (hfirst.from_pos.upTo
        (Nat.le_trans hrest.le (Nat.le_trans hu.le hend))).anywhere
    · exact .inr ((hrest.within m hm).mono hbegin (Nat.le_trans hu.le hend)).anywhere
    · exact .inr ((hbefore.within m hm).mono hopen htail.lo_le).anywhere
    · exact .inl rfl

/-- Expressions one behind the other, of which there is one at least. -/
def ExprsWithin (lo hi : Pos) (list : List Expr) : Prop :=
  list ≠ [] ∧ Node.Row lo hi (list.map .expr)

theorem assignment_covers (hdeep : deep.Covers) {targets : List Expr} :
    Covers (ExprsWithin lo t.pos targets ∧ given) t (assignment deep targets)
      fun s u => s.Within lo u.pos := by
  unfold assignment
  refine .token_bind (.next_bind fun u hu => (checkTargets_covers _ _).bind fun _ v hv =>
    (exprs_covers hdeep).bind fun values w hw => ?_)
  dsimp only
  split
  · exact (Covers.errorAt _ _).bind fun _ _ _ => .pure fun h => h.1.elim
  · refine .pure ?_
    rintro ⟨⟨hvalues, hvaluesRow⟩, -, ⟨htargets, htargetsRow⟩, -⟩
    exact within_assign hu htargets hvalues htargetsRow (hvaluesRow.mono hv (Nat.le_refl _))

theorem increment_covers {target : Expr} (hkind : t.kind = .inc ∨ t.kind = .dec) :
    Covers (target.Within lo t.pos ∧ given) t (increment target) fun s u => s.Within lo u.pos := by
  have hmark (u : Token) (hu : t.Precedes u) : t.pos + 2 ≤ u.pos := by
    rcases hkind with hkind | hkind
    · exact hu.spelling_le hkind rfl
    · exact hu.spelling_le hkind rfl
  unfold increment
  refine .token_bind ?_
  dsimp only
  split
  · exact (Covers.errorAt _ _).bind fun _ _ _ => .next_bind fun _ _ => .pure fun h => h.1.elim
  · refine .next_bind fun u hu => .pure ?_
    rintro ⟨htarget, -⟩
    exact .closed htarget.lo_le htarget.pos_le (Nat.le_add_right ..) (hmark u hu)
      (List.forall_mem_singleton.2 htarget.from_pos.anywhere)

theorem simpleStmtFrom_covers (hdeep : deep.Covers) (list : List Expr) :
    Covers (ExprsWithin lo t.pos list ∧ given) t (simpleStmtFrom deep list)
      fun s u => s.Within lo u.pos := by
  unfold simpleStmtFrom
  refine .kind_bind ?_
  split
  · exact assignment_covers hdeep
  · split
    · next e =>
      have hsingle (h : ExprsWithin lo t.pos [e]) : e.Within lo t.pos :=
        Node.Row.singleton_iff.1 h.2
      split
      · next hkind =>
        exact (increment_covers (by simpa using hkind)).weaken fun h => ⟨hsingle h.1, h.2⟩
      · exact .pure fun h => Stmt.within_expr (hsingle h.1)
    · exact .failExpected _
    · exact .failExpected _

theorem simpleStmt_covers (hdeep : deep.Covers) :
    Covers given t (simpleStmt deep) fun s u => s.Within t.pos u.pos := by
  unfold simpleStmt
  exact (exprs_covers hdeep).bind fun list u hu => simpleStmtFrom_covers hdeep list

/-! ### Blocks and branches -/

/-- A block before a token. If that is an `else`, it may close the block. -/
structure OpenWithin (lo : Pos) (body : Block Stmt) (u : Token) : Prop where
  closed : u.kind ≠ .elseWord → body.Within lo u.pos
  shared : u.kind = .elseWord → body.Within lo (u.pos + 1)

/-- Whatever closes a block, it lies before what follows the `else`. -/
theorem OpenWithin.behind {body : Block Stmt} {v : Token} (h : OpenWithin lo body u)
    (hkind : u.kind = .elseWord) (hv : u.Precedes v) : body.Within lo v.pos :=
  (h.shared hkind).mono (Nat.le_refl _) (hv.succ_le hkind rfl)

theorem openBlock_covers (hdeep : deep.Covers) :
    Covers given t (openBlock deep) fun opened u => OpenWithin t.pos opened.1 u := by
  unfold openBlock
  refine .expect_bind fun u _ hu => ((hdeep.stmts u).weaken fun _ => trivial).bind
    fun list v hv => .kind_bind ?_
  have hbegin := Nat.le_trans hu.le hv
  split
  · next hkind =>
    refine .pos_bind (.pure fun ⟨hlist, _⟩ => ⟨fun hne => absurd hkind hne, fun _ => ?_⟩)
    exact ⟨Nat.le_refl _, hbegin, fun s hs => (hlist s hs).since hu.le, Nat.le_refl _⟩
  · refine closeBlock_covers.bind fun rbrace w hw => .pure ?_
    rintro ⟨⟨rfl, hend⟩, hlist, -⟩
    have hbody : Block.Within t.pos w.pos ⟨t.pos, list, v.pos⟩ :=
      ⟨Nat.le_refl _, hbegin, fun s hs => (hlist s hs).since hu.le, hend⟩
    exact ⟨fun _ => hbody, fun _ => hbody.mono (Nat.le_refl _) (Nat.le_succ _)⟩

theorem sharedBlock_covers (hdeep : deep.Covers) :
    Covers given t (sharedBlock deep) fun body u => body.Within t.pos u.pos := by
  unfold sharedBlock
  refine .pos_bind (((hdeep.stmts t).weaken fun _ => trivial).bind fun list u hu =>
    closeBlock_covers.bind fun rbrace v hv => .pure ?_)
  rintro ⟨⟨rfl, hend⟩, hlist, -⟩
  exact ⟨Nat.le_refl _, hu, hlist, hend⟩

theorem failCondition_covers {α : Type} {promise : α → Token → Prop} (wanted : String) (s : Stmt) :
    Covers given t (failCondition wanted s : Parse α) promise :=
  .failAt _ _

/-- A condition in a range, and a statement before it. -/
def HeadWithin (lo hi : Pos) (head : Option Stmt × Expr) : Prop :=
  (∀ s ∈ head.1, s.Within lo hi) ∧ head.2.Within lo hi

theorem ifHead_covers (hdeep : deep.Covers) :
    Covers given t (ifHead deep) fun head u => HeadWithin t.pos u.pos head := by
  unfold ifHead
  refine .kind_bind ?_
  split
  · exact .failExpected _
  · exact .next_bind fun u hu => (expr_covers hdeep).bind fun test v hv => .pure fun h =>
      ⟨by simp, h.1.since hu.le⟩
  · refine (simpleStmt_covers hdeep).bind fun first u hu => .accept_bind (fun v _ hv => ?_)
      fun _ => ?_
    · refine (expr_covers hdeep).bind fun test w hw => .pure fun ⟨htest, hfirst, _⟩ => ?_
      exact ⟨by simpa using hfirst.upTo (Nat.le_trans hv.le hw),
        htest.since (Nat.le_trans hu hv.le)⟩
    · rw [if_neg Bool.false_ne_true]
      split
      · exact .pure fun h => ⟨by simp, h.1.ofExpr⟩
      · exact failCondition_covers _ _

theorem ifElse_covers (hdeep : deep.Covers) (isShared : Bool) :
    Covers given t (ifElse deep isShared) fun s u => s.Within t.pos u.pos := by
  unfold ifElse
  refine .kind_bind ?_
  split
  · exact (hdeep.ifStmt t).weaken fun _ => trivial
  · exact (block_covers hdeep).bind fun body u hu => .expectSemicolon_bind fun v hv =>
      .pure fun h => (Stmt.within_block h.1).upTo hv
  · split
    · exact (sharedBlock_covers hdeep).bind fun body u hu => .expectSemicolon_bind fun v hv =>
        .pure fun h => (Stmt.within_block h.1).upTo hv
    · exact .failExpected _

/-- The parts of a branch before its `else`. -/
theorem head_parts {pos mid hi : Pos} {head : Option Stmt × Expr} {body : Block Stmt}
    (hpos : pos ≤ lo) (hhead : HeadWithin lo mid head) (hmid : mid ≤ hi)
    (hbody : ∀ m ∈ Node.ofBlock body, m.Within mid hi) (hle : lo ≤ mid) :
    ∀ m ∈ Node.expr head.2 :: (head.1.toList.map Node.stmt ++ Node.ofBlock body),
      m.Within pos hi := by
  refine List.forall_mem_cons.2 ⟨hhead.2.mono hpos hmid, fun m hm => ?_⟩
  rcases List.mem_append.1 hm with hm | hm
  · obtain ⟨s, hs, rfl⟩ := List.mem_map.1 hm
    exact (hhead.1 s (Option.mem_toList.1 hs)).mono hpos hmid
  · exact (hbody m hm).since (Nat.le_trans hpos hle)

theorem ifStmt_covers (hdeep : deep.Covers) :
    Covers given t (ifStmt deep) fun s u => s.Within t.pos u.pos := by
  unfold ifStmt
  refine .expect_bind fun u _ hu => (ifHead_covers hdeep).bind fun (init, test) v hv =>
    (openBlock_covers hdeep).bind fun (body, isShared) w hw =>
      .accept_bind (fun x hkind hx => ?_) fun hkind => ?_
  · refine (ifElse_covers hdeep _).bind fun otherwise y hy => .pure ?_
    rintro ⟨hotherwise, hopened, hhead, -⟩
    have hbody := hopened.behind hkind hx
    have hend : body.rbrace ≤ otherwise.pos :=
      Nat.le_trans (Nat.le_of_succ_le hbody.stop_le) hotherwise.lo_le
    have hbegin := Nat.le_trans hu.le (Nat.le_trans hv (Nat.le_trans hw hx.le))
    refine .ending (.stmt otherwise) (Nat.le_refl _) rfl ?_ (hotherwise.since hbegin) fun m hm => ?_
    · simp [Node.children, Stmt.children]
    · have hparts := head_parts hu.le hhead
        (Nat.le_trans hbody.lo_le (Nat.le_trans hbody.le hend))
        (fun m hm => (hbody.parts m hm).upTo hend) hv
      change m ∈ (Node.expr test :: (init.toList.map Node.stmt ++ Node.ofBlock body)) ++
        [Node.stmt otherwise] at hm
      rcases List.mem_append.1 hm with hm | hm
      · exact .inr (hparts m hm).anywhere
      · exact .inl (List.mem_singleton.1 hm)
  · refine .expectSemicolon_bind fun x hx => .pure ?_
    rintro ⟨hopened, hhead, -⟩
    have hbody := hopened.closed hkind
    have hbegin := Nat.le_trans hu.le hv
    have hparts := head_parts hu.le hhead (Nat.le_trans hbody.lo_le hbody.le) hbody.parts hv
    refine .closed (Nat.le_refl _) (Nat.le_trans hbegin (Nat.le_trans hbody.lo_le hbody.le))
      (Nat.le_succ _) (Nat.le_trans hbody.stop_le hx) fun m hm => ?_
    exact (hparts m (by simpa [Node.children, Stmt.children] using hm)).anywhere

/-! ### Loops -/

theorem loopElse_covers (hdeep : deep.Covers) (isShared : Bool) :
    Covers given t (loopElse deep isShared) fun otherwise u =>
      (otherwise = none → t.kind ≠ .elseWord) ∧
        ∀ b ∈ otherwise, t.kind = .elseWord ∧ b.Within (t.pos + 1) u.pos := by
  unfold loopElse
  refine .accept_bind (fun u hkind hu => .kind_bind ?_) fun hkind => .pure fun _ =>
    ⟨fun _ => hkind, by simp⟩
  have hbegin := hu.succ_le hkind rfl
  split
  · refine (block_covers hdeep).bind fun body v hv => .pure fun h => ⟨nofun, ?_⟩
    simpa using ⟨hkind, h.1.mono hbegin (Nat.le_refl _)⟩
  · split
    · refine (sharedBlock_covers hdeep).bind fun body v hv => .pure fun h => ⟨nofun, ?_⟩
      simpa using ⟨hkind, h.1.mono hbegin (Nat.le_refl _)⟩
    · exact .failExpected _

/-- The body of a loop and its `else`, which ends it if there is one. -/
abbrev LoopWithin (lo hi : Pos) (body : Block Stmt) (otherwise : Option (Block Stmt)) : Prop :=
  BlocksWithin lo hi (otherwise.getD body)
    (Node.ofBlock body ++ otherwise.toList.flatMap Node.ofBlock)

theorem loopBody_covers (hdeep : deep.Covers) :
    Covers given t (loopBody deep) fun loop u => LoopWithin t.pos u.pos loop.1 loop.2 := by
  unfold loopBody
  refine (openBlock_covers hdeep).bind fun (body, isShared) u hu => (loopElse_covers hdeep _).bind
    fun otherwise v hv => .expectSemicolon_bind fun w hw => .pure ?_
  rintro ⟨⟨hnone, hsome⟩, hopened, -⟩
  cases otherwise with
  | none =>
    have hbody := BlocksWithin.one (hopened.closed (hnone rfl))
    simpa [LoopWithin] using hbody.mono (Nat.le_refl _) (Nat.le_trans hv hw)
  | some otherwise =>
    obtain ⟨hkind, hotherwise⟩ := hsome otherwise rfl
    have hblocks := (BlocksWithin.one (hopened.shared hkind)).more hotherwise
    simpa [LoopWithin] using hblocks.mono (Nat.le_refl _) hw

theorem loopNames_covers (list : List Expr) :
    Covers given t (loopNames list) fun _ _ => True := by
  induction list generalizing given t with
  | nil => exact .pure fun _ => trivial
  | cons e rest ih =>
    unfold loopNames
    split
    · exact ih.bind fun _ _ _ => .pure fun _ => trivial
    · exact .failAt _ _

/-- What follows the names of a loop over the elements of a collection. -/
theorem iterable_covers (hdeep : deep.Covers) {forPos : Pos} (hpos : forPos ≤ t.pos)
    (names : Ident × Option Ident) :
    Covers given t
      (do
        next
        let iterable ← expr deep
        let (body, otherwise) ← loopBody deep
        return Stmt.forIn forPos names.1 names.2 iterable body otherwise)
      fun s u => s.Within forPos u.pos := by
  refine .next_bind fun u hu => (expr_covers hdeep).bind fun iterable v hv =>
    (loopBody_covers hdeep).bind fun (body, otherwise) w hw => .pure ?_
  rintro ⟨hloop, hiterable, -⟩
  have hbegin := Nat.le_trans hpos hu.le
  refine (hloop.mono (Nat.le_trans hbegin hv) (Nat.le_refl _)).within [.expr iterable] rfl rfl
    (List.forall_mem_singleton.2 (hiterable.mono hbegin hloop.lo_le)) fun m hm => ?_
  simpa [Stmt.children] using hm

theorem forIn_covers (hdeep : deep.Covers) {forPos : Pos} (hpos : forPos ≤ t.pos)
    (list : List Expr) :
    Covers given t (forIn deep forPos list) fun s u => s.Within forPos u.pos := by
  unfold forIn
  refine .pos_bind ((loopNames_covers list).bind fun names u hu => ?_)
  have hbegin := Nat.le_trans hpos hu
  dsimp only
  split
  · exact iterable_covers hdeep hbegin (_, none)
  · exact iterable_covers hdeep hbegin (_, some _)
  · rw [failExpected_bind]
    exact .failExpected _
  · rw [failAt_bind]
    exact .failAt _ _

/-- The parts of a loop make a loop. -/
theorem within_forLoop {pos mid hi : Pos} {init post : Option Stmt} {test : Option Expr}
    {body : Block Stmt} {otherwise : Option (Block Stmt)} (hpos : pos ≤ mid)
    (hinit : ∀ s ∈ init, s.Within pos mid) (htest : ∀ e ∈ test, e.Within pos mid)
    (hpost : ∀ s ∈ post, s.Within pos mid) (hloop : LoopWithin mid hi body otherwise) :
    (Stmt.forLoop pos init test post body otherwise).Within pos hi := by
  refine (hloop.mono hpos (Nat.le_refl _)).within
    (test.toList.map .expr ++ (init.toList ++ post.toList).map .stmt) rfl rfl ?_ fun m hm => ?_
  · refine List.forall_mem_append.2 ⟨List.forall_mem_map.2 fun e he => ?_,
      List.forall_mem_map.2 fun s hs => ?_⟩
    · exact (htest e (Option.mem_toList.1 he)).upTo hloop.lo_le
    · rcases List.mem_append.1 hs with hs | hs
      · exact (hinit s (Option.mem_toList.1 hs)).upTo hloop.lo_le
      · exact (hpost s (Option.mem_toList.1 hs)).upTo hloop.lo_le
  · rw [Stmt.children, List.append_assoc] at hm
    exact List.mem_append.1 hm

theorem forParts_covers (hdeep : deep.Covers) {pos : Pos} (hpos : pos ≤ t.pos)
    (init : Option Stmt) :
    Covers ((∀ s ∈ init, s.Within pos t.pos) ∧ given) t (forParts deep pos init)
      fun s u => s.Within pos u.pos := by
  unfold forParts
  refine .next_bind fun u hu => .kind_bind ?_
  refine .ite_bind (fun test v => ∀ e ∈ test, e.Within u.pos v.pos)
    (fun _ => .pure fun _ => by simp)
    (fun _ => (expr_covers hdeep).map fun _ e v hv he => by simpa using he)
    fun test v hv => .expect_bind fun w _ hw => .kind_bind ?_
  refine .ite_bind (fun post x => ∀ s ∈ post, s.Within w.pos x.pos)
    (fun _ => .pure fun _ => by simp)
    (fun _ => (simpleStmt_covers hdeep).map fun _ s x hx hs => by simpa using hs)
    fun post x hx => (loopBody_covers hdeep).bind fun (body, otherwise) y hy => .pure ?_
  rintro ⟨hloop, hpost, htest, hinit, -⟩
  have htestPos := Nat.le_trans hpos hu.le
  have hpostPos := Nat.le_trans htestPos (Nat.le_trans hv hw.le)
  have htestEnd := Nat.le_trans hw.le hx
  refine within_forLoop (Nat.le_trans hpostPos hx) (fun s hs => ?_)
    (fun e he => (htest e he).mono htestPos htestEnd)
    (fun s hs => (hpost s hs).since hpostPos) hloop
  exact (hinit s hs).upTo (Nat.le_trans hu.le (Nat.le_trans hv htestEnd))

theorem forTest_covers (hdeep : deep.Covers) {pos : Pos} (hpos : pos ≤ t.pos)
    (test : Option Expr) :
    Covers ((∀ e ∈ test, e.Within pos t.pos) ∧ given) t (forTest deep pos test)
      fun s u => s.Within pos u.pos := by
  unfold forTest
  refine (loopBody_covers hdeep).bind fun (body, otherwise) u hu => .pure ?_
  rintro ⟨hloop, htest, -⟩
  exact within_forLoop hpos (by simp) htest (by simp) hloop

theorem forStmt_covers (hdeep : deep.Covers) :
    Covers given t (forStmt deep) fun s u => s.Within t.pos u.pos := by
  unfold forStmt
  refine .expect_bind fun u _ hu => .kind_bind ?_
  split
  · exact (forTest_covers hdeep hu.le none).weaken fun h => ⟨by simp, h⟩
  · exact (forParts_covers hdeep hu.le none).weaken fun h => ⟨by simp, h⟩
  · refine (exprs_covers hdeep).bind fun list v hv => .kind_bind ?_
    split
    · exact forIn_covers hdeep (Nat.le_trans hu.le hv) list
    · refine (simpleStmtFrom_covers hdeep list).bind fun init w hw => .kind_bind ?_
      have hbegin := Nat.le_trans hu.le (Nat.le_trans hv hw)
      split
      · refine (forParts_covers hdeep hbegin (some init)).weaken fun h => ⟨?_, h.2⟩
        simpa using h.1.since hu.le
      · split
        · next test =>
          refine (forTest_covers hdeep hbegin (some test)).weaken fun h => ⟨?_, h.2⟩
          simpa using Stmt.Within.ofExpr (h.1.since hu.le)
        · exact failCondition_covers _ _

/-! ### Handlers -/

theorem catchClause_covers (hdeep : deep.Covers) :
    Covers given t (catchClause deep) fun handler u =>
      ∀ c ∈ handler, c.body.Within t.pos u.pos := by
  unfold catchClause
  refine .pos_bind (.accept_bind (fun u _ hu => .kind_bind ?_) fun _ => .pure fun _ => by simp)
  refine .ite_bind (fun _ _ => True) (fun _ => ?_) (fun _ => .pure fun _ => trivial)
    fun ident v hv => (block_covers hdeep).bind fun body w hw => .pure fun h => ?_
  · exact .expectIdent_bind fun _ _ _ => .pure fun _ => trivial
  · simpa using h.1.mono (Nat.le_trans hu.le hv) (Nat.le_refl _)

theorem finallyClause_covers (hdeep : deep.Covers) :
    Covers given t (finallyClause deep) fun finalizer u =>
      ∀ c ∈ finalizer, c.body.Within t.pos u.pos := by
  unfold finallyClause
  refine .pos_bind (.accept_bind (fun u _ hu => ?_) fun _ => .pure fun _ => by simp)
  refine (block_covers hdeep).bind fun body v hv => .pure fun h => ?_
  simpa using h.1.mono hu.le (Nat.le_refl _)

/-- Blocks one behind the other, of which the last ends what they are parts of. -/
theorem within_tryCatch {pos lo₁ lo₂ lo₃ hi : Pos} {body : Block Stmt}
    {handler : Option (CatchClause Stmt)} {finalizer : Option (FinallyClause Stmt)}
    (hpos : pos ≤ lo₁) (hbody : body.Within lo₁ lo₂) (hlo : lo₂ ≤ lo₃)
    (hhandler : ∀ c ∈ handler, c.body.Within lo₂ lo₃)
    (hfinalizer : ∀ c ∈ finalizer, c.body.Within lo₃ hi) (hhi : lo₃ ≤ hi) :
    (Stmt.tryCatch pos body handler finalizer).Within pos hi := by
  have hfirst : BlocksWithin pos lo₂ body (Node.ofBlock body) :=
    (BlocksWithin.one hbody).mono hpos (Nat.le_refl _)
  cases handler with
  | none =>
    cases finalizer with
    | none =>
      exact (hfirst.mono (Nat.le_refl _) (Nat.le_trans hlo hhi)).within [] rfl rfl
        (List.forall_mem_nil _) (by simp [Stmt.children])
    | some last =>
      exact ((hfirst.mono (Nat.le_refl _) hlo).more (hfinalizer last rfl)).within [] rfl rfl
        (List.forall_mem_nil _) (by simp [Stmt.children])
  | some handler =>
    have hcaught := hfirst.more (hhandler handler rfl)
    cases finalizer with
    | none =>
      exact (hcaught.mono (Nat.le_refl _) hhi).within [] rfl rfl
        (List.forall_mem_nil _) (by simp [Stmt.children])
    | some last =>
      exact (hcaught.more (hfinalizer last rfl)).within [] rfl rfl
        (List.forall_mem_nil _) (by simp [Stmt.children])

theorem tryStmt_covers (hdeep : deep.Covers) :
    Covers given t (tryStmt deep) fun s u => s.Within t.pos u.pos := by
  unfold tryStmt
  refine .expect_bind fun u _ hu => (block_covers hdeep).bind fun body v hv =>
    (catchClause_covers hdeep).bind fun handler w hw => (finallyClause_covers hdeep).bind
      fun finalizer x hx => ?_
  split
  · exact (Covers.errorAt _ _).bind fun _ _ _ => .expectSemicolon_bind fun _ _ => .pure
      fun h => h.1.elim
  · refine .expectSemicolon_bind fun y hy => .pure ?_
    rintro ⟨hfinalizer, hhandler, hbody, -⟩
    exact within_tryCatch hu.le hbody hw hhandler
      (fun c hc => (hfinalizer c hc).mono (Nat.le_refl _) hy) (Nat.le_trans hx hy)

/-! ### Declarations -/

theorem paramSpec_covers (hdeep : deep.Covers) :
    Covers given t (paramSpec deep) fun spec u => spec.Within t.pos u.pos := by
  have hname (spec : TypedIdent → Spec Expr) (hvalue : ∀ ident, (spec ident).value? = none)
      (hstop : ∀ ident, (spec ident).stop = ident.stop) {u : Token} (hu : t.pos ≤ u.pos) :
      Covers given u (spec <$> typedIdent) fun spec u => spec.Within t.pos u.pos :=
    typedIdent_covers.map fun _ ident v hv h =>
      ⟨by simp [hvalue], fun _ => by rw [hstop]; exact ⟨Nat.le_trans hu h.1, h.2⟩⟩
  unfold paramSpec
  refine .kind_bind ?_
  split
  · exact .next_bind fun u hu => hname (.param · true) (fun _ => rfl) (fun _ => rfl) hu.le
  · exact .next_bind fun u hu => hname (.named · none true) (fun _ => rfl) (fun _ => rfl) hu.le
  · refine typedIdent_covers.bind fun ident u hu => .accept_bind (fun v _ hv => ?_) fun _ => ?_
    · refine (expr_covers hdeep).bind fun value w hw => .pure fun h => ?_
      exact ⟨by simpa [Spec.value?, Spec.stop] using h.1.since (Nat.le_trans hu hv.le),
        by simp [Spec.value?]⟩
    · exact .pure fun h => ⟨by simp [Spec.value?], fun _ => h.1⟩

theorem valueSpec_covers (hdeep : deep.Covers) (word : Token.Kind) :
    Covers given t (valueSpec deep word) fun spec u => spec.Within t.pos u.pos := by
  unfold valueSpec
  refine .expectIdent_bind fun u hkind hu => ?_
  have hname := (hu.name_le (.inl hkind)).2
  refine .kind_bind ?_
  split
  · refine .next_bind fun v hv => (expr_covers hdeep).bind fun value w hw =>
      .pure fun h => ?_
    exact ⟨by simpa [Spec.value?, Spec.stop] using h.1.since (Nat.le_trans hu.le hv.le),
      by simp [Spec.value?]⟩
  · split
    · exact .failExpected _
    · exact .pure fun _ => ⟨by simp [Spec.value?], fun _ => ⟨Nat.le_add_right .., hname⟩⟩

/-- The values of entries lie in a range. -/
def ValuesWithin (lo hi : Pos) (specs : List (Spec Expr)) : Prop :=
  ∀ e ∈ specs.filterMap Spec.value?, e.Within lo hi

theorem valueSpecs_covers (hdeep : deep.Covers) (word : Token.Kind) :
    Covers given t (valueSpecs deep word) fun specs u => ValuesWithin t.pos u.pos specs := by
  unfold valueSpecs
  refine .loop_kept (fun specs u => ValuesWithin t.pos u.pos specs) (fun _ => nofun)
    fun specs u hu => Covers.skipSemicolons.bind fun _ v hv => .kind_bind ?_
  split
  · exact .pure fun h e he => (h.2.1 e he).upTo hv
  · refine (valueSpec_covers hdeep word).bind fun spec w hw => .kind_bind ?_
    have hmore {hi : Pos} (hspecs : ValuesWithin t.pos u.pos specs)
        (hspec : spec.Within v.pos w.pos) (hhi : w.pos ≤ hi) :
        ValuesWithin t.pos hi (specs ++ [spec]) := by
      intro e he
      rw [List.filterMap_append] at he
      rcases List.mem_append.1 he with he | he
      · exact (hspecs e he).upTo (Nat.le_trans hv (Nat.le_trans hw hhi))
      · have hvalue := hspec.value e (by simpa using he)
        exact hvalue.1.mono (Nat.le_trans hu hv) hhi
    split
    · exact .next_bind fun x hx => .pure fun ⟨hspec, _, hspecs, _⟩ => hmore hspecs hspec hx.le
    · exact .next_bind fun x hx => .pure fun ⟨hspec, _, hspecs, _⟩ => hmore hspecs hspec hx.le
    · exact .pure fun ⟨hspec, _, hspecs, _⟩ => hmore hspecs hspec (Nat.le_refl _)
    · exact .failExpected _

theorem specsOfParams_values (params : Params Expr) :
    (specsOfParams params).filterMap Spec.value? = params.defaults := by
  obtain ⟨lparen, positional, variadic, named, namedVariadic, rparen⟩ := params
  cases variadic <;> cases namedVariadic <;>
    simp [specsOfParams, Params.defaults, Spec.value?, List.filterMap_cons, List.filterMap_map,
      Function.comp_def]

theorem groupedSpecs_covers (hdeep : deep.Covers) (word : Token.Kind) (lparen : Pos) :
    Covers given t (groupedSpecs deep word lparen)
      fun specs u => ValuesWithin t.pos u.pos specs := by
  unfold groupedSpecs
  split
  · refine (paramList_covers hdeep lparen).bind fun params u hu => .pure fun h => ?_
    rw [ValuesWithin, specsOfParams_values]
    exact h.1
  · exact valueSpecs_covers hdeep word

/-- A declaration of one entry ends with that. -/
theorem within_single {word : Token.Kind} {pos lo hi : Pos} {spec : Spec Expr} (hpos : pos ≤ lo)
    (hspec : spec.Within lo hi) : (Stmt.decl word pos none [spec] none).Within pos hi := by
  cases hvalue : spec.value? with
  | none =>
    obtain ⟨hlo, hhi⟩ := hspec.bare hvalue
    exact .leaf (by simp [Node.children, Stmt.children, hvalue]) (Nat.le_refl _)
      (Nat.le_trans hpos hlo) hhi
  | some e =>
    obtain ⟨he, hstop⟩ := hspec.value e hvalue
    have hchildren : (Node.stmt (.decl word pos none [spec] none)).children = [.expr e] := by
      simp [Node.children, Stmt.children, hvalue]
    exact .ending (.expr e) (Nat.le_refl _) hstop (hchildren ▸ List.mem_cons_self)
      (he.since hpos) (hchildren ▸ List.forall_mem_singleton.2 (.inl rfl))

theorem decl_covers (hdeep : deep.Covers) :
    Covers given t (decl deep) fun s u => s.Within t.pos u.pos := by
  unfold decl
  refine .token_bind (.next_bind fun u hu => .pos_bind (.accept_bind (fun v _ hv => ?_)
    fun _ => ?_))
  · refine (groupedSpecs_covers hdeep _ _).bind fun specs w hw => .expect_bind fun x hkind hx =>
      .expectSemicolon_bind fun y hy => .pure ?_
    rintro ⟨hspecs, -⟩
    have hbegin := Nat.le_trans hu.le hv.le
    refine .closed (Nat.le_refl _) (Nat.le_trans hbegin hw) (Nat.le_succ _)
      (Nat.le_trans (hx.succ_le hkind rfl) hy) ?_
    exact List.forall_mem_map.2 fun e he => ((hspecs e he).since hbegin).anywhere
  · refine .ite_bind (fun spec v => spec.Within u.pos v.pos) (fun _ => paramSpec_covers hdeep)
      (fun _ => valueSpec_covers hdeep _) fun spec v hv => .expectSemicolon_bind fun w hw =>
        .pure fun h => ?_
    exact within_single hu.le (h.1.mono (Nat.le_refl _) hw)

end Grammar

end TemplateScript
