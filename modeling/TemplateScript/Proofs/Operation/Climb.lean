import TemplateScript.Proofs.Operation.Tokens

/-!
# Climbing precedences

The parser reads operations by a loop with a least precedence, and the right operand of each by
itself with a larger one. From any least precedence on, what it reads is the longest row of names
whose operators bind at least so tightly, and the tree of it is a proper grouping.
-/

namespace TemplateScript

namespace Chain

open Parse Grammar Template

/-- The operator binds at least as tightly as `least`. -/
def binds (least : Nat) (step : Operator × Name) : Bool := least ≤ step.1.kind.precedence

/-- The expression is a proper grouping of the items, and its operators bind at least as tightly as
`least`. -/
structure Groups (least : Nat) (items : List Item) (e : Expr) (tree : Grouping) : Prop where
  grouping_eq : e.grouping? = some tree
  items_eq : tree.items = items
  isProper : tree.IsProper
  least_le : ∀ q ∈ tree.root?, least ≤ q.precedence

/-- What ends a chain: a semicolon, or the end of the file. -/
def enders : List Token.Kind := [.semicolon, .eof]

variable {deep : Nested} {m least : Nat} {x : Name} {g : Token.Face} {tail : List Token.Face}
  {items : List Item} {e lhs rhs : Expr} {tree left right : Grouping} {op : Token.Kind} {pos : Pos}
  {rest : List (Operator × Name)}

/-! ### Operations -/

theorem groups_name (least : Nat) (x : Name) (pos : Pos) :
    Groups least [.name x.text] (.ident ⟨x.text, pos⟩) (.name x.text) :=
  ⟨rfl, rfl, trivial, nofun⟩

/-- What has a grouping is not `nil`, so an operation with it is no test. -/
theorem operation_eq (h : rhs.grouping? = some right) :
    operation lhs op pos rhs = .binary lhs op pos rhs := by
  unfold operation
  split
  · cases h
  · cases h
  · rfl

/-- An operation is proper if its operands are and its operator lets it have them. -/
theorem Groups.operation {behind : List Item} {inner : Nat} (hleft : Groups least items lhs left)
    (hright : Groups inner behind rhs right) (hop : least ≤ op.precedence)
    (hbindsLeft : ∀ q ∈ left.root?, op.BindsLeft q)
    (hbindsRight : ∀ q ∈ right.root?, op.BindsRight q) (pos : Pos) :
    Groups least (items ++ .op op :: behind) (Grammar.operation lhs op pos rhs)
      (.node left op right) where
  grouping_eq := by
    rw [operation_eq hright.grouping_eq, Expr.grouping?, hleft.grouping_eq, hright.grouping_eq]
  items_eq := by rw [Grouping.items, hleft.items_eq, hright.items_eq]
  isProper := ⟨hbindsLeft, hbindsRight, hleft.isProper, hright.isProper⟩
  least_le := by
    rintro q ⟨⟩
    exact hop

/-- The least precedence in the right operand of an operator. -/
def inner (op : Token.Kind) : Nat := if op.isRightAssoc then op.precedence else op.precedence + 1

theorem bindsRight_of_inner {q : Token.Kind} (h : inner op ≤ q.precedence) : op.BindsRight q := by
  unfold inner at h
  unfold Token.Kind.BindsRight
  split at h
  · next hright =>
    rcases Nat.lt_or_ge op.precedence q.precedence with hlt | hge
    · exact .inl hlt
    · exact .inr ⟨by omega, hright⟩
  · exact .inl (by omega)

/-- The operator that ends a right operand may have the operation as its left operand. -/
theorem bindsLeft_of_inner {p : Token.Kind} (h : p.precedence < inner op) : p.BindsLeft op := by
  unfold inner at h
  unfold Token.Kind.BindsLeft
  split at h
  · exact .inl h
  · next hleft =>
    rcases Nat.lt_or_ge p.precedence op.precedence with hlt | hge
    · exact .inl hlt
    · refine .inr ⟨by omega, ?_⟩
      rw [Token.Kind.isRightAssoc_congr (show p.precedence = op.precedence by omega)]
      exact Bool.eq_false_iff.2 hleft

/-! ### Rows -/

/-- A right operand takes a part of what its operation takes. -/
theorem takeWhile_inner {outer : Nat} (h : least ≤ outer) (rest : List (Operator × Name)) :
    rest.takeWhile (binds outer) ++ (rest.dropWhile (binds outer)).takeWhile (binds least) =
        rest.takeWhile (binds least) ∧
      (rest.dropWhile (binds outer)).dropWhile (binds least) = rest.dropWhile (binds least) := by
  induction rest with
  | nil => exact ⟨rfl, rfl⟩
  | cons step rest ih =>
    by_cases hstep : binds outer step = true
    · have hleast : binds least step = true := by
        simp only [binds, decide_eq_true_eq] at hstep ⊢
        omega
      rw [List.takeWhile_cons_of_pos hstep, List.dropWhile_cons_of_pos hstep,
        List.takeWhile_cons_of_pos hleast, List.dropWhile_cons_of_pos hleast, List.cons_append,
        ih.1]
      exact ⟨rfl, ih.2⟩
    · rw [List.takeWhile_cons_of_neg hstep, List.dropWhile_cons_of_neg hstep]
      exact ⟨rfl, rfl⟩

/-- The token after a name goes on with a chain or ends it. -/
theorem exists_cons (rest : List (Operator × Name)) (hg : g.kind ∈ enders) (tail : List Token.Face) :
    ∃ f more, facesBehind rest ++ g :: tail = f :: more ∧ f.kind ≠ .lambda ∧
      f.kind ∉ Token.Kind.extenders := by
  cases rest with
  | nil =>
    refine ⟨g, tail, rfl, ?_⟩
    revert hg
    generalize g.kind = kind
    revert kind
    decide
  | cons step rest =>
    have hop := Cursor.mem_spacedMarks step.1
    refine ⟨opFace step.1.kind, _, rfl, ?_⟩
    revert hop
    change step.1.kind ∈ _ → step.1.kind ≠ _ ∧ step.1.kind ∉ _
    generalize step.1.kind = kind
    revert kind
    decide

theorem unary_name (hg : g.kind ∈ enders) (rest : List (Operator × Name)) :
    (unary deep).Reads m (x.face :: (facesBehind rest ++ g :: tail)) (facesBehind rest ++ g :: tail)
      fun e => ∃ pos, e = .ident ⟨x.text, pos⟩ := by
  obtain ⟨f, more, hfaces, hlambda, hextends⟩ := exists_cons rest hg tail
  rw [hfaces]
  exact unary_reads (primary_reads (operand_ident hlambda) hextends) rfl

/-! ### The loop -/

/-- What right operands are read as. -/
def ReadsBinary (deep : Nested) (m : Nat) : Prop :=
  ∀ (least : Nat) (x : Name) (rest : List (Operator × Name)) (g : Token.Face)
    (tail : List Token.Face), 0 < least → g.kind ∈ enders →
      (deep.binary least).Reads m (x.face :: (facesBehind rest ++ g :: tail))
        (facesBehind (rest.dropWhile (binds least)) ++ g :: tail)
        fun e => ∃ tree,
          Groups least (.name x.text :: itemsBehind (rest.takeWhile (binds least))) e tree

/-- The loop takes an operator that binds tightly enough, with what goes with it on the right. -/
theorem binaryRound_again (hdeep : ReadsBinary deep m) (step : Operator × Name)
    (hstep : binds least step = true) (hg : g.kind ∈ enders) (hlhs : Groups least items lhs tree)
    (hbinds : ∀ q ∈ tree.root?, step.1.kind.BindsLeft q) :
    (binaryRound deep least lhs).Reads m (facesBehind (step :: rest) ++ g :: tail)
      (facesBehind (rest.dropWhile (binds (inner step.1.kind))) ++ g :: tail)
      (Round.Again fun e => ∃ tree, tree.root? = some step.1.kind ∧
        Groups least (items ++ .op step.1.kind :: .name step.2.text ::
          itemsBehind (rest.takeWhile (binds (inner step.1.kind)))) e tree) := by
  have hleast : least ≤ step.1.kind.precedence := of_decide_eq_true hstep
  have hpos : 0 < inner step.1.kind := by
    have := step.1.binds
    unfold inner
    split <;> omega
  apply reads_token
  intro pos
  dsimp only [opFace]
  rw [decide_eq_false (by omega), decide_eq_false step.1.binds, Bool.or_self,
    if_neg Bool.false_ne_true]
  refine reads_next.bind fun _ _ => ?_
  refine (hdeep _ step.2 rest g tail hpos hg).bind fun rhs ⟨right, hright⟩ => reads_pure ?_
  exact ⟨_, rfl, hlhs.operation hright hleast hbinds
    (fun q hq => bindsRight_of_inner (hright.least_le q hq)) pos⟩

/-- From an operation on, the loop takes all operators that bind tightly enough. What it has read may
be the left operand of the next of them. -/
theorem loops_binary (hdeep : ReadsBinary deep m) (hleast : 0 < least) (hg : g.kind ∈ enders)
    (rest : List (Operator × Name)) (hlhs : Groups least items lhs tree)
    (hbinds : ∀ step ∈ rest.head?, ∀ q ∈ tree.root?, step.1.kind.BindsLeft q) :
    Loops (binaryRound deep least) m (facesBehind rest ++ g :: tail)
      (facesBehind (rest.dropWhile (binds least)) ++ g :: tail) lhs
      fun e => ∃ tree, Groups least (items ++ itemsBehind (rest.takeWhile (binds least))) e tree := by
  induction hsize : rest.length using Nat.strong_induction_on generalizing rest items lhs tree with
  | _ size ih =>
    cases rest with
    | nil =>
      have hprecedence : g.kind.precedence < least := by
        have hzero : g.kind.precedence = 0 := by
          revert hg
          generalize g.kind = kind
          revert kind
          decide
        omega
      rw [List.takeWhile_nil, itemsBehind, List.flatMap_nil, List.append_nil]
      exact .done (binaryRound_done (.inl hprecedence) ⟨tree, hlhs⟩)
    | cons step rest =>
      by_cases hstep : binds least step = true
      · have hinner : least ≤ inner step.1.kind := by
          have : least ≤ step.1.kind.precedence := of_decide_eq_true hstep
          unfold inner
          split <;> omega
        obtain ⟨htake, hdrop⟩ := takeWhile_inner hinner rest
        rw [List.dropWhile_cons_of_pos hstep, List.takeWhile_cons_of_pos hstep, ← htake, ← hdrop]
        refine .step (binaryRound_again hdeep step hstep hg hlhs (hbinds step rfl)) ?_
        rintro e ⟨tree', hroot, he⟩
        have hshorter := (rest.dropWhile_suffix (binds (inner step.1.kind))).length_le
        have hnext := ih _ (by simp only [List.length_cons] at hsize; omega)
          (rest.dropWhile (binds (inner step.1.kind))) he ?_ rfl
        · simpa [itemsBehind] using hnext
        · intro p hp q hq
          rw [hroot] at hq
          cases hq
          apply bindsLeft_of_inner
          have hstop := List.head?_dropWhile_not (binds (inner step.1.kind)) rest
          rw [Option.mem_def.1 hp] at hstop
          have hless : ¬ inner step.1.kind ≤ p.1.kind.precedence := of_decide_eq_false hstop
          omega
      · rw [List.dropWhile_cons_of_neg hstep, List.takeWhile_cons_of_neg hstep, itemsBehind,
          List.flatMap_nil, List.append_nil]
        have hless : ¬ least ≤ step.1.kind.precedence := mt decide_eq_true hstep
        exact .done (binaryRound_done (.inl (Nat.lt_of_not_le hless)) ⟨tree, hlhs⟩)

/-- However deep phrases may nest, right operands are read as proper groupings. -/
theorem readsBinary_ofDepth (depth m : Nat) : ReadsBinary (.ofDepth depth) m := by
  induction depth with
  | zero => exact fun _ _ _ _ _ _ _ => reads_fault _
  | succ depth ih =>
    intro least x rest g tail hleast hg
    change (binary (.ofDepth depth) least).Reads m _ _ _
    rw [binary_eq]
    refine (unary_name hg rest).bind fun first ⟨pos, hfirst⟩ => ?_
    subst hfirst
    exact (loops_binary ih hleast hg rest (groups_name least x pos) fun _ _ => nofun).reads

/-! ### The definition of a name -/

/-- A chain up to its end is read as a proper grouping of all of it. -/
theorem expr_reads (depth m : Nat) (chain : Chain) (hg : g.kind ∈ enders) :
    (expr (.ofDepth depth)).Reads m (chain.faces ++ g :: tail) (g :: tail)
      fun e => ∃ tree, Groups 1 chain.items e tree := by
  have hall : ∀ step ∈ chain.rest, binds 1 step = true := by
    intro step _
    exact decide_eq_true (Nat.pos_of_ne_zero step.1.binds)
  have hquestion : g.kind ≠ .question := by
    intro hkind
    rw [hkind] at hg
    exact absurd hg (by decide)
  have hbinary : (binary (.ofDepth depth) 1).Reads m (chain.faces ++ g :: tail) (g :: tail)
      fun e => ∃ tree, Groups 1 chain.items e tree := by
    have := readsBinary_ofDepth (depth + 1) m 1 chain.first chain.rest g tail Nat.one_pos hg
    rwa [List.takeWhile_eq_self_iff.2 hall, List.dropWhile_eq_nil_iff.2 hall] at this
  refine hbinary.bind fun e he => reads_kind ?_
  rw [if_pos hquestion]
  exact reads_pure he

/-- The statement is the definition of a name as a proper grouping of a chain. -/
def Defines (v : Name) (chain : Chain) (s : Stmt) : Prop :=
  ∃ name op value tree, s = .assign [.ident ⟨v.text, name⟩] .define op [value] ∧
    Groups 1 chain.items value tree

theorem simpleStmt_reads (depth m : Nat) (v : Name) (chain : Chain) (hg : g.kind ∈ enders) :
    (simpleStmt (.ofDepth depth)).Reads m
      (v.face :: opFace .define :: (chain.faces ++ g :: tail)) (g :: tail) (Defines v chain) := by
  have hends : ∀ kind ∈ enders, kind.endsExprs = true := by decide
  refine (assign_reads rfl (expr_reads depth m chain hg) (hends _ hg)).mono ?_
  rintro s ⟨name, op, value, rfl, tree, hgroups⟩
  exact ⟨name, op, value, tree, rfl, hgroups⟩

theorem stmt_reads (depth m : Nat) (v : Name) (chain : Chain) (options : ScanOptions) :
    (stmt (.ofDepth depth)).Reads m
      (v.face :: opFace .define :: (chain.faces ++ ending options)) [⟨.eof, ""⟩]
      (Defines v chain) := by
  refine reads_token fun pos => ?_
  unfold ending
  cases options.noAutoSemicolons with
  | true =>
    refine (simpleStmt_reads depth m v chain (by decide)).bind fun s hs => ?_
    exact (reads_expectSemicolon (by decide)).bind fun _ _ => reads_pure hs
  | false =>
    refine (simpleStmt_reads depth m v chain (by decide)).bind fun s hs => ?_
    have hsemicolon : expectSemicolon.Reads m [⟨.semicolon, "\n"⟩, ⟨.eof, ""⟩] [⟨.eof, ""⟩]
        fun _ => True := reads_kind reads_next
    exact hsemicolon.bind fun _ _ => reads_pure hs

/-- The definition of a name as what a chain computes is all that its source holds. -/
theorem file_reads (depth m : Nat) (v : Name) (chain : Chain) (options : ScanOptions) :
    (file (.ofDepth depth)).Reads m
      (v.face :: opFace .define :: (chain.faces ++ ending options)) [⟨.eof, ""⟩]
      fun stmts => ∃ s, stmts = [s] ∧ Defines v chain s := by
  have hstmts : (stmts (.ofDepth depth) false).Reads m
      (v.face :: opFace .define :: (chain.faces ++ ending options)) [⟨.eof, ""⟩]
      fun stmts => ∃ s, stmts = [s] ∧ Defines v chain s := by
    rw [stmts_eq]
    refine LoopsIn.reads (.step (stmtsRound_reads (stmt_reads depth m v chain options) rfl ?_) ?_)
    · rintro s ⟨name, op, e, tree, rfl, -⟩
      rfl
    rintro list ⟨s, hs, rfl⟩
    refine .done ((stmtsRound_done (.inr rfl)).mono ?_)
    intro found hfound
    cases found with
    | again _ => exact hfound.elim
    | done stmts => exact ⟨s, hfound, hs⟩
  refine LoopsIn.reads (.done (hstmts.bind fun stmts hs => ?_))
  apply reads_pos
  intro pos
  apply reads_isFull
  exact reads_kind (reads_pure hs)

/-- What comes of a source whose tokens are those of the definition of a name as a chain. -/
theorem source_defines {v : Name} {chain : Chain} {options : ScanOptions} {c : Cursor}
    (h : c.Gives (v.face :: opFace .define :: (chain.faces ++ ending options))) {t : Token}
    {stmts : List Stmt} {later : Reader} (hok : Parse.source (.on m c t) = .ok stmts later) :
    (∃ s, stmts = [s] ∧ Defines v chain s) ∧ later.errors = [] :=
  have hread := source_of_reads h (fun depth => file_reads depth m v chain options) hok
  ⟨hread.1, hread.2.1⟩

end Chain

end TemplateScript
