import TemplateScript.Proofs.Tree.WellFormed

/-!
# Extents of nodes

Every node lies in its source and encloses its parts, but for three sorts of nodes whose end is not
that of a text in the source. The name of a selection counts as the string it stands for, which has
two quotes; a test for nil counts as it is spelled with a space in it; and a name alone among named
arguments counts as one that is set to a word of three letters. None of them ends too late by more
than two bytes.

So all rules are taken with a slack. With a slack of two they hold of every tree, and without any of
a tree without such nodes.
-/

namespace TemplateScript

namespace Node

/-- Where a node begins. -/
def pos : Node → Pos
  | .expr e => e.pos
  | .stmt s => s.pos

/-- The position behind a node. -/
def stop : Node → Pos
  | .expr e => e.stop
  | .stmt s => s.stop

end Node

/-- A call begins with its function, unless it is piped. -/
theorem Expr.pos_call (func : Expr) (lparen : Pos) (args : Args Expr) (rparen : Pos) :
    (Expr.call func lparen args rparen false).pos = func.pos := by
  obtain ⟨positional, spread, named, namedSpread⟩ := args
  cases positional <;> rfl

/-! ### What is written out -/

/-- No argument is a name alone. The value of one that is begins where the name does. -/
def Args.IsWritten (args : Args Expr) : Prop := ∀ arg ∈ args.named, arg.2.pos ≠ arg.1.pos

/-- No default is that of a name alone. -/
def Params.IsWritten (params : Params Expr) : Prop :=
  ∀ param ∈ params.named, param.2.pos ≠ param.1.ident.pos

/-- The expression ends where a text of the source does, and so do its named arguments. -/
def Expr.IsWritten : Expr → Prop
  | .selector _ (.literal _) _ => False
  | .unary op _ _ => op.isTest = false
  | .call _ _ args _ _ | .tuple _ args _ => args.IsWritten
  | .func _ _ params _ | .closure _ params _ _ => params.IsWritten
  | _ => True

/-- The node ends where a text of the source does. -/
def Node.IsWritten : Node → Prop
  | .expr e => e.IsWritten
  | .stmt _ => True

/-! ### The rule -/

namespace Node

/-- A node lies in a range and encloses the nodes below it, but ends may be too late by a slack. -/
structure Lies (slack : Nat) (lo hi : Pos) (n : Node) : Prop where
  lo_le : lo ≤ n.pos
  pos_le : n.pos ≤ hi
  pos_le_stop : n.pos ≤ n.stop
  stop_le : n.stop ≤ hi + slack
  encloses : ∀ m ∈ n.children, n.pos ≤ m.pos ∧ m.stop ≤ n.stop + slack

/-- A tree begins in a range, and all its nodes lie in it if the slack is two or they are written
out. That they are may depend on what is around the tree. -/
structure WithinIf (sure : Prop) (lo hi : Pos) (n : Node) : Prop where
  lo_le : lo ≤ n.pos
  pos_le : n.pos ≤ hi
  pos_le_stop : n.pos ≤ n.stop
  lies (slack : Nat) (h : 2 ≤ slack ∨ sure ∧ Everywhere IsWritten n) :
    Everywhere (Lies slack lo hi) n

/-- All nodes of a tree lie in a range if the slack is two or they are written out. -/
abbrev Within (lo hi : Pos) (n : Node) : Prop := WithinIf True lo hi n

variable {slack : Nat} {sure : Prop} {lo mid hi : Pos} {n m : Node}

theorem Lies.mono (h : n.Lies slack lo hi) {lo' hi' : Pos} (hlo : lo' ≤ lo) (hhi : hi ≤ hi') :
    n.Lies slack lo' hi' :=
  ⟨Nat.le_trans hlo h.lo_le, Nat.le_trans h.pos_le hhi, h.pos_le_stop,
    Nat.le_trans h.stop_le (Nat.add_le_add_right hhi _), h.encloses⟩

/-- No node of a tree begins before the first. -/
theorem everywhere_from (h : Everywhere (Lies slack lo hi) n) :
    Everywhere (Lies slack n.pos hi) n := by
  induction h with
  | @intro n here below ih =>
    refine .intro { here with lo_le := Nat.le_refl _ } fun m hm => ?_
    exact (ih m hm).imp fun _ hk => hk.mono (here.encloses m hm).1 (Nat.le_refl _)

namespace WithinIf

theorem mono (h : n.WithinIf sure lo hi) {lo' hi' : Pos} (hlo : lo' ≤ lo) (hhi : hi ≤ hi') :
    n.WithinIf sure lo' hi' :=
  ⟨Nat.le_trans hlo h.lo_le, Nat.le_trans h.pos_le hhi, h.pos_le_stop,
    fun slack hsure => (h.lies slack hsure).imp fun _ hm => hm.mono hlo hhi⟩

/-- A tree lies in a longer range. -/
theorem upTo (h : n.WithinIf sure lo hi) {hi' : Pos} (hhi : hi ≤ hi') : n.WithinIf sure lo hi' :=
  h.mono (Nat.le_refl _) hhi

/-- A tree lies in a range that begins sooner. -/
theorem since (h : n.WithinIf sure lo hi) {lo' : Pos} (hlo : lo' ≤ lo) : n.WithinIf sure lo' hi :=
  h.mono hlo (Nat.le_refl _)

theorem surely (h : n.WithinIf sure lo hi) {more : Prop} (hmore : more → sure) :
    n.WithinIf more lo hi :=
  ⟨h.lo_le, h.pos_le, h.pos_le_stop,
    fun slack hsure => h.lies slack (hsure.imp_right (.imp_left hmore))⟩

/-- A tree lies in a range from where it begins. -/
theorem from_pos (h : n.WithinIf sure lo hi) : n.WithinIf sure n.pos hi :=
  ⟨Nat.le_refl _, h.pos_le, h.pos_le_stop, fun slack hsure => everywhere_from (h.lies slack hsure)⟩

/-- What is known of a tree by itself is known of it wherever it stands. -/
theorem anywhere (h : n.Within lo hi) : n.WithinIf sure lo hi := h.surely fun _ => trivial

theorem stop_le (h : n.WithinIf sure lo hi) (hsure : 2 ≤ slack ∨ sure ∧ Everywhere IsWritten n) :
    n.stop ≤ hi + slack :=
  (h.lies slack hsure).here.stop_le

/-- What makes the nodes of a tree lie in its range makes those below it. -/
theorem sure_part (h : 2 ≤ slack ∨ sure ∧ Everywhere IsWritten n) (hm : m ∈ n.children) :
    2 ≤ slack ∨ n.IsWritten ∧ Everywhere IsWritten m :=
  h.imp_right fun ⟨_, hn⟩ => ⟨hn.here, hn.parts m hm⟩

/-- A node that ends behind all its parts lies in a range that it ends in. -/
theorem closed_if (hlo : lo ≤ n.pos) (hpos : n.pos ≤ mid) (hmid : mid ≤ n.stop) (hhi : mid ≤ hi)
    (hstop : ∀ slack, 2 ≤ slack ∨ sure ∧ n.IsWritten → n.stop ≤ hi + slack)
    (hparts : ∀ m ∈ n.children, m.WithinIf n.IsWritten n.pos mid) : n.WithinIf sure lo hi := by
  have hbegin := Nat.le_trans hpos hhi
  have hle := Nat.le_trans hpos hmid
  refine ⟨hlo, hbegin, hle, fun slack hsure => .intro ?_ fun m hm => ?_⟩
  · have hend := hstop slack (hsure.imp_right (.imp_right Everywhere.here))
    refine ⟨hlo, hbegin, hle, hend, fun m hm => ?_⟩
    have hstop := (hparts m hm).stop_le (sure_part hsure hm)
    exact ⟨(hparts m hm).lo_le, Nat.le_trans hstop (Nat.add_le_add_right hmid _)⟩
  · exact ((hparts m hm).mono hlo hhi).lies slack (sure_part hsure hm)

end WithinIf

namespace Within

/-- A node that ends in a range, behind all its parts. -/
theorem closed (hlo : lo ≤ n.pos) (hpos : n.pos ≤ mid) (hmid : mid ≤ n.stop) (hhi : n.stop ≤ hi)
    (hparts : ∀ m ∈ n.children, m.WithinIf n.IsWritten n.pos mid) : n.Within lo hi :=
  .closed_if hlo hpos hmid (Nat.le_trans hmid hhi)
    (fun _ _ => Nat.le_trans hhi (Nat.le_add_right ..)) hparts

/-- A node without parts. -/
theorem leaf (hparts : n.children = []) (hlo : lo ≤ n.pos) (hpos : n.pos ≤ n.stop)
    (hhi : n.stop ≤ hi) : n.Within lo hi :=
  closed hlo hpos (Nat.le_refl _) hhi (by simp [hparts])

/-- A node that ends with one of its parts, which begins behind the others. -/
theorem ending (tail : Node) (hlo : lo ≤ n.pos) (hstop : n.stop = tail.stop)
    (htail : tail ∈ n.children) (hwithin : tail.Within n.pos hi)
    (hparts : ∀ m ∈ n.children, m = tail ∨ m.WithinIf n.IsWritten n.pos tail.pos) :
    n.Within lo hi := by
  have hbegin : n.pos ≤ hi := Nat.le_trans hwithin.lo_le hwithin.pos_le
  have hlast : tail.pos ≤ n.stop := hstop ▸ hwithin.pos_le_stop
  have hle : n.pos ≤ n.stop := Nat.le_trans hwithin.lo_le hlast
  refine ⟨hlo, hbegin, hle, fun slack hsure => .intro ?_ fun m hm => ?_⟩
  · have hend := hwithin.anywhere.stop_le (WithinIf.sure_part hsure htail)
    refine ⟨hlo, hbegin, hle, hstop ▸ hend, fun m hm => ?_⟩
    rcases hparts m hm with rfl | hpart
    · exact ⟨hwithin.lo_le, by rw [hstop]; exact Nat.le_add_right ..⟩
    · have hm := hpart.stop_le (WithinIf.sure_part hsure hm)
      exact ⟨hpart.lo_le, Nat.le_trans hm (Nat.add_le_add_right hlast _)⟩
  · rcases hparts m hm with rfl | hpart
    · exact (hwithin.anywhere.since hlo).lies slack (WithinIf.sure_part hsure hm)
    · exact (hpart.mono hlo hwithin.pos_le).lies slack (WithinIf.sure_part hsure hm)

end Within

/-! ### Rows -/

/-- Trees one behind the other. -/
def Row : Pos → Pos → List Node → Prop
  | lo, hi, [] => lo ≤ hi
  | lo, hi, n :: rest => ∃ mid, n.Within lo mid ∧ Row mid hi rest

namespace Row

variable {list more : List Node}

theorem le (h : Row lo hi list) : lo ≤ hi := by
  induction list generalizing lo with
  | nil => exact h
  | cons n rest ih =>
    obtain ⟨mid, hn, hrest⟩ := h
    exact Nat.le_trans hn.lo_le (Nat.le_trans hn.pos_le (ih hrest))

theorem append_iff :
    Row lo hi (list ++ more) ↔ ∃ mid, Row lo mid list ∧ Row mid hi more := by
  induction list generalizing lo with
  | nil =>
    refine ⟨fun h => ⟨lo, Nat.le_refl _, h⟩, ?_⟩
    rintro ⟨mid, hle, hmore⟩
    cases more with
    | nil => exact Nat.le_trans hle hmore
    | cons m rest =>
      obtain ⟨last, hm, hrest⟩ := hmore
      exact ⟨last, hm.mono hle (Nat.le_refl _), hrest⟩
  | cons n rest ih =>
    constructor
    · rintro ⟨last, hn, hrest⟩
      obtain ⟨mid, hrest, hmore⟩ := ih.1 hrest
      exact ⟨mid, ⟨last, hn, hrest⟩, hmore⟩
    · rintro ⟨mid, ⟨last, hn, hrest⟩, hmore⟩
      exact ⟨last, hn, ih.2 ⟨mid, hrest, hmore⟩⟩

theorem singleton_iff : Row lo hi [n] ↔ n.Within lo hi :=
  ⟨fun ⟨_, hn, hle⟩ => hn.mono (Nat.le_refl _) hle, fun hn => ⟨hi, hn, Nat.le_refl _⟩⟩

/-- One more tree behind the others. -/
theorem snoc_iff :
    Row lo hi (list ++ [n]) ↔ ∃ mid, Row lo mid list ∧ n.Within mid hi := by
  simp only [append_iff, singleton_iff]

theorem within (h : Row lo hi list) : ∀ n ∈ list, n.Within lo hi := by
  induction list generalizing lo with
  | nil => exact List.forall_mem_nil _
  | cons n rest ih =>
    obtain ⟨mid, hn, hrest⟩ := h
    have hmid : lo ≤ mid := Nat.le_trans hn.lo_le hn.pos_le
    refine List.forall_mem_cons.2 ⟨hn.mono (Nat.le_refl _) hrest.le, fun m hm => ?_⟩
    exact (ih hrest m hm).mono hmid (Nat.le_refl _)

theorem mono (h : Row lo hi list) {lo' hi' : Pos} (hlo : lo' ≤ lo) (hhi : hi ≤ hi') :
    Row lo' hi' list := by
  have hall : Row lo' hi' ([] ++ list ++ []) :=
    append_iff.2 ⟨hi, append_iff.2 ⟨lo, hlo, h⟩, hhi⟩
  rwa [List.nil_append, List.append_nil] at hall

end Row

end Node

/-! ### Parts of nodes -/

/-- An expression whose nodes lie in a range. -/
abbrev Expr.Within (lo hi : Pos) (e : Expr) : Prop := (Node.expr e).Within lo hi

/-- A statement whose nodes lie in a range. -/
abbrev Stmt.Within (lo hi : Pos) (s : Stmt) : Prop := (Node.stmt s).Within lo hi

/-- A block that lies in a range, with its statements between its braces. -/
structure Block.Within (lo hi : Pos) (body : Block Stmt) : Prop where
  lo_le : lo ≤ body.lbrace
  le : body.lbrace ≤ body.rbrace
  stmts : ∀ s ∈ body.stmts, s.Within body.lbrace body.rbrace
  stop_le : body.stop ≤ hi

/-- Arguments in a range, if none is a name alone. -/
def Args.Within (lo hi : Pos) (args : Args Expr) : Prop :=
  args.All fun e => (Node.expr e).WithinIf args.IsWritten lo hi

/-- Parameters whose defaults lie in a range, if none is that of a name alone. -/
def Params.Within (lo hi : Pos) (params : Params Expr) : Prop :=
  ∀ e ∈ params.defaults, (Node.expr e).WithinIf params.IsWritten lo hi

/-- An entry of a declaration in a range. It ends with its value if it has one. -/
structure Spec.Within (lo hi : Pos) (spec : Spec Expr) : Prop where
  value : ∀ e ∈ spec.value?, e.Within lo hi ∧ spec.stop = e.stop
  bare : spec.value? = none → lo ≤ spec.stop ∧ spec.stop ≤ hi

section Parts

variable {lo hi lo' hi' : Pos}

theorem Block.Within.mono {body : Block Stmt} (h : body.Within lo hi) (hlo : lo' ≤ lo)
    (hhi : hi ≤ hi') : body.Within lo' hi' :=
  ⟨Nat.le_trans hlo h.lo_le, h.le, h.stmts, Nat.le_trans h.stop_le hhi⟩

/-- The statements of a block lie before the brace that closes it. -/
theorem Block.Within.parts {body : Block Stmt} (h : body.Within lo hi) :
    ∀ m ∈ Node.ofBlock body, m.Within lo body.rbrace := by
  refine List.forall_mem_map.2 fun s hs => ?_
  exact (h.stmts s hs).mono h.lo_le (Nat.le_refl _)

namespace Args.Within

variable {args : Args Expr}

theorem mono (h : args.Within lo hi) (hlo : lo' ≤ lo) (hhi : hi ≤ hi') :
    args.Within lo' hi' :=
  fun e he => (h e he).mono hlo hhi

theorem empty : ({} : Args Expr).Within lo hi := by
  intro e he
  simp [parts] at he

theorem withArg (h : args.Within lo hi) {e : Expr} (he : e.Within lo hi) :
    ({ args with positional := args.positional ++ [e] } : Args Expr).Within lo hi :=
  All.withArg h he.anywhere

theorem withFirst (h : args.Within lo hi) {e : Expr} (he : e.Within lo hi) :
    ({ args with positional := e :: args.positional } : Args Expr).Within lo hi :=
  All.withPositional h (List.forall_mem_cons.2 ⟨he.anywhere, (all_iff.1 h).1⟩)

theorem withSpread (h : args.Within lo hi) {e : Expr} (he : e.Within lo hi) :
    ({ args with spread := some e } : Args Expr).Within lo hi :=
  All.withSpread h he.anywhere

theorem withNamedSpread (h : args.Within lo hi) {e : Expr} (he : e.Within lo hi) :
    ({ args with namedSpread := some e } : Args Expr).Within lo hi :=
  All.withNamedSpread h he.anywhere

/-- One more named argument, whose value need not lie in the range if it is that of a name alone. -/
theorem withNamed (h : args.Within lo hi) {name value : Expr}
    (hname : name.Within lo hi)
    (hvalue : (Node.expr value).WithinIf (value.pos ≠ name.pos) lo hi) :
    ({ args with named := args.named ++ [(name, value)] } : Args Expr).Within lo hi := by
  let more : Args Expr := { args with named := args.named ++ [(name, value)] }
  have hsure : more.IsWritten → args.IsWritten ∧ value.pos ≠ name.pos := fun hmore =>
    ⟨fun arg harg => hmore arg (List.mem_append_left _ harg),
      hmore (name, value) (List.mem_append_right _ List.mem_cons_self)⟩
  have hargs : args.All fun e => (Node.expr e).WithinIf more.IsWritten lo hi :=
    fun e he => (h e he).surely fun hmore => (hsure hmore).1
  exact All.withNamed hargs hname.anywhere (hvalue.surely fun hmore => (hsure hmore).2)

end Args.Within

theorem Spec.Within.mono {spec : Spec Expr} (h : spec.Within lo hi) (hlo : lo' ≤ lo)
    (hhi : hi ≤ hi') : spec.Within lo' hi' where
  value e he := ⟨(h.value e he).1.mono hlo hhi, (h.value e he).2⟩
  bare hnone := ⟨Nat.le_trans hlo (h.bare hnone).1, Nat.le_trans (h.bare hnone).2 hhi⟩

end Parts

/-! ### Shifted trees -/

section Shift

variable (n : Nat)

theorem Node.pos_shift (node : Node) : (node.shift n).pos = node.pos + n := by
  cases node with
  | expr e => exact e.pos_shift n
  | stmt s => exact s.pos_shift n

theorem Node.stop_shift (node : Node) : (node.shift n).stop = node.stop + n := by
  cases node with
  | expr e => exact e.stop_shift n
  | stmt s => exact s.stop_shift n

theorem Node.Lies.shift {slack : Nat} {lo hi : Pos} {node : Node} (h : node.Lies slack lo hi) :
    (node.shift n).Lies slack (lo + n) (hi + n) := by
  obtain ⟨hlo, hpos, hstop, hhi, hparts⟩ := h
  refine ⟨?_, ?_, ?_, ?_, fun m hm => ?_⟩
  · rw [node.pos_shift]
    exact Nat.add_le_add_right hlo n
  · rw [node.pos_shift]
    exact Nat.add_le_add_right hpos n
  · rw [node.pos_shift, node.stop_shift]
    exact Nat.add_le_add_right hstop n
  · rw [node.stop_shift]
    lia
  · rw [node.children_shift] at hm
    obtain ⟨child, hchild, rfl⟩ := List.mem_map.1 hm
    obtain ⟨hbegin, hend⟩ := hparts child hchild
    rw [node.pos_shift, node.stop_shift, child.pos_shift, child.stop_shift]
    lia

theorem Args.IsWritten.of_shift {args : Args Expr} (h : (shiftArgs n args).IsWritten) :
    args.IsWritten := by
  obtain ⟨positional, spread, named, namedSpread⟩ := args
  intro arg harg hpos
  have hmem : (arg.1.shift n, arg.2.shift n) ∈ shiftNamed n named := by
    rw [shiftNamed_eq_map]
    exact List.mem_map_of_mem harg
  refine h _ hmem ?_
  rw [Expr.pos_shift, Expr.pos_shift, hpos]

theorem Params.IsWritten.of_shift {params : Params Expr} (h : (shiftParams n params).IsWritten) :
    params.IsWritten := by
  obtain ⟨lparen, positional, variadic, named, namedVariadic, rparen⟩ := params
  intro param hparam hpos
  have hmem : (param.1.shift n, param.2.shift n) ∈ shiftDefaults n named := by
    rw [shiftDefaults_eq_map]
    exact List.mem_map_of_mem hparam
  refine h _ hmem ?_
  rw [Expr.pos_shift, hpos]
  rfl

theorem Node.IsWritten.of_shift {node : Node} (h : (node.shift n).IsWritten) :
    node.IsWritten := by
  cases node with
  | stmt s => trivial
  | expr e =>
    cases e with
    | call func lparen args rparen piped => exact Args.IsWritten.of_shift n h
    | tuple lparen args rparen => exact Args.IsWritten.of_shift n h
    | func pos name params body => exact Params.IsWritten.of_shift n h
    | closure pos params arrow body => exact Params.IsWritten.of_shift n h
    | selector base name nullish =>
      cases name with
      | literal lit => exact h
      | _ => trivial
    | unary op opPos operand => exact h
    | _ => trivial

theorem Node.Within.shift {lo hi : Pos} {node : Node} (h : node.Within lo hi) :
    (node.shift n).Within (lo + n) (hi + n) := by
  refine ⟨?_, ?_, ?_, fun slack hsure => (Node.everywhere_shift n).2 ?_⟩
  · rw [node.pos_shift]
    exact Nat.add_le_add_right h.lo_le n
  · rw [node.pos_shift]
    exact Nat.add_le_add_right h.pos_le n
  · rw [node.pos_shift, node.stop_shift]
    exact Nat.add_le_add_right h.pos_le_stop n
  · have hwritten (hshifted : Everywhere IsWritten (node.shift n)) : Everywhere IsWritten node :=
      ((Node.everywhere_shift n).1 hshifted).imp fun _ hm => hm.of_shift
    exact (h.lies slack (hsure.imp_right (.imp_right hwritten))).imp fun _ hm => hm.shift n

end Shift

end TemplateScript
