import TemplateScript.Proofs.Tree.Extent

/-!
# Statements in order

In every list of statements of a tree, the file's and those of all blocks, each statement begins
behind the one before it, and all of them begin in a range.
-/

namespace TemplateScript

/-- Each statement begins behind the one before it, and all of them begin from `lo` to `hi`. -/
structure InOrder (lo hi : Pos) (stmts : List Stmt) : Prop where
  ordered : stmts.Pairwise fun s t => s.pos < t.pos
  lo_le : ∀ s ∈ stmts, lo ≤ s.pos
  le_hi : ∀ s ∈ stmts, s.pos ≤ hi

theorem InOrder.shift {lo hi n : Nat} {stmts : List Stmt} (h : InOrder lo hi stmts) :
    InOrder (lo + n) (hi + n) (shiftStmts n stmts) := by
  rw [shiftStmts_eq_map]
  refine ⟨List.pairwise_map.2 (h.ordered.imp fun {s t} hlt => ?_),
    List.forall_mem_map.2 fun s hs => ?_, List.forall_mem_map.2 fun s hs => ?_⟩
  · rw [s.pos_shift, t.pos_shift]
    exact Nat.add_lt_add_right hlt n
  · rw [s.pos_shift]
    exact Nat.add_le_add_right (h.lo_le s hs) n
  · rw [s.pos_shift]
    exact Nat.add_le_add_right (h.le_hi s hs) n

/-- The blocks right in an expression. -/
def Expr.blocks : Expr → List (Block Stmt)
  | .func _ _ _ body => [body]
  | _ => []

/-- The blocks right in a statement. -/
def Stmt.blocks : Stmt → List (Block Stmt)
  | .block body => [body]
  | .ifElse _ _ _ body _ => [body]
  | .forLoop _ _ _ _ body otherwise => body :: otherwise.toList
  | .forIn _ _ _ _ body otherwise => body :: otherwise.toList
  | .tryCatch _ body handler finalizer =>
    body :: (handler.toList.map (·.body) ++ finalizer.toList.map (·.body))
  | _ => []

namespace Node

variable {lo hi n : Nat}

/-- The blocks right in a node. -/
def blocks : Node → List (Block Stmt)
  | .expr e => e.blocks
  | .stmt s => s.blocks

/-- The statements of the blocks right in a node are in order. -/
def KeepsOrder (lo hi : Pos) (node : Node) : Prop :=
  ∀ body ∈ node.blocks, InOrder lo hi body.stmts

theorem blocks_shift (node : Node) :
    (node.shift n).blocks = node.blocks.map (shiftBlock n) := by
  cases node with
  | expr e => cases e <;> simp [Node.shift, Expr.shift, blocks, Expr.blocks]
  | stmt s =>
    cases s with
    | tryCatch pos body handler finalizer =>
      cases handler <;> cases finalizer <;>
        simp [Node.shift, Stmt.shift, blocks, Stmt.blocks, shiftCatch?, shiftFinally?]
    | forLoop pos init test post body otherwise =>
      cases otherwise <;> simp [Node.shift, Stmt.shift, blocks, Stmt.blocks, shiftBlock?]
    | forIn pos key value iterable body otherwise =>
      cases otherwise <;> simp [Node.shift, Stmt.shift, blocks, Stmt.blocks, shiftBlock?]
    | _ => simp [Node.shift, Stmt.shift, blocks, Stmt.blocks]

theorem KeepsOrder.shift {node : Node} (h : node.KeepsOrder lo hi) :
    (node.shift n).KeepsOrder (lo + n) (hi + n) := by
  unfold KeepsOrder
  rw [blocks_shift]
  refine List.forall_mem_map.2 fun body hbody => ?_
  have hshifted := (h body hbody).shift (n := n)
  rwa [show shiftStmts n body.stmts = (shiftBlock n body).stmts by cases body; rfl] at hshifted

/-- Statements are in order at every depth of a tree. -/
abbrev Ordered (lo hi : Pos) (node : Node) : Prop := Everywhere (KeepsOrder lo hi) node

namespace Ordered

variable {node : Node}

/-- A node without blocks, all of whose parts are in order. -/
theorem of_parts (hblocks : node.blocks = []) (hparts : ∀ m ∈ node.children, m.Ordered lo hi) :
    node.Ordered lo hi :=
  .intro (by simp [KeepsOrder, hblocks]) hparts

/-- A node without parts. -/
theorem leaf (hblocks : node.blocks = []) (hparts : node.children = []) : node.Ordered lo hi :=
  of_parts hblocks (by simp [hparts])

end Ordered

end Node

/-- Statements in order, all of whose blocks are in order at every depth. -/
structure OrderedStmts (lo hi : Pos) (stmts : List Stmt) : Prop extends InOrder lo hi stmts where
  within : ∀ s ∈ stmts, (Node.stmt s).Ordered lo hi

theorem OrderedStmts.shift {lo hi n : Nat} {stmts : List Stmt} (h : OrderedStmts lo hi stmts) :
    OrderedStmts (lo + n) (hi + n) (shiftStmts n stmts) := by
  refine { h.toInOrder.shift with within := ?_ }
  rw [shiftStmts_eq_map]
  refine List.forall_mem_map.2 fun s hs => ?_
  have hshifted : ((Node.stmt s).shift n).Ordered (lo + n) (hi + n) :=
    (Node.everywhere_shift n).2 ((h.within s hs).imp fun _ hm => hm.shift)
  exact hshifted

/-- All statements in an expression are in order. -/
abbrev Expr.Ordered (lo hi : Pos) (e : Expr) : Prop := (Node.expr e).Ordered lo hi

/-- All statements in a statement are in order. -/
abbrev Stmt.Ordered (lo hi : Pos) (s : Stmt) : Prop := (Node.stmt s).Ordered lo hi

/-- All statements of a block are in order. -/
abbrev Block.Ordered (lo hi : Pos) (body : Block Stmt) : Prop := OrderedStmts lo hi body.stmts

/-- All statements in the defaults of parameters are in order. -/
def Params.Ordered (lo hi : Pos) (params : Params Expr) : Prop :=
  ∀ e ∈ params.defaults, e.Ordered lo hi

theorem Params.Ordered.withNamed {lo hi : Pos} {params : Params Expr} (h : params.Ordered lo hi)
    (ident : TypedIdent) {value : Expr} (hvalue : value.Ordered lo hi) :
    ({ params with named := params.named ++ [(ident, value)] } : Params Expr).Ordered lo hi := by
  unfold Ordered defaults
  rw [List.map_append, List.forall_mem_append]
  exact ⟨h, List.forall_mem_singleton.2 hvalue⟩

namespace Node

variable {lo hi : Pos}

theorem ordered_exprs {list : List Expr} (h : ∀ e ∈ list, e.Ordered lo hi) :
    ∀ m ∈ list.map Node.expr, m.Ordered lo hi :=
  List.forall_mem_map.2 h

theorem ordered_block {body : Block Stmt} (h : body.Ordered lo hi) :
    ∀ m ∈ ofBlock body, m.Ordered lo hi :=
  List.forall_mem_map.2 h.within

end Node

end TemplateScript
