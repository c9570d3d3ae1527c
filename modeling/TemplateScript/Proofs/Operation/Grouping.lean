import TemplateScript.Proofs.Template.Canonical
import TemplateScript.Proofs.Tree.Shift

/-!
# Names with operators between them

A chain is a row of names with binary operators between them, and a grouping is a tree over such a
row. The precedence of the operators and the side to which those of one precedence group say which
groupings are proper. No row has more than one of them.
-/

namespace TemplateScript

/-- A binary operator. -/
structure Operator where
  kind : Token.Kind
  binds : kind.precedence ≠ 0
deriving DecidableEq

/-- Names with operators between them: a first name, and what follows it. -/
structure Chain where
  first : Template.Name
  rest : List (Operator × Template.Name)

/-- What stands in a row of names and operators. -/
inductive Chain.Item where
  | name (text : String)
  | op (kind : Token.Kind)
deriving DecidableEq, Repr

/-- A tree over names and operators. -/
inductive Grouping where
  | name (text : String)
  | node (left : Grouping) (op : Token.Kind) (right : Grouping)
deriving DecidableEq, Repr

namespace Chain

/-- Operators with names behind them, in order. -/
def itemsBehind (rest : List (Operator × Template.Name)) : List Item :=
  rest.flatMap fun (op, x) => [.op op.kind, .name x.text]

/-- The names and operators of a chain, in order. -/
def items (chain : Chain) : List Item := .name chain.first.text :: itemsBehind chain.rest

/-- The text of operators with names behind them, with one space before each. -/
def sourceBehind : List (Operator × Template.Name) → String
  | [] => ""
  | (op, x) :: rest => " " ++ op.kind.spelling ++ " " ++ x.text ++ sourceBehind rest

/-- The definition of a name as what a chain computes. -/
def definition (v : Template.Name) (chain : Chain) : String :=
  v.text ++ " := " ++ chain.first.text ++ sourceBehind chain.rest

end Chain

/-! ### Proper groupings -/

namespace Token.Kind

/-- An operation of `q` may be the left operand of `p`. -/
def BindsLeft (p q : Kind) : Prop :=
  p.precedence < q.precedence ∨ (q.precedence = p.precedence ∧ p.isRightAssoc = false)

/-- An operation of `q` may be the right operand of `p`. -/
def BindsRight (p q : Kind) : Prop :=
  p.precedence < q.precedence ∨ (q.precedence = p.precedence ∧ p.isRightAssoc = true)

instance (p q : Kind) : Decidable (BindsLeft p q) := inferInstanceAs (Decidable (_ ∨ _))

instance (p q : Kind) : Decidable (BindsRight p q) := inferInstanceAs (Decidable (_ ∨ _))

variable {p q s : Kind}

theorem isRightAssoc_eq (k : Kind) : k.isRightAssoc = decide (k.precedence = 9) := by
  cases k <;> rfl

/-- Operators of one precedence group to the same side. -/
theorem isRightAssoc_congr (h : p.precedence = q.precedence) : p.isRightAssoc = q.isRightAssoc := by
  rw [isRightAssoc_eq, isRightAssoc_eq, h]

theorem precedence_le_of_binds (h : BindsLeft p q ∨ BindsRight p q) :
    p.precedence ≤ q.precedence := by
  unfold BindsLeft BindsRight at h
  omega

/-- What may be an operand of the left operand may be the left operand itself. -/
theorem BindsLeft.trans (h : BindsLeft p q) (k : BindsLeft q s ∨ BindsRight q s) :
    BindsLeft p s := by
  have hle := precedence_le_of_binds k
  rcases h with h | ⟨h, hside⟩
  · exact .inl (by omega)
  · rcases Nat.lt_or_ge p.precedence s.precedence with hlt | hge
    · exact .inl hlt
    · exact .inr ⟨by omega, hside⟩

theorem BindsRight.trans (h : BindsRight p q) (k : BindsLeft q s ∨ BindsRight q s) :
    BindsRight p s := by
  have hle := precedence_le_of_binds k
  rcases h with h | ⟨h, hside⟩
  · exact .inl (by omega)
  · rcases Nat.lt_or_ge p.precedence s.precedence with hlt | hge
    · exact .inl hlt
    · exact .inr ⟨by omega, hside⟩

/-- Of two operators, one goes into the operand of the other on one side only. -/
theorem BindsRight.not_bindsLeft (h : BindsRight p q) : ¬ BindsLeft q p := by
  intro k
  unfold BindsLeft at k
  unfold BindsRight at h
  rcases h with h | ⟨h, hright⟩
  · omega
  · rcases k with k | ⟨-, hleft⟩
    · omega
    · rw [isRightAssoc_congr h, hright] at hleft
      cases hleft

end Token.Kind

namespace Grouping

open Token.Kind (BindsLeft BindsRight)

/-- The names and operators of a grouping, from left to right. -/
def items : Grouping → List Chain.Item
  | .name text => [.name text]
  | .node left op right => left.items ++ .op op :: right.items

/-- The operator at the root. -/
def root? : Grouping → Option Token.Kind
  | .name _ => none
  | .node _ op _ => some op

/-- Every operation has operands that its operator lets it have. -/
def IsProper : Grouping → Prop
  | .name _ => True
  | .node left op right =>
    (∀ q ∈ left.root?, BindsLeft op q) ∧ (∀ q ∈ right.root?, BindsRight op q) ∧
      left.IsProper ∧ right.IsProper

instance decidableIsProper : (t : Grouping) → Decidable t.IsProper
  | .name _ => inferInstanceAs (Decidable True)
  | .node left _ right =>
    have := decidableIsProper left
    have := decidableIsProper right
    inferInstanceAs (Decidable (_ ∧ _ ∧ _ ∧ _))

variable {a b t left right : Grouping} {op q : Token.Kind}

/-- Operators deeper in a proper grouping may be where those above them may be. -/
theorem IsProper.op_mem (h : t.IsProper) {P : Token.Kind → Prop}
    (hP : ∀ q s, P q → BindsLeft q s ∨ BindsRight q s → P s) (hroot : ∀ q ∈ t.root?, P q)
    (hq : .op q ∈ t.items) : P q := by
  induction t with
  | name text => simp [items] at hq
  | node left op right ihleft ihright =>
    obtain ⟨hleft, hright, hisLeft, hisRight⟩ := h
    have hop : P op := hroot op rfl
    simp only [items, List.mem_append, List.mem_cons, Chain.Item.op.injEq] at hq
    rcases hq with hq | rfl | hq
    · exact ihleft hisLeft (fun s hs => hP op s hop (.inl (hleft s hs))) hq
    · exact hop
    · exact ihright hisRight (fun s hs => hP op s hop (.inr (hright s hs))) hq

/-- All operators to the left of the root may be in its left operand. -/
theorem IsProper.bindsLeft (h : (node left op right).IsProper) (hq : .op q ∈ left.items) :
    BindsLeft op q :=
  h.2.2.1.op_mem (fun _ _ => BindsLeft.trans) h.1 hq

/-- All operators to the right of the root may be in its right operand. -/
theorem IsProper.bindsRight (h : (node left op right).IsProper) (hq : .op q ∈ right.items) :
    BindsRight op q :=
  h.2.2.2.op_mem (fun _ _ => BindsRight.trans) h.2.1 hq

theorem items_ne_nil (t : Grouping) : t.items ≠ [] := by
  cases t <;> simp [items]

/-- If the root of one grouping stands further to the right than that of another, they are not both
proper. -/
theorem IsProper.not_further {left' right' : Grouping} {op' : Token.Kind} {x : Chain.Item}
    {between : List Chain.Item} (h : (node left op right).IsProper)
    (h' : (node left' op' right').IsProper) (hleft : left'.items = left.items ++ x :: between)
    (hbehind : .op op :: right.items = (x :: between) ++ .op op' :: right'.items) : False := by
  obtain ⟨rfl, hright⟩ := List.cons.inj hbehind
  have hinLeft : Chain.Item.op op ∈ left'.items := by simp [hleft]
  have hinRight : Chain.Item.op op' ∈ right.items := by simp [hright]
  exact (h.bindsRight hinRight).not_bindsLeft (h'.bindsLeft hinLeft)

/-- A row of names and operators has at most one proper grouping. -/
theorem IsProper.unique (ha : a.IsProper) (hb : b.IsProper) (h : a.items = b.items) : a = b := by
  induction a generalizing b with
  | name text =>
    cases b with
    | name text' => simpa [items] using h
    | node left op right =>
      have hleft := List.length_pos_iff.2 left.items_ne_nil
      have hlength := congrArg List.length h
      simp only [items, List.length_append, List.length_cons, List.length_nil] at hlength
      omega
  | node left op right ihleft ihright =>
    cases b with
    | name text =>
      have hleft := List.length_pos_iff.2 left.items_ne_nil
      have hlength := congrArg List.length h
      simp only [items, List.length_append, List.length_cons, List.length_nil] at hlength
      omega
    | node left' op' right' =>
      rcases List.append_eq_append_iff.1 h with ⟨between, hleft, hbehind⟩ | ⟨between, hleft, hbehind⟩
      · cases between with
        | nil =>
          rw [List.append_nil] at hleft
          obtain ⟨hop, hright⟩ := List.cons.inj hbehind
          obtain rfl := Chain.Item.op.inj hop
          rw [ihleft ha.2.2.1 hb.2.2.1 hleft.symm, ihright ha.2.2.2 hb.2.2.2 hright]
        | cons x between => exact (ha.not_further hb hleft hbehind).elim
      · cases between with
        | nil =>
          rw [List.append_nil] at hleft
          obtain ⟨hop, hright⟩ := List.cons.inj hbehind
          obtain rfl := Chain.Item.op.inj hop
          rw [ihleft ha.2.2.1 hb.2.2.1 hleft, ihright ha.2.2.2 hb.2.2.2 hright.symm]
        | cons x between => exact (hb.not_further ha hleft hbehind).elim

/-- Operators that group to the left, and one that groups to the right. -/
example :
    let a : Grouping := .name "a"
    (node (node a .sub a) .sub (node a .pow (node a .pow a))).IsProper ∧
      ¬ (node a .sub (node a .sub a)).IsProper := by decide

end Grouping

/-! ### Groupings of expressions -/

/-- The grouping of an expression that is made of names and binary operations only. -/
def Expr.grouping? : Expr → Option Grouping
  | .ident x => some (.name x.name)
  | .binary lhs op _ rhs =>
    match lhs.grouping?, rhs.grouping? with
    | some left, some right => some (.node left op right)
    | _, _ => none
  | _ => none

/-- An expression has the same grouping wherever it stands. -/
theorem Expr.grouping?_shift {e : Expr} {t : Grouping} (h : e.grouping? = some t) (n : Nat) :
    (e.shift n).grouping? = some t := by
  fun_induction Expr.grouping? e generalizing t with
  | case1 x => exact h
  | case2 lhs op pos rhs left right hright hleft ihleft ihright =>
    rw [Expr.shift, Expr.grouping?, ihleft hleft, ihright hright]
    exact h
  | case3 => cases h
  | case4 => cases h

end TemplateScript
