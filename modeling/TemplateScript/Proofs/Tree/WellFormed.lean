import TemplateScript.Proofs.Tree.Shift

/-!
# Well-formed trees

The rules that the tree of a faultless source obeys. Each is a rule about one node and its parts,
and a tree is well formed if every node in it, at whatever depth, obeys its rule. That the two marks
of a conditional stand on one line is a rule about positions, so the rules are taken relative to
what the line of a position is.
-/

namespace TemplateScript

/-- A node of a tree. -/
inductive Node where
  | expr (e : Expr)
  | stmt (s : Stmt)

/-- All expressions among arguments, the names of named ones included. -/
def Args.parts (args : Args Expr) : List Expr :=
  args.positional ++ args.spread.toList ++ args.named.flatMap (fun (name, value) => [name, value]) ++
    args.namedSpread.toList

namespace Args

variable {P : Expr → Prop} {args : Args Expr}

/-- All arguments have a property. -/
def All (P : Expr → Prop) (args : Args Expr) : Prop := ∀ e ∈ args.parts, P e

theorem all_iff :
    args.All P ↔ (∀ e ∈ args.positional, P e) ∧ (∀ e ∈ args.spread, P e) ∧
      (∀ arg ∈ args.named, P arg.1 ∧ P arg.2) ∧ ∀ e ∈ args.namedSpread, P e := by
  simp only [All, parts, List.mem_append, List.mem_flatMap, Option.mem_toList, List.mem_cons,
    List.not_mem_nil, or_false]
  constructor
  · intro h
    exact ⟨fun e he => h e (.inl (.inl (.inl he))), fun e he => h e (.inl (.inl (.inr he))),
      fun arg harg => ⟨h _ (.inl (.inr ⟨arg, harg, .inl rfl⟩)),
        h _ (.inl (.inr ⟨arg, harg, .inr rfl⟩))⟩, fun e he => h e (.inr he)⟩
  · rintro ⟨hpositional, hspread, hnamed, hnamedSpread⟩ e
    rintro (((he | he) | ⟨arg, harg, rfl | rfl⟩) | he)
    · exact hpositional e he
    · exact hspread e he
    · exact (hnamed arg harg).1
    · exact (hnamed arg harg).2
    · exact hnamedSpread e he

theorem All.withNamed (h : args.All P) {name value : Expr} (hname : P name) (hvalue : P value) :
    ({ args with named := args.named ++ [(name, value)] } : Args Expr).All P := by
  obtain ⟨hpositional, hspread, hnamed, hnamedSpread⟩ := all_iff.1 h
  refine all_iff.2 ⟨hpositional, hspread, ?_, hnamedSpread⟩
  intro arg harg
  rcases List.mem_append.1 harg with harg | harg
  · exact hnamed arg harg
  · rw [List.mem_singleton.1 harg]
    exact ⟨hname, hvalue⟩

theorem All.withPositional (h : args.All P) {positional : List Expr}
    (hpositional : ∀ e ∈ positional, P e) : ({ args with positional } : Args Expr).All P :=
  all_iff.2 ⟨hpositional, (all_iff.1 h).2⟩

theorem All.withArg (h : args.All P) {e : Expr} (he : P e) :
    ({ args with positional := args.positional ++ [e] } : Args Expr).All P :=
  h.withPositional (List.forall_mem_append.2 ⟨(all_iff.1 h).1, List.forall_mem_singleton.2 he⟩)

theorem All.withSpread (h : args.All P) {e : Expr} (he : P e) :
    ({ args with spread := some e } : Args Expr).All P := by
  obtain ⟨hpositional, -, hnamed⟩ := all_iff.1 h
  exact all_iff.2 ⟨hpositional, by simpa using he, hnamed⟩

theorem All.withNamedSpread (h : args.All P) {e : Expr} (he : P e) :
    ({ args with namedSpread := some e } : Args Expr).All P := by
  obtain ⟨hpositional, hspread, hnamed, -⟩ := all_iff.1 h
  exact all_iff.2 ⟨hpositional, hspread, hnamed, by simpa using he⟩

theorem eq_of_single? {e : Expr} (h : args.single? = some e) :
    args = { positional := [e] } := by
  unfold Args.single? at h
  split at h
  · rw [Option.some.inj h]
  · cases h

end Args

/-- The names of the parameters that have defaults. -/
def Params.names (params : Params Expr) : List TypedIdent := params.named.map (·.1)

/-- The defaults of parameters. -/
def Params.defaults (params : Params Expr) : List Expr := params.named.map (·.2)

/-- The value of an entry of a declaration, if it has one. -/
def Spec.value? : Spec Expr → Option Expr
  | .param .. => none
  | .named _ preset _ => preset
  | .value _ given => given

/-- The expressions among keys with their values. -/
def KeyValue.parts (entry : KeyValue Expr) : List Expr := entry.key :: entry.value.toList

namespace Node

/-- The statements of a block as nodes. -/
def ofBlock (body : Block Stmt) : List Node := body.stmts.map .stmt

end Node

/-- The nodes right below an expression. -/
def Expr.children : Expr → List Node
  | .ident _ | .literal _ | .word .. | .load .. | .bad .. => []
  | .array _ elements _ => elements.map .expr
  | .dict _ entries _ => entries.map (.expr ·.value)
  | .binary lhs _ _ rhs => [.expr lhs, .expr rhs]
  | .unary _ _ operand => [.expr operand]
  | .cond test _ yes _ no => [.expr test, .expr yes, .expr no]
  | .call callee _ args _ _ => .expr callee :: args.parts.map .expr
  | .index base _ key _ => [.expr base, .expr key]
  | .slice base _ low high _ => .expr base :: (low.toList ++ high.toList).map .expr
  | .selector base name _ => [.expr base, .expr name]
  | .paren _ inner _ => [.expr inner]
  | .tuple _ args _ => args.parts.map .expr
  | .keyValues _ entries _ => (entries.flatMap KeyValue.parts).map .expr
  | .func _ _ params body => params.defaults.map .expr ++ Node.ofBlock body
  | .closure _ params _ body => .expr body :: params.defaults.map .expr
  | .ret _ result => result.toList.map .expr

/-- The nodes right below a statement. -/
def Stmt.children : Stmt → List Node
  | .expr e => [.expr e]
  | .empty .. | .branch .. | .mixedText _ | .codeBegin _ | .codeEnd _ | .bad .. => []
  | .block body => Node.ofBlock body
  | .assign targets _ _ values => (targets ++ values).map .expr
  | .decl _ _ _ specs _ => (specs.filterMap Spec.value?).map .expr
  | .ifElse _ init test body otherwise =>
    .expr test :: (init.toList.map .stmt ++ Node.ofBlock body ++ otherwise.toList.map .stmt)
  | .forLoop _ init test post body otherwise =>
    test.toList.map .expr ++ (init.toList ++ post.toList).map .stmt ++ Node.ofBlock body ++
      otherwise.toList.flatMap Node.ofBlock
  | .forIn _ _ _ iterable body otherwise =>
    .expr iterable :: (Node.ofBlock body ++ otherwise.toList.flatMap Node.ofBlock)
  | .ret _ result => result.toList.map .expr
  | .incDec target _ _ => [.expr target]
  | .tryCatch _ body handler finalizer =>
    Node.ofBlock body ++ handler.toList.flatMap (Node.ofBlock ·.body) ++
      finalizer.toList.flatMap (Node.ofBlock ·.body)
  | .throw _ e => [.expr e]
  | .mixedValue _ e _ => [.expr e]
  | .pragma _ entries _ _ => (entries.flatMap KeyValue.parts).map .expr

namespace Node

/-- The nodes right below a node. -/
def children : Node → List Node
  | .expr e => e.children
  | .stmt s => s.children

/-- A rule is obeyed by a node and by all nodes below it. -/
inductive Everywhere (rule : Node → Prop) : Node → Prop
  | intro {n : Node} (here : rule n) (below : ∀ m ∈ n.children, Everywhere rule m) :
    Everywhere rule n

variable {rule : Node → Prop} {n : Node}

theorem Everywhere.here (h : Everywhere rule n) : rule n := by
  cases h with
  | intro here below => exact here

theorem Everywhere.parts (h : Everywhere rule n) : ∀ m ∈ n.children, Everywhere rule m := by
  cases h with
  | intro here below => exact below

theorem Everywhere.imp {more : Node → Prop} (hmore : ∀ m, rule m → more m)
    (h : Everywhere rule n) : Everywhere more n := by
  induction h with
  | intro here below ih => exact .intro (hmore _ here) ih

end Node

/-! ### The rules -/

/-- The expression is the word `nil`, without parentheses. -/
def Expr.isBareNil : Expr → Prop
  | .word .nil _ => True
  | _ => False

/-- There are as many defaults as parameters to have them. -/
def Params.Balanced (params : Params Expr) : Prop := params.names.length = params.defaults.length

/-- The rule for an expression. -/
def Expr.Legal (line : Pos → Nat) : Expr → Prop
  | .bad .. => False
  | .binary _ op _ rhs => op.precedence ≠ 0 ∧ (op = .equal ∨ op = .notEqual → ¬ rhs.isBareNil)
  | .cond _ question _ colon _ => line question = line colon
  | .call _ _ args _ piped => piped = true → args.positional ≠ []
  | .func _ _ params _ | .closure _ params _ _ => params.Balanced
  | _ => True

/-- What an assignment assigns to, and how much. -/
structure AssignLegal (targets : List Expr) (op : Token.Kind) (values : List Expr) : Prop where
  isAssign : op.isAssign = true
  targets_ne : targets ≠ []
  values_ne : values ≠ []
  /-- A definition defines names. -/
  defines : op = .define → ∀ target ∈ targets, target.ident?.isSome = true
  assigns : op ≠ .define → ∀ target ∈ targets, target.isAssignable = true
  /-- An operator that combines has one operand on each side. -/
  combines : op ≠ .assign → op ≠ .define → targets.length = 1 ∧ values.length = 1
  arity : values.length = 1 ∨ values.length = targets.length

/-- An entry of a declaration of constants has a value, and one of globals has none. -/
def Spec.Legal (word : Token.Kind) : Spec Expr → Prop
  | .value _ given =>
    (word = .constWord → given.isSome = true) ∧ (word = .globalWord → given = none)
  | _ => word ≠ .constWord ∧ word ≠ .globalWord

/-- The rule for a statement. -/
def Stmt.Legal : Stmt → Prop
  | .bad .. => False
  | .assign targets op _ values => AssignLegal targets op values
  | .decl word _ _ specs _ => ∀ spec ∈ specs, spec.Legal word
  | .incDec target _ _ => target.isAssignable = true
  | .tryCatch _ _ handler finalizer => handler.isSome = true ∨ finalizer.isSome = true
  | _ => True

/-- The rule for a node. -/
def Node.Legal (line : Pos → Nat) : Node → Prop
  | .expr e => e.Legal line
  | .stmt s => s.Legal

/-- An expression obeys the rules at every depth. -/
def Expr.WellFormed (line : Pos → Nat) (e : Expr) : Prop :=
  Node.Everywhere (Node.Legal line) (.expr e)

/-- A statement obeys the rules at every depth. -/
def Stmt.WellFormed (line : Pos → Nat) (s : Stmt) : Prop :=
  Node.Everywhere (Node.Legal line) (.stmt s)

/-- A document obeys the rules at every depth. -/
def Document.WellFormed (line : Pos → Nat) (d : Document) : Prop :=
  ∀ s ∈ d.stmts, s.WellFormed line

/-! ### Shifted trees -/

section Shift

variable (n : Nat)

theorem shiftArgs_parts (args : Args Expr) :
    (shiftArgs n args).parts = args.parts.map (·.shift n) := by
  obtain ⟨positional, spread, named, namedSpread⟩ := args
  simp only [shiftArgs, Args.parts, shiftExprs_eq_map, shiftExpr?_eq_map, shiftNamed_eq_map,
    List.map_append, Option.toList_map, List.flatMap_map, List.map_flatMap, List.map_cons,
    List.map_nil]

theorem shiftParams_defaults (params : Params Expr) :
    (shiftParams n params).defaults = params.defaults.map (·.shift n) := by
  obtain ⟨lparen, positional, variadic, named, namedVariadic, rparen⟩ := params
  simp [shiftParams, Params.defaults, shiftDefaults_eq_map]

theorem shiftKeyValues_parts (entries : List (KeyValue Expr)) :
    (shiftKeyValues n entries).flatMap KeyValue.parts =
      (entries.flatMap KeyValue.parts).map (·.shift n) := by
  induction entries with
  | nil => rfl
  | cons entry rest ih =>
    obtain ⟨key, value⟩ := entry
    cases value <;> simp [shiftKeyValues, shiftExpr?, KeyValue.parts, ih]

theorem shiftSpecs_values (specs : List (Spec Expr)) :
    (shiftSpecs n specs).filterMap Spec.value? =
      (specs.filterMap Spec.value?).map (·.shift n) := by
  induction specs with
  | nil => rfl
  | cons spec rest ih =>
    cases spec with
    | param ident variadic => simpa [shiftSpecs, List.filterMap_cons, Spec.value?] using ih
    | named ident value variadic => cases value <;> simpa [shiftSpecs, Spec.value?, shiftExpr?]
    | value ident given => cases given <;> simpa [shiftSpecs, Spec.value?, shiftExpr?]

/-- A node further on. -/
def Node.shift : Node → Node
  | .expr e => .expr (e.shift n)
  | .stmt s => .stmt (s.shift n)

theorem Node.shift_comp_expr : Node.shift n ∘ Node.expr = Node.expr ∘ (·.shift n) := rfl

theorem Node.shift_comp_stmt : Node.shift n ∘ Node.stmt = Node.stmt ∘ (·.shift n) := rfl

theorem Node.ofBlock_shift (body : Block Stmt) :
    Node.ofBlock (shiftBlock n body) = (Node.ofBlock body).map (Node.shift n) := by
  obtain ⟨lbrace, stmts, rbrace⟩ := body
  simp [Node.ofBlock, shiftBlock, shiftStmts_eq_map, Node.shift_comp_stmt]

theorem Expr.children_shift (e : Expr) : (e.shift n).children = e.children.map (Node.shift n) := by
  cases e <;>
    simp [Expr.shift, Expr.children, Node.shift, shiftExprs_eq_map, shiftEntries_eq_map,
      DictEntry.shift,
      shiftArgs_parts, shiftExpr?_eq_map, shiftKeyValues_parts, shiftParams_defaults,
      Node.ofBlock_shift, Option.toList_map, Node.shift_comp_expr]

theorem Stmt.children_shift (s : Stmt) : (s.shift n).children = s.children.map (Node.shift n) := by
  cases s with
  | tryCatch pos body handler finalizer =>
    cases handler <;> cases finalizer <;>
      simp [Stmt.shift, Stmt.children, shiftCatch?, shiftFinally?, Node.ofBlock_shift]
  | forLoop pos init test post body otherwise =>
    cases otherwise <;>
      simp [Stmt.shift, Stmt.children, shiftExpr?_eq_map, shiftStmt?_eq_map, shiftBlock?,
        Node.ofBlock_shift, Option.toList_map, Node.shift_comp_expr, Node.shift_comp_stmt]
  | forIn pos key value iterable body otherwise =>
    cases otherwise <;>
      simp [Stmt.shift, Stmt.children, Node.shift, shiftBlock?, Node.ofBlock_shift]
  | _ =>
    simp [Stmt.shift, Stmt.children, Node.shift, shiftExprs_eq_map, shiftExpr?_eq_map,
      shiftStmt?_eq_map, shiftSpecs_values, shiftKeyValues_parts, Node.ofBlock_shift,
      Option.toList_map, Node.shift_comp_expr, Node.shift_comp_stmt]

theorem Expr.isBareNil_shift (e : Expr) : (e.shift n).isBareNil ↔ e.isBareNil := by
  cases e with
  | word w pos => cases w <;> rfl
  | _ => exact Iff.rfl

theorem shiftParams_balanced {params : Params Expr} (h : params.Balanced) :
    (shiftParams n params).Balanced := by
  obtain ⟨lparen, positional, variadic, named, namedVariadic, rparen⟩ := params
  simp [shiftParams, Params.Balanced, Params.names, Params.defaults]

theorem AssignLegal.shift {targets values : List Expr} {op : Token.Kind}
    (h : AssignLegal targets op values) :
    AssignLegal (shiftExprs n targets) op (shiftExprs n values) := by
  rw [shiftExprs_eq_map, shiftExprs_eq_map]
  refine ⟨h.isAssign, ?_, ?_, ?_, ?_, ?_, ?_⟩
  · simpa using h.targets_ne
  · simpa using h.values_ne
  · intro hop target htarget
    obtain ⟨e, he, rfl⟩ := List.mem_map.1 htarget
    rw [Expr.ident?_shift, Option.isSome_map]
    exact h.defines hop e he
  · intro hop target htarget
    obtain ⟨e, he, rfl⟩ := List.mem_map.1 htarget
    rw [Expr.isAssignable_shift]
    exact h.assigns hop e he
  · simpa using h.combines
  · simpa using h.arity

theorem shiftSpecs_legal {word : Token.Kind} {specs : List (Spec Expr)}
    (h : ∀ spec ∈ specs, spec.Legal word) : ∀ spec ∈ shiftSpecs n specs, spec.Legal word := by
  induction specs with
  | nil => simp [shiftSpecs]
  | cons spec rest ih =>
    obtain ⟨hspec, hrest⟩ := List.forall_mem_cons.1 h
    cases spec with
    | param ident variadic => exact List.forall_mem_cons.2 ⟨hspec, ih hrest⟩
    | named ident value variadic => exact List.forall_mem_cons.2 ⟨hspec, ih hrest⟩
    | value ident given =>
      refine List.forall_mem_cons.2 ⟨?_, ih hrest⟩
      simpa [Spec.Legal, shiftExpr?_eq_map] using hspec

/-- Rules do not mind where the source begins, if the lines are moved along. -/
theorem Node.Legal.shift {line shifted : Pos → Nat} (hline : ∀ pos, shifted (pos + n) = line pos)
    {node : Node} (h : node.Legal line) : (node.shift n).Legal shifted := by
  cases node with
  | expr e =>
    cases e with
    | binary lhs op opPos rhs =>
      exact ⟨h.1, fun hop => mt (Expr.isBareNil_shift n rhs).1 (h.2 hop)⟩
    | cond test question yes colon no => exact (hline _).trans (h.trans (hline _).symm)
    | call callee lparen args rparen piped =>
      intro hpiped
      obtain ⟨positional, spread, named, namedSpread⟩ := args
      simpa [shiftArgs, shiftExprs_eq_map] using h hpiped
    | func pos name params body => exact shiftParams_balanced n h
    | closure pos params arrow body => exact shiftParams_balanced n h
    | bad first last => exact h
    | _ => trivial
  | stmt s =>
    cases s with
    | assign targets op opPos values => exact AssignLegal.shift n h
    | decl word pos lparen specs rparen => exact shiftSpecs_legal n h
    | incDec target op opPos => exact (Expr.isAssignable_shift n target).trans h
    | tryCatch pos body handler finalizer =>
      cases handler <;> cases finalizer <;> simp_all [Node.Legal, Stmt.Legal, Node.shift,
        Stmt.shift, shiftCatch?, shiftFinally?]
    | bad first last => exact h
    | _ => trivial

theorem Node.children_shift (node : Node) :
    (node.shift n).children = node.children.map (Node.shift n) := by
  cases node with
  | expr e => exact e.children_shift n
  | stmt s => exact s.children_shift n

/-- A rule is obeyed by a tree further on if the tree obeys what the rule says further on. -/
theorem Node.everywhere_shift {rule : Node → Prop} {node : Node} :
    Everywhere rule (node.shift n) ↔ Everywhere (fun m => rule (m.shift n)) node := by
  constructor
  · intro h
    generalize hmoved : node.shift n = moved at h
    induction h generalizing node with
    | @intro moved here below ih =>
      subst hmoved
      refine .intro here fun m hm => ih (m.shift n) ?_ rfl
      rw [node.children_shift n]
      exact List.mem_map_of_mem hm
  · intro h
    induction h with
    | @intro node here below ih =>
      refine .intro here fun m hm => ?_
      rw [node.children_shift n] at hm
      obtain ⟨child, hchild, rfl⟩ := List.mem_map.1 hm
      exact ih child hchild

theorem Document.WellFormed.shift {line shifted : Pos → Nat}
    (hline : ∀ pos, shifted (pos + n) = line pos) {d : Document} (h : d.WellFormed line) :
    (d.shift n).WellFormed shifted := by
  intro s hs
  rw [show (d.shift n).stmts = d.stmts.map (·.shift n) from shiftStmts_eq_map n d.stmts] at hs
  obtain ⟨t, ht, rfl⟩ := List.mem_map.1 hs
  exact (Node.everywhere_shift n).2 (Node.Everywhere.imp (fun m hm => hm.shift n hline) (h t ht))

end Shift

end TemplateScript
