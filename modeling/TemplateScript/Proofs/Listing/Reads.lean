import TemplateScript.Proofs.Listing.Entry
import TemplateScript.Proofs.Script.Phrases

/-!
# Lists are read

Arguments and parameters are two sorts of lists, each read in rounds of its own. Whatever a round of
reading a list makes of one entry and of what stands between two, the rounds make of the entries of
a list. So both sorts are read alike where what is positional is a name.
-/

namespace TemplateScript

open Parse Grammar

variable {α β σ δ : Type} {w : Operands α} {v : Operands β} {K : Token.Outlook} {m depth : Nat}
  {rest : List Token.Face} {f g : Token.Face}

/-! ### Rounds -/

namespace Listing

/-- One more entry may follow those of a list, of which the named part may have begun. -/
def Takes (l : Listing α β) (inNamed : Bool) : Entry α β → Prop
  | .positional _ | .spread _ => inNamed = false ∧ l.spread = none
  | .named .. | .namedSpread _ => l.namedSpread = none

/-- Entries may follow those of a list, as far as what is in it goes. -/
structure Open (l : Listing α β) (inNamed : Bool) (more : List (Entry α β)) : Prop where
  named : inNamed = true ∨ l.spread ≠ none → ∀ e ∈ more, e.isNamed = true
  last : l.namedSpread ≠ none → more = []

namespace Open

variable {l : Listing α β} {inNamed : Bool} {e : Entry α β} {more : List (Entry α β)}

theorem empty (more : List (Entry α β)) : Open {} false more where
  named h := h.elim nofun (absurd rfl)
  last h := absurd rfl h

theorem takes (h : l.Open inNamed (e :: more)) : l.Takes inNamed e := by
  have hnamed : e.isNamed = false → inNamed = false ∧ l.spread = none := by
    intro he
    by_contra hnone
    rw [not_and_or, Bool.not_eq_false] at hnone
    rw [h.named hnone e List.mem_cons_self] at he
    cases he
  have hlast : l.namedSpread = none := by
    by_contra hsome
    cases h.last hsome
  cases e with
  | positional | spread => exact hnamed rfl
  | named | namedSpread => exact hlast

theorem add (h : l.Open inNamed (e :: more)) (hordered : Entry.Ordered (e :: more)) :
    (l.add e).Open (inNamed || e.isNamed) more := by
  have hlast : l.namedSpread ≠ none → more = [] := fun hsome => by cases h.last hsome
  have hmore (hold : inNamed = true ∨ l.spread ≠ none) : ∀ e ∈ more, e.isNamed = true :=
    (List.forall_mem_cons.1 (h.named hold)).2
  cases e with
  | positional a =>
    rw [Entry.isNamed, Bool.or_false]
    exact ⟨hmore, hlast⟩
  | spread a => exact ⟨fun _ => hordered.1, hlast⟩
  | named x b => exact ⟨fun _ => hordered.1, hlast⟩
  | namedSpread a =>
    obtain rfl : more = [] := hordered
    exact ⟨fun _ => List.forall_mem_nil _, fun _ => rfl⟩

theorem split (h : l.Open inNamed (e :: more)) (he : e.isNamed = true)
    (hordered : Entry.Ordered (e :: more)) : l.Open true (e :: more) := by
  refine ⟨fun _ => List.forall_mem_cons.2 ⟨he, ?_⟩, h.last⟩
  cases e with
  | positional | spread => cases he
  | named x b => exact hordered.1
  | namedSpread a =>
    obtain rfl : more = [] := hordered
    exact List.forall_mem_nil _

end Open

end Listing

theorem Entry.Ordered.tail {e : Entry α β} {more : List (Entry α β)} (h : Ordered (e :: more)) :
    Ordered more := by
  cases e with
  | positional => exact h
  | spread | named => exact h.2
  | namedSpread =>
    obtain rfl : more = [] := h
    trivial

/-- What rounds make of the tokens of a list, one entry at a time. A state stands for a list and for
whether the named part has begun, and what comes out at the end for a list. -/
structure ReadsEntries (round : σ → Parse (Round σ δ)) (K : Token.Outlook) (m : Nat)
    (w : Operands α) (v : Operands β) (State : σ → Listing α β → Bool → Prop)
    (Out : δ → Listing α β → Prop) : Prop where
  close : ∀ {s l inNamed rest}, State s l inNamed →
    (round s).ReadsIn K m (Chain.opFace .rparen :: rest) (Chain.opFace .rparen :: rest)
      (Round.Done (Out · l))
  split : ∀ {s l f rest}, State s l false →
    (round s).ReadsIn K m (Command.semicolon :: f :: rest) (f :: rest)
      (Round.Again (State · l true))
  comma : ∀ {s l inNamed e f rest}, State s l inNamed → l.Takes inNamed e →
    (round s).ReadsIn K m (e.faces w v ++ Chain.opFace .comma :: f :: rest) (f :: rest)
      (Round.Again (State · (l.add e) (inNamed || e.isNamed)))
  semicolon : ∀ {s l inNamed e rest}, State s l inNamed → l.Takes inNamed e →
    (round s).ReadsIn K m (e.faces w v ++ Command.semicolon :: rest) (Command.semicolon :: rest)
      (Round.Again (State · (l.add e) (inNamed || e.isNamed)))
  last : ∀ {s l inNamed e rest}, State s l inNamed → l.Takes inNamed e →
    (round s).ReadsIn K m (e.faces w v ++ Chain.opFace .rparen :: rest)
      (Chain.opFace .rparen :: rest) (Round.Done (Out · (l.add e)))

/-- Entries are read up to the closing parenthesis. -/
theorem ReadsEntries.loops {round : σ → Parse (Round σ δ)} {State : σ → Listing α β → Bool → Prop}
    {Out : δ → Listing α β → Prop} (h : ReadsEntries round K m w v State Out)
    {entries : List (Entry α β)} (hordered : Entry.Ordered entries) {l : Listing α β}
    {inNamed : Bool} (hopen : l.Open inNamed entries) {s : σ} (hs : State s l inNamed) :
    LoopsIn round K m (Entry.allFaces w v entries ++ Chain.opFace .rparen :: rest)
      (Chain.opFace .rparen :: rest) s (Out · (entries.foldl Listing.add l)) := by
  induction entries generalizing l inNamed s with
  | nil => exact .done (h.close hs)
  | cons e entries ih =>
    cases entries with
    | nil => exact .done (h.last hs hopen.takes)
    | cons next entries =>
      obtain ⟨f, more, hmore⟩ := List.exists_cons_of_ne_nil
        (List.append_ne_nil_of_right_ne_nil (Entry.allFaces w v (next :: entries))
          (List.cons_ne_nil (Chain.opFace .rparen) rest))
      have hrest := hopen.add hordered
      rw [Entry.allFaces, List.append_assoc, List.cons_append, hmore]
      rw [hmore] at ih
      rw [Entry.faceBetween]
      split
      · next hjoint =>
        rw [Bool.and_eq_true, Bool.not_eq_true'] at hjoint
        refine .step (h.semicolon hs hopen.takes) fun mid hmid => ?_
        have hbefore : inNamed = false := by
          by_contra hnamed
          have he := hopen.named (.inl (Bool.not_eq_false _ |>.mp hnamed)) e List.mem_cons_self
          rw [hjoint.1] at he
          cases he
        rw [hbefore, hjoint.1] at hmid
        refine .step (h.split hmid) fun behind hbehind => ?_
        exact ih hordered.tail (hrest.split hjoint.2 hordered.tail) hbehind
      · refine .step (h.comma hs hopen.takes) fun behind hbehind => ?_
        exact ih hordered.tail hrest hbehind

/-! ### What stands around an entry -/

/-- There are no line breaks to use before a token that stands for none. -/
theorem Parse.reads_skipLineBreaks {K : Token.Outlook} (hf : f.flags.inserted = false) :
    skipLineBreaks.ReadsIn K m (f :: rest) (f :: rest) (· = false) := by
  refine LoopsIn.reads (.done (reads_token fun pos => ?_))
  have hnone : (f.placed pos).isInsertedSemicolon = false := by
    rw [Token.isInsertedSemicolon, hf, Bool.and_false]
  rw [hnone, if_neg Bool.false_ne_true]
  exact reads_pure rfl

theorem Token.Face.inserted_of_ne (hf : f.kind ≠ .semicolon) : f.flags.inserted = false := by
  simp [flags, hf]

/-- An entry begins with a token that neither ends the list nor splits it. -/
theorem Entry.exists_head (hw : w.Read K) (e : Entry α β) :
    ∃ f more, e.faces w v = f :: more ∧ f.kind ≠ .rparen ∧ f.kind ≠ .semicolon := by
  have hnone : ∀ kind ∈ [Token.Kind.rparen, .semicolon], kind ∈ Token.Kind.foreign := by decide
  cases e with
  | positional a =>
    obtain ⟨f, more, hfaces, hf⟩ := hw.exists_head a
    refine ⟨f, more, hfaces, ?_, ?_⟩ <;> intro hkind <;> exact hf (hkind ▸ hnone _ (by decide))
  | spread a | namedSpread a => exact ⟨_, _, rfl, nofun, nofun⟩
  | named x b => exact ⟨_, _, rfl, nofun, nofun⟩

/-- Entries do not begin with a semicolon, nor does what is behind them. -/
theorem Entry.exists_head_all (hw : w.Read K) (entries : List (Entry α β))
    (hg : g.kind ≠ .semicolon) :
    ∃ f more, allFaces w v entries ++ g :: rest = f :: more ∧ f.kind ≠ .semicolon := by
  cases entries with
  | nil => exact ⟨g, rest, rfl, hg⟩
  | cons e entries =>
    obtain ⟨f, more, hfaces, -, hsemicolon⟩ := e.exists_head (v := v) hw
    cases entries with
    | nil => exact ⟨f, more ++ _, by rw [allFaces, hfaces]; rfl, hsemicolon⟩
    | cons next entries => exact ⟨f, more ++ _ ++ _, by rw [allFaces, hfaces]; rfl, hsemicolon⟩

/-- A list goes on or ends behind an entry. -/
def Token.Kind.entryEnds : List Token.Kind := [.comma, .semicolon, .rparen]

theorem Token.Kind.endsExpr_of_entryEnds {kind : Token.Kind} (h : kind ∈ entryEnds) :
    kind.endsExpr = true ∧ kind ≠ .assign ∧ kind ≠ .colon ∧ kind ≠ .ident := by
  have hall : ∀ kind ∈ entryEnds,
      kind.endsExpr = true ∧ kind ≠ .assign ∧ kind ≠ .colon ∧ kind ≠ .ident := by decide
  exact hall kind h

/-- Operands are read alike one phrase further in. -/
theorem Operands.Read.nested (hw : w.Read K) (depth m : Nat) (a : α) :
    (Nested.ofDepth depth).expr.ReadsAs K m (w.faces a) (w.tree a) := by
  cases depth with
  | zero => exact fun g rest _ => reads_fault _
  | succ depth => exact hw.reads depth m a

/-- Names as operands. -/
def Template.Name.operands : Operands Template.Name :=
  ⟨Template.Name.text, fun x => [x.face], fun x => Build.ident x.text⟩

theorem Template.Name.read : Template.Name.operands.Read K where
  exists_head x := ⟨x.face, [], rfl, by change Token.Kind.ident ∉ _; decide⟩
  reads _ _ x := (Atom.name x).reads

theorem unplacedExprs_concat (list : List Expr) (e : Expr) :
    unplacedExprs (list ++ [e]) = unplacedExprs list ++ [e.unplaced] := by
  induction list with
  | nil => rfl
  | cons first list ih => exact congrArg (first.unplaced :: ·) ih

theorem unplacedNamed_concat (list : List (Expr × Expr)) (name value : Expr) :
    unplacedNamed (list ++ [(name, value)]) =
      unplacedNamed list ++ [(name.unplaced, value.unplaced)] := by
  induction list with
  | nil => rfl
  | cons first list ih => exact congrArg ((first.1.unplaced, first.2.unplaced) :: ·) ih

theorem unplacedDefaults_concat (list : List (TypedIdent × Expr)) (ident : TypedIdent)
    (value : Expr) : unplacedDefaults (list ++ [(ident, value)]) =
      unplacedDefaults list ++ [(ident.unplaced, value.unplaced)] := by
  induction list with
  | nil => rfl
  | cons first list ih => exact congrArg ((first.1.unplaced, first.2.unplaced) :: ·) ih

theorem unplacedExpr?_eq_none {e : Option Expr} : unplacedExpr? e = none ↔ e = none := by
  cases e <;> simp [unplacedExpr?]

/-- A name without a position is a name. -/
theorem Expr.ident_of_unplaced {e : Expr} {name : String} (h : e.unplaced = Build.ident name) :
    ∃ pos, e = .ident ⟨name, pos⟩ := by
  cases e with
  | ident id =>
    obtain ⟨found, pos⟩ := id
    cases h
    exact ⟨pos, rfl⟩
  | _ => cases h

/-! ### Arguments -/

/-- A name is read before the `=` of an argument. -/
theorem Template.Name.argName_reads (x : Template.Name) :
    argName.ReadsIn K m (x.face :: g :: rest) (g :: rest)
      fun e => e.unplaced = Build.ident x.text := by
  refine reads_kind ((reads_expectIdent rfl).bind fun ident hident => reads_pure ?_)
  obtain ⟨name, pos⟩ := ident
  obtain rfl : name = x.text := hident
  rfl

namespace Listing

/-- The arguments that a list stands for. -/
def args (w : Operands α) (v : Operands β) (l : Listing α β) : Args Expr where
  positional := l.positional.map w.tree
  spread := l.spread.map w.tree
  named := l.named.map fun (x, b) => (Build.ident x.text, v.tree b)
  namedSpread := l.namedSpread.map w.tree

/-- What stands for a list of arguments. -/
def IsArgs (w : Operands α) (v : Operands β) (list : ArgList) (l : Listing α β) (inNamed : Bool) :
    Prop :=
  unplacedArgs list.args = l.args w v ∧ list.inNamed = inNamed

end Listing

namespace Grammar

/-- What becomes of a list of arguments behind one of them. -/
def argBehind (list : ArgList) : Parse (Round ArgList (Args Expr × Bool)) := do
  let _ ← skipLineBreaks
  match ← kind with
  | .comma =>
    next
    return .again { list with separated := true }
  | .semicolon => return .again list
  | _ => return .done (list.args, list.separated)

/-- One argument more, or the end of a list of arguments. -/
def argRound (deep : Nested) (list : ArgList) : Parse (Round ArgList (Args Expr × Bool)) := do
  let _ ← skipLineBreaks
  if (← kind) = .rparen then return .done (list.args, list.separated)
  else if (← token).isExplicitSemicolon then
    if list.inNamed then failExpected ")"
    else
      next
      return .again { list with inNamed := true, separated := true }
  else
    let list ← arg deep list
    argBehind list

theorem argList_eq (deep : Nested) : argList deep = loop {} (argRound deep) := rfl

/-- An argument is read before what ends an entry. It is no separator. -/
theorem arg_reads (depth m : Nat) (rest : List Token.Face) (hw : w.Read K) (hv : v.Read K)
    {list : ArgList} {l : Listing α β} {inNamed : Bool} (hlist : l.IsArgs w v list inNamed)
    {e : Entry α β} (he : l.Takes inNamed e) (hg : g.kind ∈ Token.Kind.entryEnds) :
    (arg (.ofDepth depth) list).ReadsIn K m (e.faces w v ++ g :: rest) (g :: rest)
      fun next => (l.add e).IsArgs w v next (inNamed || e.isNamed) ∧
        next.separated = list.separated := by
  obtain ⟨hexpr, hassign, -, -⟩ := Token.Kind.endsExpr_of_entryEnds hg
  obtain ⟨⟨positional, spread, named, namedSpread⟩, started, separated⟩ := list
  obtain ⟨hargs, rfl⟩ := hlist
  simp only [unplacedArgs, Listing.args, Args.mk.injEq] at hargs
  obtain ⟨hpositional, hspread, hnamed, hnamedSpread⟩ := hargs
  have hopen : l.spread = none → spread = none := fun hnone => by
    rw [hnone] at hspread
    exact unplacedExpr?_eq_none.1 hspread
  cases e with
  | positional a =>
    obtain ⟨rfl, hnone⟩ := he
    obtain rfl := hopen hnone
    obtain ⟨f, more, hfaces, hf⟩ := hw.exists_head a
    have hread := hw.nested depth m a g rest hexpr
    rw [Entry.faces]
    rw [hfaces] at hread ⊢
    apply reads_pos
    intro pos
    apply reads_kind
    split
    · next hkind => exact absurd (hkind ▸ hf) (by decide)
    · next hkind => exact absurd (hkind ▸ hf) (by decide)
    refine hread.bind fun found hfound => reads_kind ?_
    rw [decide_eq_false hassign]
    refine reads_pure ⟨⟨?_, rfl⟩, rfl⟩
    simp only [unplacedArgs, unplacedExprs_concat, hpositional, hspread, hnamed, hnamedSpread,
      hfound, Listing.args, Listing.add, List.map_append, List.map_cons, List.map_nil]
  | spread a =>
    obtain ⟨rfl, hnone⟩ := he
    obtain rfl := hopen hnone
    apply reads_pos
    intro pos
    refine reads_kind (reads_next_append.bind fun _ _ => ?_)
    refine (hw.nested depth m a g rest hexpr).bind fun found hfound => reads_pure ⟨⟨?_, rfl⟩, rfl⟩
    simp only [unplacedArgs, unplacedExpr?, hpositional, hnamed, hnamedSpread, hfound, Listing.args,
      Listing.add, Option.map_some]
  | namedSpread a =>
    obtain rfl : namedSpread = none := by
      rw [show l.namedSpread = none from he] at hnamedSpread
      exact unplacedExpr?_eq_none.1 hnamedSpread
    apply reads_pos
    intro pos
    refine reads_kind (reads_next_append.bind fun _ _ => ?_)
    refine (hw.nested depth m a g rest hexpr).bind fun found hfound =>
      reads_pure ⟨⟨?_, ?_⟩, rfl⟩
    · simp only [unplacedArgs, unplacedExpr?, hpositional, hspread, hnamed, hfound, Listing.args,
        Listing.add, Option.map_some]
    · exact (Bool.or_true _).symm
  | named x b =>
    obtain rfl : namedSpread = none := by
      rw [show l.namedSpread = none from he] at hnamedSpread
      exact unplacedExpr?_eq_none.1 hnamedSpread
    have hvalue := hv.nested depth m b g rest hexpr
    have hdone (name : Expr) (hname : name.unplaced = Build.ident x.text) (found : Expr)
        (hfound : found.unplaced = v.tree b) (inNamed : Bool) :
        (l.add (.named x b)).IsArgs w v
          ⟨⟨positional, spread, named ++ [(name, found)], none⟩, true, separated⟩
          (inNamed || true) := by
      refine ⟨?_, (Bool.or_true _).symm⟩
      simp only [unplacedArgs, unplacedNamed_concat, hpositional, hspread, hnamed, hnamedSpread,
        hname, hfound, Listing.args, Listing.add, List.map_append, List.map_cons, List.map_nil]
    obtain ⟨f, more, hfaces, -⟩ := hv.exists_head b
    rw [Entry.faces]
    rw [hfaces] at hvalue ⊢
    apply reads_pos
    intro pos
    apply reads_kind
    cases started with
    | true =>
      refine x.argName_reads.bind fun name hname => ?_
      refine (reads_accept rfl).bind fun found hfound => ?_
      subst hfound
      exact hvalue.bind fun value hvalue => reads_pure ⟨hdone name hname value hvalue true, rfl⟩
    | false =>
      have hname := (Template.Name.read (K := K)).nested depth m x (Chain.opFace .assign)
        (f :: (more ++ g :: rest)) (by decide)
      refine hname.bind fun name hname => reads_kind ?_
      obtain ⟨pos, rfl⟩ := Expr.ident_of_unplaced hname
      refine reads_next.bind fun _ _ => ?_
      exact hvalue.bind fun value hvalue => reads_pure ⟨hdone _ hname value hvalue false, rfl⟩

/-- A round that reads an argument goes on behind it. -/
theorem argRound_reads (hw : w.Read K) (hv : v.Read K) {list : ArgList} {l : Listing α β}
    {inNamed : Bool} (hlist : l.IsArgs w v list inNamed) {e : Entry α β} (he : l.Takes inNamed e)
    (hg : g.kind ∈ Token.Kind.entryEnds) {after : List Token.Face}
    {P : Round ArgList (Args Expr × Bool) → Prop}
    (hbehind : ∀ next, (l.add e).IsArgs w v next (inNamed || e.isNamed) →
      next.separated = list.separated → (argBehind next).ReadsIn K m (g :: rest) after P) :
    (argRound (.ofDepth depth) list).ReadsIn K m (e.faces w v ++ g :: rest) after P := by
  have hread := arg_reads depth m rest hw hv hlist he hg
  obtain ⟨f, more, hfaces, hrparen, hsemicolon⟩ := e.exists_head hw
  rw [hfaces] at hread ⊢
  refine (reads_skipLineBreaks (Token.Face.inserted_of_ne hsemicolon)).bind fun _ _ => ?_
  apply reads_kind
  rw [if_neg hrparen]
  apply reads_token
  intro pos
  rw [Token.isExplicitSemicolon, decide_eq_false hsemicolon, Bool.false_and,
    if_neg Bool.false_ne_true]
  exact hread.bind fun next hnext => hbehind next hnext.1 hnext.2

/-- The rounds of a list of arguments read its entries. -/
theorem argRound_entries (hw : w.Read K) (hv : v.Read K) (depth m : Nat) :
    ReadsEntries (argRound (.ofDepth depth)) K m w v (fun list l => l.IsArgs w v list)
      fun read l => unplacedArgs read.1 = l.args w v where
  close h := (reads_skipLineBreaks rfl).bind fun _ _ => reads_kind (reads_pure h.1)
  split h := by
    refine (reads_skipLineBreaks rfl).bind fun _ _ => reads_kind (reads_token fun pos => ?_)
    rw [h.2]
    exact reads_next.bind fun _ _ => reads_pure ⟨h.1, rfl⟩
  comma hs he := by
    refine argRound_reads hw hv hs he (by decide) fun next hnext _ => ?_
    refine (reads_skipLineBreaks rfl).bind fun _ _ => reads_kind ?_
    exact reads_next.bind fun _ _ => reads_pure hnext
  semicolon hs he := by
    refine argRound_reads hw hv hs he (by decide) fun next hnext _ => ?_
    exact (reads_skipLineBreaks rfl).bind fun _ _ => reads_kind (reads_pure hnext)
  last hs he := by
    refine argRound_reads hw hv hs he (by decide) fun next hnext _ => ?_
    exact (reads_skipLineBreaks rfl).bind fun _ _ => reads_kind (reads_pure hnext.1)

/-- A list of arguments is read up to the closing parenthesis. -/
theorem argList_reads (hw : w.Read K) (hv : v.Read K) (l : Listing α β) :
    (argList (.ofDepth depth)).ReadsIn K m
      (Entry.allFaces w v l.entries ++ Chain.opFace .rparen :: rest) (Chain.opFace .rparen :: rest)
      fun read => unplacedArgs read.1 = l.args w v := by
  have hloops : LoopsIn (argRound (.ofDepth depth)) K m
      (Entry.allFaces w v l.entries ++ Chain.opFace .rparen :: rest) _ {} _ :=
    (argRound_entries hw hv depth m).loops l.ordered_entries (.empty _) ⟨rfl, rfl⟩
  rw [l.foldl_entries] at hloops
  exact hloops.reads

end Grammar

/-! ### Parameters -/

namespace Listing

/-- A parameter without types. -/
def typed (x : Template.Name) : TypedIdent := ⟨Build.name x.text, []⟩

/-- The parameters that a list stands for. -/
def params (v : Operands β) (l : Listing Template.Name β) : Params Expr where
  lparen := 0
  positional := l.positional.map typed
  variadic := l.spread.map typed
  named := l.named.map fun (x, b) => (typed x, v.tree b)
  namedVariadic := l.namedSpread.map typed
  rparen := 0

/-- What stands for a list of parameters. -/
def IsParams (v : Operands β) (list : ParamList) (l : Listing Template.Name β) (inNamed : Bool) :
    Prop :=
  unplacedParams list.params = l.params v ∧ list.inNamed = inNamed

end Listing

namespace Grammar

/-- What becomes of a list of parameters behind one of them. -/
def paramBehind (list : ParamList) : Parse (Round ParamList (Params Expr)) := do
  let lineEnded ← skipLineBreaks
  match ← kind with
  | .comma =>
    next
    return .again list
  | .semicolon => return .again list
  | _ => if lineEnded then return .again list else return .done list.params

/-- One parameter more, or the end of a list of parameters. -/
def paramRound (deep : Nested) (list : ParamList) : Parse (Round ParamList (Params Expr)) := do
  let _ ← skipLineBreaks
  if (← kind) = .rparen then return .done list.params
  else if (← token).isExplicitSemicolon then
    if list.inNamed then failExpected ")"
    else
      next
      return .again { list with inNamed := true }
  else
    let list ← param deep list
    paramBehind list

theorem paramList_eq (deep : Nested) (lparen : Pos) :
    paramList deep lparen = loop ⟨{ lparen, rparen := lparen }, false⟩ (paramRound deep) := rfl

/-- A name before what ends an entry is a parameter without types. -/
theorem typedIdent_reads {x : Template.Name} (hcolon : g.kind ≠ .colon) (hident : g.kind ≠ .ident) :
    typedIdent.ReadsIn K m (x.face :: g :: rest) (g :: rest)
      fun t => t.unplaced = Listing.typed x := by
  refine (reads_expectIdent rfl).bind fun ident hname => ?_
  refine (reads_accept_none hcolon).bind fun found hfound => reads_kind ?_
  subst hfound
  rw [decide_eq_false hident, Bool.or_self, if_neg Bool.false_ne_true]
  obtain ⟨name, pos⟩ := ident
  obtain rfl : name = x.text := hname
  exact reads_pure rfl

/-- A parameter is read before what ends an entry. -/
theorem param_reads (depth m : Nat) (rest : List Token.Face) (hv : v.Read K) {list : ParamList}
    {l : Listing Template.Name β} {inNamed : Bool} (hlist : l.IsParams v list inNamed)
    {e : Entry Template.Name β} (he : l.Takes inNamed e) (hg : g.kind ∈ Token.Kind.entryEnds) :
    (param (.ofDepth depth) list).ReadsIn K m (e.faces Template.Name.operands v ++ g :: rest)
      (g :: rest)
      fun next => (l.add e).IsParams v next (inNamed || e.isNamed) := by
  obtain ⟨hexpr, hassign, hcolon, hident⟩ := Token.Kind.endsExpr_of_entryEnds hg
  obtain ⟨⟨lparen, positional, variadic, named, namedVariadic, rparen⟩, started⟩ := list
  obtain ⟨hparams, rfl⟩ := hlist
  simp only [unplacedParams, Listing.params, Params.mk.injEq] at hparams
  obtain ⟨-, hpositional, hvariadic, hnamed, hnamedVariadic, -⟩ := hparams
  have hopen : l.spread = none → variadic = none := fun hnone => by
    rw [hnone] at hvariadic
    exact Option.map_eq_none_iff.1 hvariadic
  have hlast : l.namedSpread = none → namedVariadic = none := fun hnone => by
    rw [hnone] at hnamedVariadic
    exact Option.map_eq_none_iff.1 hnamedVariadic
  cases e with
  | positional x =>
    obtain ⟨rfl, hnone⟩ := he
    obtain rfl := hopen hnone
    apply reads_pos
    intro pos
    refine reads_kind ((typedIdent_reads hcolon hident).bind fun t ht => reads_kind ?_)
    rw [if_neg hassign]
    refine reads_pure ⟨?_, rfl⟩
    simp only [unplacedParams, List.map_append, List.map_cons, List.map_nil, hpositional, hvariadic,
      hnamed, hnamedVariadic, ht, Listing.params, Listing.add]
  | spread x =>
    obtain ⟨rfl, hnone⟩ := he
    obtain rfl := hopen hnone
    apply reads_pos
    intro pos
    refine reads_kind (reads_next.bind fun _ _ => ?_)
    refine (typedIdent_reads hcolon hident).bind fun t ht => reads_pure ⟨?_, rfl⟩
    simp only [unplacedParams, Option.map_some, hpositional, hnamed, hnamedVariadic, ht,
      Listing.params, Listing.add]
  | namedSpread x =>
    obtain rfl := hlast he
    apply reads_pos
    intro pos
    refine reads_kind (reads_next.bind fun _ _ => ?_)
    refine (typedIdent_reads hcolon hident).bind fun t ht => reads_pure ⟨?_, ?_⟩
    · simp only [unplacedParams, Option.map_some, hpositional, hvariadic, hnamed, ht,
        Listing.params, Listing.add]
    · exact (Bool.or_true _).symm
  | named x b =>
    obtain rfl := hlast he
    have hvalue := hv.nested depth m b g rest hexpr
    obtain ⟨f, more, hfaces, -⟩ := hv.exists_head b
    rw [Entry.faces]
    rw [hfaces] at hvalue ⊢
    apply reads_pos
    intro pos
    refine reads_kind ((typedIdent_reads (by decide) (by decide)).bind fun t ht => reads_kind ?_)
    refine reads_next.bind fun _ _ => hvalue.bind fun found hfound => reads_pure ⟨?_, ?_⟩
    · simp only [unplacedParams, unplacedDefaults_concat, hpositional, hvariadic, hnamed,
        hnamedVariadic, ht, hfound, Listing.params, Listing.add, List.map_append, List.map_cons,
        List.map_nil]
    · exact (Bool.or_true _).symm

/-- A round that reads a parameter goes on behind it. -/
theorem paramRound_reads (hv : v.Read K) {list : ParamList} {l : Listing Template.Name β}
    {inNamed : Bool} (hlist : l.IsParams v list inNamed) {e : Entry Template.Name β}
    (he : l.Takes inNamed e) (hg : g.kind ∈ Token.Kind.entryEnds) {after : List Token.Face}
    {P : Round ParamList (Params Expr) → Prop}
    (hbehind : ∀ next, (l.add e).IsParams v next (inNamed || e.isNamed) →
      (paramBehind next).ReadsIn K m (g :: rest) after P) :
    (paramRound (.ofDepth depth) list).ReadsIn K m
      (e.faces Template.Name.operands v ++ g :: rest) after P := by
  have hread := param_reads depth m rest hv hlist he hg
  obtain ⟨f, more, hfaces, hrparen, hsemicolon⟩ := e.exists_head (Template.Name.read (K := K))
  rw [hfaces] at hread ⊢
  refine (reads_skipLineBreaks (Token.Face.inserted_of_ne hsemicolon)).bind fun _ _ => ?_
  apply reads_kind
  rw [if_neg hrparen]
  apply reads_token
  intro pos
  rw [Token.isExplicitSemicolon, decide_eq_false hsemicolon, Bool.false_and,
    if_neg Bool.false_ne_true]
  exact hread.bind hbehind

/-- The rounds of a list of parameters read its entries. -/
theorem paramRound_entries (hv : v.Read K) (depth m : Nat) :
    ReadsEntries (paramRound (.ofDepth depth)) K m Template.Name.operands v
      (fun list l => l.IsParams v list) fun read l => unplacedParams read = l.params v where
  close h := (reads_skipLineBreaks rfl).bind fun _ _ => reads_kind (reads_pure h.1)
  split h := by
    refine (reads_skipLineBreaks rfl).bind fun _ _ => reads_kind (reads_token fun pos => ?_)
    rw [h.2]
    exact reads_next.bind fun _ _ => reads_pure ⟨h.1, rfl⟩
  comma hs he := by
    refine paramRound_reads hv hs he (by decide) fun next hnext => ?_
    refine (reads_skipLineBreaks rfl).bind fun _ _ => reads_kind ?_
    exact reads_next.bind fun _ _ => reads_pure hnext
  semicolon hs he := by
    refine paramRound_reads hv hs he (by decide) fun next hnext => ?_
    exact (reads_skipLineBreaks rfl).bind fun _ _ => reads_kind (reads_pure hnext)
  last hs he := by
    refine paramRound_reads hv hs he (by decide) fun next hnext => ?_
    refine (reads_skipLineBreaks rfl).bind fun lineEnded hended => reads_kind ?_
    subst hended
    exact reads_pure hnext.1

/-- A list of parameters is read up to the closing parenthesis. -/
theorem paramList_reads (hv : v.Read K) (lparen : Pos) (l : Listing Template.Name β) :
    (paramList (.ofDepth depth) lparen).ReadsIn K m
      (Entry.allFaces Template.Name.operands v l.entries ++ Chain.opFace .rparen :: rest)
      (Chain.opFace .rparen :: rest) fun read => unplacedParams read = l.params v := by
  have hloops : LoopsIn (paramRound (.ofDepth depth)) K m
      (Entry.allFaces Template.Name.operands v l.entries ++ Chain.opFace .rparen :: rest) _
      ⟨{ lparen, rparen := lparen }, false⟩ _ :=
    (paramRound_entries hv depth m).loops l.ordered_entries (.empty _) ⟨rfl, rfl⟩
  rw [l.foldl_entries] at hloops
  exact hloops.reads

end Grammar

end TemplateScript
