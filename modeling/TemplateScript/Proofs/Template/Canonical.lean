import TemplateScript.Cursor.Basic
import TemplateScript.Proofs.Tree.WellFormed
import TemplateScript.Tree.Printed

/-!
# Canonical templates

Templates in the form that printing gives them, as a syntax of their own: runs of text, values,
definitions, branches and loops. Each has a text, which is a piece of source, and each has a tree,
but for the positions in it. Printing the tree gives the text back.
-/

namespace TemplateScript

/-- A name that is read as an identifier. -/
structure Template.Name where
  text : String
  isBare : isBareName text = true
  isIdent : Token.Kind.ofWord text = .ident

/-- Text in which nothing begins code, a pragma line or an escape. -/
structure Template.Run where
  text : String
  ne : text ≠ ""
  plain : ∀ ch ∈ text.toList, ch ≠ '#' ∧ ch ≠ '\\' ∧ ch ≠ Cursor.byteOrderMark

/-- A part of a template. -/
inductive Template where
  | text (run : Template.Run)
  /-- The value of a name: `#{= x }`. -/
  | value (x : Template.Name)
  /-- The definition of a name: `#{ x := 1 }`. -/
  | define (x : Template.Name)
  /-- Templates between `#{ if x do }` and `#{ end }`. -/
  | branch (x : Template.Name) (body : List Template)
  /-- Templates between `#{ for x in y do }` and `#{ end }`. -/
  | each (x y : Template.Name) (body : List Template)

/-- What a reader of a template sees of it: its texts, and the names whose values are emitted. -/
inductive Piece where
  | text (text : String)
  | name (text : String)
deriving DecidableEq, Repr

namespace Template

/-- The first delimiter of a block of code. -/
def opening (isValue : Bool) : String := if isValue then "#\x7b=" else "#\x7b"

mutual

/-- The text of a template. -/
def source : Template → String
  | .text run => run.text
  | .value x => opening true ++ " " ++ x.text ++ " \x7d"
  | .define x => opening false ++ " " ++ x.text ++ " := 1 \x7d"
  | .branch x body =>
    opening false ++ " if " ++ x.text ++ " do \x7d" ++ sources body ++ opening false ++ " end \x7d"
  | .each x y body =>
    opening false ++ " for " ++ x.text ++ " in " ++ y.text ++ " do \x7d" ++ sources body ++
      opening false ++ " end \x7d"

/-- The text of templates, one behind the other. -/
def sources : List Template → String
  | [] => ""
  | t :: ts => t.source ++ sources ts

end

mutual

/-- The pieces of a template, in order. -/
def pieces : Template → List Piece
  | .text run => [.text run.text]
  | .value x => [.name x.text]
  | .define _ => []
  | .branch _ body => allPieces body
  | .each _ _ body => allPieces body

/-- The pieces of templates, in order. -/
def allPieces : List Template → List Piece
  | [] => []
  | t :: ts => t.pieces ++ allPieces ts

end

/-! ### Texts side by side -/

/-- Two runs of text that are one. -/
def Run.append (a b : Run) : Run where
  text := a.text ++ b.text
  ne h := a.ne (String.append_eq_empty_iff.1 h).1
  plain ch hch := by
    rw [String.toList_append, List.mem_append] at hch
    exact hch.elim (a.plain ch) (b.plain ch)

/-- A template before others. If two texts come to stand side by side, they are one text. -/
def before : Template → List Template → List Template
  | .text a, .text b :: ts => .text (a.append b) :: ts
  | t, ts => t :: ts

mutual

/-- A template with all texts inside it that stand side by side joined. -/
def joined : Template → Template
  | .branch x body => .branch x (joinedAll body)
  | .each x y body => .each x y (joinedAll body)
  | t => t

/-- Templates with all texts that stand side by side joined. -/
def joinedAll : List Template → List Template
  | [] => []
  | t :: ts => t.joined.before (joinedAll ts)

end

theorem sources_before (t : Template) (ts : List Template) :
    sources (t.before ts) = t.source ++ sources ts := by
  unfold before
  split
  · simp [sources, source, Run.append, String.append_assoc]
  · rfl

mutual

theorem source_joined : ∀ t : Template, t.joined.source = t.source
  | .text _ => rfl
  | .value _ => rfl
  | .define _ => rfl
  | .branch x body => by simp only [joined, source, sources_joinedAll body]
  | .each x y body => by simp only [joined, source, sources_joinedAll body]

/-- Joining texts changes no source. -/
theorem sources_joinedAll : ∀ ts : List Template, sources (joinedAll ts) = sources ts
  | [] => rfl
  | t :: ts => by rw [joinedAll, sources_before, source_joined t, sources_joinedAll ts, sources]

end

/-- Templates without texts side by side. If `mayBegin` fails, no text comes first. -/
inductive Apart : Bool → List Template → Prop
  | nil (mayBegin : Bool) : Apart mayBegin []
  | text (run : Run) {ts : List Template} (h : Apart false ts) : Apart true (.text run :: ts)
  | value (mayBegin : Bool) (x : Name) {ts : List Template} (h : Apart true ts) :
    Apart mayBegin (.value x :: ts)
  | define (mayBegin : Bool) (x : Name) {ts : List Template} (h : Apart true ts) :
    Apart mayBegin (.define x :: ts)
  | branch (mayBegin : Bool) (x : Name) {body ts : List Template} (hbody : Apart true body)
    (h : Apart true ts) : Apart mayBegin (.branch x body :: ts)
  | each (mayBegin : Bool) (x y : Name) {body ts : List Template} (hbody : Apart true body)
    (h : Apart true ts) : Apart mayBegin (.each x y body :: ts)

theorem Apart.text_before (run : Run) {ts : List Template} (h : Apart true ts) :
    Apart true ((Template.text run).before ts) := by
  cases h with
  | nil => exact .text run (.nil false)
  | text b h => exact .text (run.append b) h
  | value _ x h => exact .text run (.value false x h)
  | define _ x h => exact .text run (.define false x h)
  | branch _ x hbody h => exact .text run (.branch false x hbody h)
  | each _ x y hbody h => exact .text run (.each false x y hbody h)

/-- Behind joining, no texts stand side by side. -/
theorem apart_joinedAll : ∀ ts : List Template, Apart true (joinedAll ts)
  | [] => .nil true
  | .text run :: ts => (apart_joinedAll ts).text_before run
  | .value x :: ts => .value true x (apart_joinedAll ts)
  | .define x :: ts => .define true x (apart_joinedAll ts)
  | .branch x body :: ts => .branch true x (apart_joinedAll body) (apart_joinedAll ts)
  | .each x y body :: ts => .each true x y (apart_joinedAll body) (apart_joinedAll ts)

/-- Where no texts stand side by side, there is nothing to join. -/
theorem Apart.joinedAll_eq {mayBegin : Bool} {ts : List Template} (h : Apart mayBegin ts) :
    joinedAll ts = ts := by
  induction h with
  | nil => rfl
  | text run h ih =>
    change (Template.text run).before (joinedAll _) = _
    rw [ih]
    cases h <;> rfl
  | value _ x h ih => exact congrArg (Template.value x :: ·) ih
  | define _ x h ih => exact congrArg (Template.define x :: ·) ih
  | branch _ x hbody h ihbody ih =>
    change Template.branch x (joinedAll _) :: joinedAll _ = _
    rw [ihbody, ih]
  | each _ x y hbody h ihbody ih =>
    change Template.each x y (joinedAll _) :: joinedAll _ = _
    rw [ihbody, ih]

/-! ### Trees -/

/-- The delimiter that begins a block of code. -/
def first (isValue : Bool) (pos : Pos) : Delimiter := ⟨pos, opening isValue, {}⟩

/-- The delimiter that ends a block of code. -/
def last (pos : Pos) : Delimiter := ⟨pos, "\x7d", {}⟩

/-- A block that begins and ends in code, with statements between. -/
def bodyOf (lbrace closed opened rbrace : Pos) (stmts : List Stmt) : Block Stmt :=
  ⟨lbrace, .codeEnd (last closed) :: (stmts ++ [.codeBegin (first false opened)]), rbrace⟩

/-- The statements are the tree of templates, wherever its parts stand. -/
inductive Grows : List Template → List Stmt → Prop
  | nil : Grows [] []
  | text {run : Run} {pos : Pos} {ts : List Template} {stmts : List Stmt} (h : Grows ts stmts) :
    Grows (.text run :: ts) (.mixedText ⟨pos, run.text, run.text, {}⟩ :: stmts)
  | value {x : Name} {pos name closed : Pos} {ts : List Template} {stmts : List Stmt}
    (h : Grows ts stmts) :
    Grows (.value x :: ts)
      (.mixedValue (first true pos) (.ident ⟨x.text, name⟩) (last closed) :: stmts)
  | define {x : Name} {pos name op one closed : Pos} {ts : List Template} {stmts : List Stmt}
    (h : Grows ts stmts) :
    Grows (.define x :: ts)
      (.codeBegin (first false pos) ::
        .assign [.ident ⟨x.text, name⟩] .define op [.literal ⟨.int 1, "1", one⟩] ::
          .codeEnd (last closed) :: stmts)
  | branch {x : Name} {pos word test lbrace closed opened rbrace stop : Pos}
    {body ts : List Template} {inner stmts : List Stmt} (hbody : Grows body inner)
    (h : Grows ts stmts) :
    Grows (.branch x body :: ts)
      (.codeBegin (first false pos) ::
        .ifElse word none (.ident ⟨x.text, test⟩) (bodyOf lbrace closed opened rbrace inner) none ::
          .codeEnd (last stop) :: stmts)
  | each {x y : Name} {pos word key list lbrace closed opened rbrace stop : Pos}
    {body ts : List Template} {inner stmts : List Stmt} (hbody : Grows body inner)
    (h : Grows ts stmts) :
    Grows (.each x y body :: ts)
      (.codeBegin (first false pos) ::
        .forIn word ⟨x.text, key⟩ none (.ident ⟨y.text, list⟩)
          (bodyOf lbrace closed opened rbrace inner) none ::
          .codeEnd (last stop) :: stmts)

variable {ts : List Template} {stmts : List Stmt}

theorem shiftBlock_bodyOf (n lbrace closed opened rbrace : Nat) (inner : List Stmt) :
    shiftBlock n (bodyOf lbrace closed opened rbrace inner) =
      bodyOf (lbrace + n) (closed + n) (opened + n) (rbrace + n) (shiftStmts n inner) := by
  unfold bodyOf
  rw [shiftBlock, shiftStmts, shiftStmts_append]
  rfl

/-- A tree of templates that is moved on is one still. -/
theorem Grows.shift (h : Grows ts stmts) (n : Nat) : Grows ts (shiftStmts n stmts) := by
  induction h with
  | nil => exact .nil
  | text h ih => exact .text ih
  | value h ih => exact .value ih
  | define h ih => exact .define ih
  | branch hbody h ihbody ih =>
    simp only [shiftStmts, Stmt.shift, shiftBlock_bodyOf]
    exact .branch ihbody ih
  | each hbody h ihbody ih =>
    simp only [shiftStmts, Stmt.shift, shiftBlock_bodyOf]
    exact .each ihbody ih

/-! ### Printing -/

/-- Behind the last part of a template, nothing is written before the next one. -/
theorem joinStmts_boundary {between : String} {s : Stmt} {text : String}
    {parts : List (Stmt × String)} (hs : ∀ next, next.isPragma = false →
      separator between s text next = "") (hparts : ∀ p ∈ parts.head?, p.1.isPragma = false) :
    joinStmts between ((s, text) :: parts) = text ++ joinStmts between parts := by
  cases parts with
  | nil => simp [joinStmts]
  | cons p rest =>
    obtain ⟨next, nextText⟩ := p
    rw [joinStmts, hs next (hparts _ rfl), String.append_empty]

/-- A statement with its text, before statements with theirs. -/
theorem printStmts_cons {s : Stmt} (h : s.isEmpty = false) (rest : List Stmt) :
    printStmts (s :: rest) = (s, s.print) :: printStmts rest := by
  rw [printStmts, h]
  rfl

theorem printStmts_append (a b : List Stmt) :
    printStmts (a ++ b) = printStmts a ++ printStmts b := by
  induction a with
  | nil => rfl
  | cons s rest ih =>
    rw [List.cons_append, printStmts, printStmts, ih]
    split <;> rfl

/-- No template begins with a pragma line. -/
theorem Grows.head_isPragma (h : Grows ts stmts) {parts : List (Stmt × String)}
    (hparts : ∀ p ∈ parts.head?, p.1.isPragma = false) :
    ∀ p ∈ (printStmts stmts ++ parts).head?, p.1.isPragma = false := by
  cases h with
  | nil => exact hparts
  | text | value | define | branch | each =>
    rw [printStmts_cons rfl]
    intro p hp
    obtain rfl := Option.some.inj hp
    rfl

theorem getLast?_opening (text : String) :
    (text ++ opening false).toList.getLast? = some '\x7b' := by
  rw [String.toList_append, List.getLast?_append]
  rfl

/-- A block in a template is written between words. -/
theorem printBlock_bodyOf {lbrace closed opened rbrace : Pos} {inner : List Stmt} {text : String}
    (h : joinStmts "; " (printBody (bodyOf lbrace closed opened rbrace inner)) =
      "\x7d" ++ text ++ opening false) :
    printBlock (printBody (bodyOf lbrace closed opened rbrace inner)) =
      "do \x7d" ++ text ++ opening false ++ " end" := by
  have hbody : printBody (bodyOf lbrace closed opened rbrace inner) =
      (.codeEnd (last closed), "\x7d") ::
        printStmts (inner ++ [.codeBegin (first false opened)]) := by
    rw [bodyOf, printBody, printStmts_cons rfl]
    rfl
  have hend : (" " ++ ("\x7d" ++ text ++ opening false)).toList.getLast? = some '\x7b' := by
    rw [← String.append_assoc]
    exact getLast?_opening _
  unfold printBlock
  rw [h, hbody]
  simp only [List.any_cons, Stmt.isMixedBoundary, Bool.true_or, if_true, List.head?_cons,
    Option.map_some, Option.any_some, Stmt.isPragma, Bool.false_eq_true, if_false]
  rw [hend]
  apply String.toList_inj.1
  simp [String.toList_append]

/-- Behind a delimiter that ends code, statements are written as they are. -/
theorem joinStmts_codeEnd {between : String} {d : Delimiter} {parts : List (Stmt × String)}
    (hparts : ∀ p ∈ parts.head?, p.1.isPragma = false) (text : String) :
    joinStmts between ((.codeEnd d, text) :: parts) = text ++ joinStmts between parts :=
  joinStmts_boundary (fun next hnext => by simp [separator, hnext]) hparts

/-- The block of a branch or a loop, whose templates are written as they are. -/
theorem printBlock_sources {lbrace closed opened rbrace : Pos} {body : List Template}
    {inner : List Stmt} (hbody : Grows body inner)
    (h : ∀ (between : String) {parts : List (Stmt × String)},
      (∀ p ∈ parts.head?, p.1.isPragma = false) →
        joinStmts between (printStmts inner ++ parts) = sources body ++ joinStmts between parts) :
    printBlock (printBody (bodyOf lbrace closed opened rbrace inner)) =
      "do \x7d" ++ sources body ++ opening false ++ " end" := by
  have hparts : ∀ p ∈ (printStmts [.codeBegin (first false opened)]).head?,
      p.1.isPragma = false := by simp [printStmts, Stmt.isPragma, Stmt.isEmpty]
  apply printBlock_bodyOf
  rw [bodyOf, printBody, printStmts_cons rfl, printStmts_append,
    joinStmts_codeEnd (hbody.head_isPragma hparts), h "; " hparts]
  rfl

/-- A block of code with one statement in it, and what follows it. -/
theorem joinStmts_code {between : String} {s : Stmt} {pos closed : Pos}
    {parts : List (Stmt × String)} (hs : s.isMixedBoundary = false)
    (hparts : ∀ p ∈ parts.head?, p.1.isPragma = false) :
    joinStmts between ((.codeBegin (first false pos), (Stmt.codeBegin (first false pos)).print) ::
      (s, s.print) :: (.codeEnd (last closed), (Stmt.codeEnd (last closed)).print) :: parts) =
        opening false ++ " " ++ s.print ++ " \x7d" ++ joinStmts between parts := by
  have hbegin : separator between (.codeBegin (first false pos))
      (Stmt.codeBegin (first false pos)).print s = " " := by
    unfold separator
    cases s <;> first | rfl | cases hs
  have hend : separator between s s.print (.codeEnd (last closed)) = " " := by
    unfold separator
    cases s <;> first | rfl | cases hs
  rw [joinStmts, joinStmts, joinStmts_codeEnd hparts, hbegin, hend]
  apply String.toList_inj.1
  simp [String.toList_append, Stmt.print, first, last]

/-- Templates are written as they are, whatever follows them. -/
theorem Grows.join (h : Grows ts stmts) (between : String) {parts : List (Stmt × String)}
    (hparts : ∀ p ∈ parts.head?, p.1.isPragma = false) :
    joinStmts between (printStmts stmts ++ parts) = sources ts ++ joinStmts between parts := by
  induction h generalizing between parts with
  | nil => simp [printStmts, sources]
  | text h ih =>
    rw [printStmts_cons rfl, List.cons_append,
      joinStmts_boundary (fun next hnext => by simp [separator, hnext]) (h.head_isPragma hparts),
      ih between hparts, sources, String.append_assoc]
    rfl
  | value h ih =>
    rw [printStmts_cons rfl, List.cons_append,
      joinStmts_boundary (fun next hnext => by simp [separator, hnext]) (h.head_isPragma hparts),
      ih between hparts]
    apply String.toList_inj.1
    simp [String.toList_append, sources, source, Stmt.print, Expr.print, first, last]
  | define h ih =>
    rw [printStmts_cons rfl, printStmts_cons rfl, printStmts_cons rfl]
    simp only [List.cons_append]
    rw [joinStmts_code rfl (h.head_isPragma hparts), ih between hparts]
    apply String.toList_inj.1
    simp [String.toList_append, sources, source, Stmt.print, Expr.print, printExprs,
      Token.Kind.spelling]
  | branch hbody h ihbody ih =>
    rw [printStmts_cons rfl, printStmts_cons rfl, printStmts_cons rfl]
    simp only [List.cons_append]
    rw [joinStmts_code rfl (h.head_isPragma hparts), ih between hparts, Stmt.print,
      printBlock_sources hbody ihbody]
    apply String.toList_inj.1
    simp [String.toList_append, sources, source, Expr.print, printStmt?, tailed, led]
  | each hbody h ihbody ih =>
    rw [printStmts_cons rfl, printStmts_cons rfl, printStmts_cons rfl]
    simp only [List.cons_append]
    rw [joinStmts_code rfl (h.head_isPragma hparts), ih between hparts, Stmt.print,
      printBlock_sources hbody ihbody]
    apply String.toList_inj.1
    simp [String.toList_append, sources, source, Expr.print, printBody?, led]

/-- What stands last in templates is no code. -/
theorem Grows.getLast_isMixedBoundary (h : Grows ts stmts) :
    ∀ p ∈ (printStmts stmts).getLast?, p.1.isMixedBoundary = true := by
  have hcons {s : Stmt} {parts : List (Stmt × String)} (hs : s.isMixedBoundary = true)
      (hparts : ∀ p ∈ parts.getLast?, p.1.isMixedBoundary = true) :
      ∀ p ∈ ((s, s.print) :: parts).getLast?, p.1.isMixedBoundary = true := by
    intro p hp
    rw [List.getLast?_cons] at hp
    obtain rfl := Option.some.inj hp
    cases hlast : parts.getLast? with
    | none => exact hs
    | some q => exact hparts q hlast
  induction h with
  | nil => simp [printStmts]
  | text h ih =>
    rw [printStmts_cons rfl]
    exact hcons rfl ih
  | value h ih =>
    rw [printStmts_cons rfl]
    exact hcons rfl ih
  | define h ih =>
    rw [printStmts_cons rfl, printStmts_cons rfl, printStmts_cons rfl, List.getLast?_cons_cons,
      List.getLast?_cons_cons]
    exact hcons rfl ih
  | branch hbody h ihbody ih =>
    rw [printStmts_cons rfl, printStmts_cons rfl, printStmts_cons rfl, List.getLast?_cons_cons,
      List.getLast?_cons_cons]
    exact hcons rfl ih
  | each hbody h ihbody ih =>
    rw [printStmts_cons rfl, printStmts_cons rfl, printStmts_cons rfl, List.getLast?_cons_cons,
      List.getLast?_cons_cons]
    exact hcons rfl ih

/-- Printing the tree of templates gives their source. -/
theorem Grows.printFile_eq (h : Grows ts stmts) : printFile stmts = sources ts := by
  have hjoin := @Grows.join ts stmts h "\n" [] nofun
  have hend : ((printStmts stmts).getLast?.map (·.1)).any (!·.isMixedBoundary) = false := by
    have hlast := h.getLast_isMixedBoundary
    cases hget : (printStmts stmts).getLast? with
    | none => rfl
    | some p => simp [hlast p hget]
  rw [List.append_nil] at hjoin
  unfold printFile
  dsimp only
  rw [hend, hjoin]
  simp [joinStmts]

/-! ### Reading -/

end Template

/-- The nodes that are visited when trees are walked, every node before those below it. -/
inductive Node.Walk : List Node → List Node → Prop
  | nil : Walk [] []
  | cons {n : Node} {rest visited : List Node} (h : Walk (n.children ++ rest) visited) :
    Walk (n :: rest) (n :: visited)

/-- There is one way to walk trees. -/
theorem Node.Walk.unique {trees a b : List Node} (h : Walk trees a) (k : Walk trees b) : a = b := by
  induction h generalizing b with
  | nil =>
    cases k
    rfl
  | @cons n rest visited h ih =>
    cases k with
    | cons k => rw [ih k]

/-- What a node adds to what a reader of a template sees. -/
def Node.piece? : Node → Option Piece
  | .stmt (.mixedText text) => some (.text text.value)
  | .stmt (.mixedValue _ e _) => some (.name e.print)
  | _ => none

namespace Template

variable {ts : List Template} {stmts : List Stmt}

/-- Walking a branch or a loop with templates in it, one comes by these. -/
theorem walk_bodyOf {s : Stmt} {name : Ident} {pos lbrace closed opened rbrace stop : Pos}
    {inner : List Stmt} {rest visited : List Node}
    (hs : s.children =
      .expr (.ident name) :: Node.ofBlock (bodyOf lbrace closed opened rbrace inner))
    (h : Node.Walk (inner.map .stmt ++
      (.stmt (.codeBegin (first false opened)) :: .stmt (.codeEnd (last stop)) :: rest)) visited) :
    Node.Walk (.stmt (.codeBegin (first false pos)) :: .stmt s :: .stmt (.codeEnd (last stop)) :: rest)
      (.stmt (.codeBegin (first false pos)) :: .stmt s :: .expr (.ident name) ::
        .stmt (.codeEnd (last closed)) :: visited) := by
  have hblock : s.children ++ (.stmt (.codeEnd (last stop)) :: rest) =
      .expr (.ident name) :: .stmt (.codeEnd (last closed)) ::
        (inner.map .stmt ++
          (.stmt (.codeBegin (first false opened)) :: .stmt (.codeEnd (last stop)) :: rest)) := by
    rw [hs]
    simp [Node.ofBlock, bodyOf]
  apply Node.Walk.cons
  apply Node.Walk.cons
  rw [Node.children, hblock]
  exact .cons (.cons h)

/-- Walking the tree of templates, one comes by their pieces in order. -/
theorem Grows.walk (h : Grows ts stmts) {rest visited : List Node} (hrest : Node.Walk rest visited) :
    ∃ nodes, Node.Walk (stmts.map .stmt ++ rest) nodes ∧
      nodes.filterMap Node.piece? = allPieces ts ++ visited.filterMap Node.piece? := by
  induction h generalizing rest visited with
  | nil => exact ⟨visited, hrest, rfl⟩
  | text h ih =>
    obtain ⟨nodes, hwalk, hpieces⟩ := ih hrest
    exact ⟨_, .cons hwalk, congrArg (_ :: ·) hpieces⟩
  | value h ih =>
    obtain ⟨nodes, hwalk, hpieces⟩ := ih hrest
    exact ⟨_, .cons (.cons hwalk), congrArg (_ :: ·) hpieces⟩
  | define h ih =>
    obtain ⟨nodes, hwalk, hpieces⟩ := ih hrest
    exact ⟨_, .cons (.cons (.cons (.cons (.cons hwalk)))), hpieces⟩
  | @branch x pos word test lbrace closed opened rbrace stop body ts inner stmts hbody h ihbody ih =>
    obtain ⟨nodes, hwalk, hpieces⟩ := ih hrest
    have hbehind : Node.Walk (.stmt (.codeBegin (first false opened)) ::
        .stmt (.codeEnd (last stop)) :: (stmts.map .stmt ++ rest)) _ := .cons (.cons hwalk)
    obtain ⟨inside, hinside, hfound⟩ := ihbody hbehind
    have hchildren : (Stmt.ifElse word none (.ident ⟨x.text, test⟩)
        (bodyOf lbrace closed opened rbrace inner) none).children =
          .expr (.ident ⟨x.text, test⟩) ::
            Node.ofBlock (bodyOf lbrace closed opened rbrace inner) := by simp [Stmt.children]
    refine ⟨_, walk_bodyOf hchildren hinside, hfound.trans ?_⟩
    rw [allPieces, pieces, List.append_assoc]
    exact congrArg (allPieces body ++ ·) hpieces
  | @each x y pos word key list lbrace closed opened rbrace stop body ts inner stmts hbody h ihbody
      ih =>
    obtain ⟨nodes, hwalk, hpieces⟩ := ih hrest
    have hbehind : Node.Walk (.stmt (.codeBegin (first false opened)) ::
        .stmt (.codeEnd (last stop)) :: (stmts.map .stmt ++ rest)) _ := .cons (.cons hwalk)
    obtain ⟨inside, hinside, hfound⟩ := ihbody hbehind
    have hchildren : (Stmt.forIn word ⟨x.text, key⟩ none (.ident ⟨y.text, list⟩)
        (bodyOf lbrace closed opened rbrace inner) none).children =
          .expr (.ident ⟨y.text, list⟩) ::
            Node.ofBlock (bodyOf lbrace closed opened rbrace inner) := by simp [Stmt.children]
    refine ⟨_, walk_bodyOf hchildren hinside, hfound.trans ?_⟩
    rw [allPieces, pieces, List.append_assoc]
    exact congrArg (allPieces body ++ ·) hpieces

end Template

end TemplateScript
