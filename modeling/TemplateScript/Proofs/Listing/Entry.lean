import TemplateScript.Proofs.Script.Tokens

/-!
# Entries of lists

A list between parentheses has positional entries, of which the last may be spread, and named ones,
of which the last may be spread too. Its text puts a semicolon where the named entries begin behind
others, and a comma between all others. The text is read as the tokens of the entries.
-/

namespace TemplateScript

open Cursor

/-- An entry of a list between parentheses, over what is positional and what is named. -/
inductive Entry (α β : Type) where
  | positional (a : α)
  | spread (a : α)
  | named (x : Template.Name) (b : β)
  | namedSpread (a : α)

/-- A list between parentheses. -/
structure Listing (α β : Type) where
  positional : List α := []
  /-- What takes or gives the positional entries behind the others. -/
  spread : Option α := none
  named : List (Template.Name × β) := []
  /-- What takes or gives the named entries behind the others. -/
  namedSpread : Option α := none

variable {α β : Type}

namespace Entry

/-- The entry is one of those behind the semicolon. -/
def isNamed : Entry α β → Bool
  | positional _ | spread _ => false
  | named .. | namedSpread _ => true

section Writing

variable (w : Operands α) (v : Operands β)

/-- The text of an entry. -/
def text : Entry α β → String
  | positional a => w.text a
  | spread a => "*" ++ w.text a
  | named x b => x.text ++ "=" ++ v.text b
  | namedSpread a => "**" ++ w.text a

/-- The tokens of an entry. -/
def faces : Entry α β → List Token.Face
  | positional a => w.faces a
  | spread a => Chain.opFace .mul :: w.faces a
  | named x b => x.face :: Chain.opFace .assign :: v.faces b
  | namedSpread a => Chain.opFace .pow :: w.faces a

/-- What stands between two entries: a semicolon where the named ones begin. -/
def textBetween (e next : Entry α β) : String := if !e.isNamed && next.isNamed then "; " else ", "

/-- The token between two entries. -/
def faceBetween (e next : Entry α β) : Token.Face :=
  if !e.isNamed && next.isNamed then Command.semicolon else Chain.opFace .comma

/-- The text of entries. -/
def texts : List (Entry α β) → String
  | [] => ""
  | [e] => e.text w v
  | e :: next :: more => e.text w v ++ e.textBetween next ++ texts (next :: more)

/-- The tokens of entries. -/
def allFaces : List (Entry α β) → List Token.Face
  | [] => []
  | [e] => e.faces w v
  | e :: next :: more => e.faces w v ++ e.faceBetween next :: allFaces (next :: more)

end Writing

/-- Entries are in order if named ones stand behind the others and what is spread stands last. -/
def Ordered : List (Entry α β) → Prop
  | [] => True
  | positional _ :: more => Ordered more
  | spread _ :: more | named .. :: more => (∀ e ∈ more, e.isNamed = true) ∧ Ordered more
  | namedSpread _ :: more => more = []

end Entry

namespace Listing

/-- The list with one more entry. -/
def add (l : Listing α β) : Entry α β → Listing α β
  | .positional a => { l with positional := l.positional ++ [a] }
  | .spread a => { l with spread := some a }
  | .named x b => { l with named := l.named ++ [(x, b)] }
  | .namedSpread a => { l with namedSpread := some a }

/-- The entries before the semicolon. -/
def first (l : Listing α β) : List (Entry α β) :=
  l.positional.map .positional ++ l.spread.toList.map .spread

/-- The entries behind the semicolon. -/
def second (l : Listing α β) : List (Entry α β) :=
  l.named.map (fun (x, b) => .named x b) ++ l.namedSpread.toList.map .namedSpread

/-- The entries of a list. -/
def entries (l : Listing α β) : List (Entry α β) := l.first ++ l.second

theorem isNamed_of_first (l : Listing α β) : ∀ e ∈ l.first, e.isNamed = false := by
  intro e he
  rcases List.mem_append.1 he with he | he <;> obtain ⟨_, -, rfl⟩ := List.mem_map.1 he <;> rfl

theorem isNamed_of_second (l : Listing α β) : ∀ e ∈ l.second, e.isNamed = true := by
  intro e he
  rcases List.mem_append.1 he with he | he <;> obtain ⟨_, -, rfl⟩ := List.mem_map.1 he <;> rfl

theorem foldl_positional (l : Listing α β) (list : List α) :
    (list.map .positional).foldl add l = { l with positional := l.positional ++ list } := by
  induction list generalizing l with
  | nil => simp
  | cons a list ih => simp [ih, add]

theorem foldl_named (l : Listing α β) (list : List (Template.Name × β)) :
    (list.map fun (x, b) => .named x b).foldl add l = { l with named := l.named ++ list } := by
  induction list generalizing l with
  | nil => simp
  | cons a list ih => simp [ih, add]

/-- The entries of a list make the list. -/
theorem foldl_entries (l : Listing α β) : l.entries.foldl add {} = l := by
  obtain ⟨positional, spread, named, namedSpread⟩ := l
  simp only [entries, first, second, List.foldl_append, foldl_positional, List.nil_append]
  cases spread <;> cases namedSpread <;>
    simp only [Option.toList, List.map_nil, List.map_cons, List.foldl_nil, List.foldl_cons, add,
      foldl_named, List.nil_append]

theorem ordered_entries (l : Listing α β) : Entry.Ordered l.entries := by
  have hsecond : Entry.Ordered l.second := by
    have hnamed := l.isNamed_of_second
    revert hnamed
    rw [second]
    induction l.named with
    | nil => cases l.namedSpread <;> simp [Entry.Ordered]
    | cons step rest ih =>
      intro hnamed
      have hmore := (List.forall_mem_cons.1 hnamed).2
      exact ⟨hmore, ih hmore⟩
  have hspread : Entry.Ordered (l.spread.toList.map .spread ++ l.second) := by
    cases l.spread with
    | none => exact hsecond
    | some a => exact ⟨l.isNamed_of_second, hsecond⟩
  rw [entries, first, List.append_assoc]
  induction l.positional with
  | nil => exact hspread
  | cons a rest ih => exact ih

end Listing

/-! ### Texts -/

namespace Entry

variable {w : Operands α} {v : Operands β}

theorem texts_second {second : List (Entry α β)} (h : ∀ e ∈ second, e.isNamed = true) :
    texts w v second = ", ".intercalate (second.map (text w v)) := by
  induction second with
  | nil => rfl
  | cons e second ih =>
    obtain ⟨he, hmore⟩ := List.forall_mem_cons.1 h
    cases second with
    | nil => exact (String.intercalate_singleton ..).symm
    | cons next second =>
      have hnext : e.textBetween next = ", " := by rw [textBetween, he]; rfl
      rw [texts, hnext, ih hmore]
      exact (String.intercalate_cons_cons ..).symm

/-- A list in two groups is written as its entries. -/
theorem printGroups_eq {first second : List (Entry α β)}
    (hfirst : ∀ e ∈ first, e.isNamed = false) (hsecond : ∀ e ∈ second, e.isNamed = true) :
    printGroups (first.map (text w v)) (second.map (text w v)) = texts w v (first ++ second) := by
  induction first with
  | nil =>
    rw [List.nil_append, texts_second hsecond]
    simp [printGroups]
  | cons e first ih =>
    obtain ⟨he, hmore⟩ := List.forall_mem_cons.1 hfirst
    cases first with
    | nil =>
      cases second with
      | nil => simp [printGroups, texts]
      | cons next second =>
        have hnext : e.textBetween next = "; " := by
          rw [textBetween, he, (List.forall_mem_cons.1 hsecond).1]
          rfl
        have hrest := texts_second (w := w) (v := v) hsecond
        rw [List.singleton_append, texts, hnext, hrest]
        simp [printGroups]
    | cons next first =>
      have hnext : e.textBetween next = ", " := by
        rw [textBetween, (List.forall_mem_cons.1 hmore).1, Bool.and_false]
        rfl
      have hrest := ih hmore
      rw [List.cons_append, List.cons_append, texts, hnext, ← List.cons_append, ← hrest]
      simp [printGroups, String.append_assoc]

end Entry

/-- Lists of texts in two groups are on one line if the texts are. -/
theorem OneLine.printGroups {positional named : List String}
    (hpositional : ∀ text ∈ positional, OneLine text) (hnamed : ∀ text ∈ named, OneLine text) :
    OneLine (printGroups positional named) := by
  have hgap (isEmpty : Bool) : OneLine (if isEmpty then "" else "; ") := by
    cases isEmpty <;> decide
  have hcomma : OneLine ", " := by decide
  exact ((hcomma.intercalate hpositional).append (hgap _)).append (hcomma.intercalate hnamed)

/-- A list is on one line if its operands are. -/
theorem Listing.oneLine {w : Operands α} {v : Operands β} (hw : ∀ a, OneLine (w.text a))
    (hv : ∀ b, OneLine (v.text b)) (l : Listing α β) :
    OneLine (printGroups (l.first.map (Entry.text w v)) (l.second.map (Entry.text w v))) := by
  have hentry (e : Entry α β) : OneLine (e.text w v) := by
    cases e with
    | positional a => exact hw a
    | spread a => exact OneLine.append (a := "*") (by decide) (hw a)
    | named x b => exact (x.oneLine.append (b := "=") (by decide)).append (hv b)
    | namedSpread a => exact OneLine.append (a := "**") (by decide) (hw a)
  have hentries (list : List (Entry α β)) : ∀ text ∈ list.map (Entry.text w v), OneLine text := by
    intro text htext
    obtain ⟨e, -, rfl⟩ := List.mem_map.1 htext
    exact hentry e
  exact .printGroups (hentries _) (hentries _)

/-! ### Tokens -/

/-- A mark before an operand in a list ends where the operand begins. -/
def Operands.EndsMarks (w : Operands α) : Prop :=
  ∀ kind ∈ [Token.Kind.mul, .pow, .assign], ∀ e rest,
    EndsMark kind (Glyph.ofText (w.text e) ++ rest)

/-- A name begins as no mark goes on. -/
theorem Template.Name.exists_first (x : Template.Name) :
    ∃ ch more, x.text.toList = ch :: more ∧ .char ch ∉ markTails := by
  have htails : ∀ g ∈ markTails, g.isLetter = false := by decide +kernel
  have hhead := (Bool.and_eq_true_iff.1 x.isWord).1
  cases htext : x.text.toList with
  | nil => rw [htext] at hhead; cases hhead
  | cons ch more =>
    rw [htext] at hhead
    exact ⟨ch, more, rfl, fun hmem => absurd ((htails _ hmem).symm.trans hhead) Bool.false_ne_true⟩

/-- An atom begins as no mark goes on. -/
theorem Atom.exists_first (a : Atom) :
    ∃ ch more, a.text.toList = ch :: more ∧ .char ch ∉ markTails := by
  cases a with
  | name x => exact x.exists_first
  | integer n =>
    have htails : ∀ g ∈ markTails, ∀ ch, g = .char ch → ch.isDigit = false := by
      simp [markTails]
    have hhead := (Bool.and_eq_true_iff.1 n.numeral.isWritten).1
    cases htext : n.numeral.text.toList with
    | nil => rw [htext] at hhead; cases hhead
    | cons ch more =>
      rw [htext] at hhead
      refine ⟨ch, more ++ (integerSuffix n.isUnsigned).toList, ?_, fun hmem => ?_⟩
      · rw [Atom.text, Integer.text, Numeral.literal, String.toList_append, htext, List.cons_append]
      · exact absurd ((htails _ hmem ch rfl).symm.trans hhead) Bool.false_ne_true

/-- A mark before operands ends if none goes on as they begin. -/
theorem Operands.EndsMarks.of_first {w : Operands α}
    (h : ∀ e, ∃ ch more, (w.text e).toList = ch :: more ∧ .char ch ∉ markTails) : w.EndsMarks := by
  have hmarks : ∀ kind ∈ [Token.Kind.mul, .pow, .assign], kind ∈ Token.Kind.marks := by decide
  intro kind hkind e rest
  obtain ⟨ch, more, htext, hfirst⟩ := h e
  refine .of_tail (fun g hg => ?_) (hmarks kind hkind)
  rw [Glyph.ofText, htext] at hg
  cases hg
  exact hfirst

namespace Entry

variable {w : Operands α} {v : Operands β} {options : ScanOptions}

/-- An entry is read as its tokens. -/
theorem lexes (hmixed : options.mixed = false) (hw : w.Lexed options) (hv : v.Lexed options)
    (hwmarks : w.EndsMarks) (hvmarks : v.EndsMarks) (e : Entry α β) :
    Lexes.BeforeEnd options (e.text w v) (e.faces w v) := by
  have hplain : ∀ kind ∈ [Token.Kind.mul, .pow, .assign], kind ∈ plainMarks := by decide +kernel
  have hmark (pending : Bool) (kind : Token.Kind) (hkind : kind ∈ [Token.Kind.mul, .pow, .assign])
      {rest : List Glyph} (hend : EndsMark kind rest) :
      Lexes options pending kind.spelling rest [Chain.opFace kind] :=
    .mark hmixed (hplain kind hkind) hend
  intro pending rest hend
  cases e with
  | positional a => exact hw.lexes a pending rest hend
  | spread a =>
    have hstar := hmark pending .mul (by decide) (hwmarks _ (by decide) a rest)
    exact hstar.append (hw.lexes a _ rest hend)
  | namedSpread a =>
    have hstars := hmark pending .pow (by decide) (hwmarks _ (by decide) a rest)
    exact hstars.append (hw.lexes a _ rest hend)
  | named x b =>
    have hassign := hmark (pendingBehind options pending [x.face]) .assign (by decide)
      (hvmarks _ (by decide) b rest)
    have hends : ∀ g ∈ (Glyph.ofText Token.Kind.assign.spelling ++
        (Glyph.ofText (v.text b) ++ rest)).head?, (g.isLetter || g.isDigit) = false := by
      rintro g ⟨⟩
      rfl
    exact ((Lexes.name hmixed x hends).append hassign).append (hv.lexes b _ rest hend)

/-- Entries are read as their tokens. -/
theorem texts_lexes (hmixed : options.mixed = false) (hw : w.Lexed options) (hv : v.Lexed options)
    (hwmarks : w.EndsMarks) (hvmarks : v.EndsMarks) (entries : List (Entry α β)) :
    Lexes.BeforeEnd options (texts w v entries) (allFaces w v entries) := by
  induction entries with
  | nil => exact fun _ _ _ => .nil
  | cons e entries ih =>
    have he := e.lexes hmixed hw hv hwmarks hvmarks
    cases entries with
    | nil => exact he
    | cons next entries =>
      intro pending rest hend
      have hends : EndsNumber (Glyph.ofText (e.textBetween next) ++
          (Glyph.ofText (texts w v (next :: entries)) ++ rest)) := by
        rw [textBetween]
        split <;> rintro g ⟨⟩ <;> decide
      have hbetween (pending : Bool) (rest : List Glyph) :
          Lexes options pending (e.textBetween next) rest [e.faceBetween next] := by
        rw [textBetween, faceBetween]
        split
        · exact (Lexes.semicolon hmixed).before_space
        · exact .comma hmixed
      have hall := ((he pending _ hends).append (hbetween _ _)).append (ih _ rest hend)
      rw [List.append_assoc] at hall
      exact hall

end Entry

/-- Parentheses around a list are tokens around its tokens. -/
theorem Listing.lexes {w : Operands α} {v : Operands β} {options : ScanOptions} {pending : Bool}
    {rest : List Glyph} (hmixed : options.mixed = false) (hw : w.Lexed options)
    (hv : v.Lexed options) (hwmarks : w.EndsMarks) (hvmarks : v.EndsMarks) (l : Listing α β) :
    Lexes options pending
      ("(" ++ printGroups (l.first.map (Entry.text w v)) (l.second.map (Entry.text w v)) ++ ")")
      rest (Chain.opFace .lparen :: (Entry.allFaces w v l.entries ++ [Chain.opFace .rparen])) := by
  have hlist := Entry.texts_lexes hmixed hw hv hwmarks hvmarks l.entries
  rw [Entry.printGroups_eq l.isNamed_of_first l.isNamed_of_second]
  have hall : Lexes options pending (Token.Kind.lparen.spelling ++
      Entry.texts w v (l.first ++ l.second) ++ Token.Kind.rparen.spelling) rest _ :=
    .bracketed hmixed (by decide) (by decide) hlist
  exact hall

end TemplateScript
