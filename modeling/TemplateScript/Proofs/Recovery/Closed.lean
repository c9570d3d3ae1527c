import TemplateScript.Proofs.Cursor.Quiet
import TemplateScript.Proofs.Cursor.Unbroken
import TemplateScript.Proofs.Grammar.Tracked
import TemplateScript.Proofs.Recovery.Run

/-!
# Lines with closed brackets

A line of a block whose brackets are closed leaves the block open, whatever is wrong with it, if no
brace stands on it and no branch or loop begins there. No phrase leaves the line before its
semicolon: a statement is read to the end of the line, or given up at one of its tokens, and what is
left of the line then is skipped or read as more statements. So the statements of a block are those
of its lines, and a line that can be read is read as if the others were right.
-/

namespace TemplateScript

open Parse Track

/-! ### Brackets -/

namespace Token.Kind

/-- The kinds that do not belong on a line: braces, the words of branches and loops, what ends a
line, and what is no code. -/
def lineBreakers : List Kind :=
  [.lbrace, .rbrace, .ifWord, .forWord, .elseWord, .semicolon, .comment, .eof, .text, .codeBegin,
    .codeEnd, .valueBegin, .valueEnd, .pragmaStart, .pragmaEnd]

/-- What closes the brackets that are open behind a token, the innermost first. Nothing is said if
the token closes what is not open, or does not belong on a line. -/
def openBehind (opened : List Kind) (kind : Kind) : Option (List Kind) :=
  if lineBreakers.contains kind then none
  else if innerClosers.contains kind then
    if opened.head? = some kind then some opened.tail else none
  else some (kind.closer?.toList ++ opened)

/-- The tokens belong on a line, and their brackets are closed. -/
def AreClosed (kinds : List Kind) : Prop := kinds.foldlM openBehind [] = some []

instance (kinds : List Kind) : Decidable (AreClosed kinds) :=
  inferInstanceAs (Decidable (_ = _))

variable {opened after : List Kind} {kind closer : Kind}

theorem not_lineBreaker (h : openBehind opened kind = some after) : kind ∉ lineBreakers := by
  intro hkind
  unfold openBehind at h
  rw [if_pos (List.contains_iff_mem.2 hkind)] at h
  cases h

theorem not_lineBreaker_of_foldlM {kinds : List Kind}
    (h : kinds.foldlM openBehind opened = some after) : ∀ kind ∈ kinds, kind ∉ lineBreakers := by
  induction kinds generalizing opened with
  | nil => exact List.forall_mem_nil _
  | cons kind rest ih =>
    rw [List.foldlM_cons] at h
    obtain ⟨between, hfirst, hrest⟩ := Option.bind_eq_some_iff.1 h
    exact List.forall_mem_cons.2 ⟨not_lineBreaker hfirst, ih hrest⟩

theorem openBehind_eq (h : openBehind opened kind = some after) :
    if kind ∈ innerClosers then opened = kind :: after
    else after = kind.closer?.toList ++ opened := by
  unfold openBehind at h
  rw [if_neg fun hbreaks => not_lineBreaker h (List.contains_iff_mem.1 hbreaks)] at h
  split
  · next hcloser =>
    rw [if_pos (List.contains_iff_mem.2 hcloser)] at h
    split at h
    · next hhead =>
      cases h
      exact (List.cons_head?_tail hhead).symm
    · cases h
  · next hcloser =>
    rw [if_neg fun h => hcloser (List.contains_iff_mem.1 h)] at h
    exact (Option.some.inj h).symm

theorem landmark_of_closer? (h : kind.closer? = some closer) :
    kind ∈ landmarks ∧ kind ∉ innerClosers := by
  unfold closer? at h
  split at h
  · decide
  · decide
  · cases h

/-- A token that is no landmark changes nothing. -/
theorem openBehind_plain (h : openBehind opened kind = some after) (hkind : kind ∉ landmarks) :
    after = opened := by
  have hinner : ∀ kind ∈ innerClosers, kind ∈ landmarks := by decide
  have hnone : kind.closer? = none :=
    Option.eq_none_iff_forall_ne_some.2 fun _ h => hkind (landmark_of_closer? h).1
  have hafter := openBehind_eq h
  rwa [if_neg fun h => hkind (hinner kind h), hnone] at hafter

theorem openBehind_opening (h : openBehind opened kind = some after)
    (hkind : kind.closer? = some closer) : after = closer :: opened := by
  have hafter := openBehind_eq h
  rwa [if_neg (landmark_of_closer? hkind).2, hkind] at hafter

theorem openBehind_closing (h : openBehind (kind :: opened) kind = some after)
    (hkind : kind ∈ innerClosers) : after = opened := by
  have hafter := openBehind_eq h
  rw [if_pos hkind] at hafter
  exact (List.cons.inj hafter).2.symm

end Token.Kind

namespace Token

theorem Kind.spelling_ne (kind : Kind) : kind.spelling ≠ "" := by
  cases kind <;> decide

/-- A token that belongs on a line takes some room. -/
theorem pos_lt_stop {t : Token} (h : t.kind ∉ Kind.lineBreakers) : t.pos < t.stop := by
  have hwritten : t.isWritten = true := by
    have hsemicolon : t.kind ≠ .semicolon := fun hkind => h (hkind ▸ by decide)
    have hend : t.kind ≠ .pragmaEnd := fun hkind => h (hkind ▸ by decide)
    have heof : t.kind ≠ .eof := fun hkind => h (hkind ▸ by decide)
    simp [isWritten, isInsertedSemicolon, hsemicolon, hend, heof]
  have htext : t.text ≠ "" := by
    unfold text
    split
    · exact t.kind.spelling_ne
    · next hliteral => exact hliteral
  have hsize : t.text.utf8ByteSize ≠ 0 :=
    fun hzero => htext (String.utf8ByteSize_eq_zero_iff.1 hzero)
  rw [stop, glyphs, if_pos hwritten, Glyph.widths_ofText]
  exact Nat.lt_add_of_pos_right (Nat.pos_of_ne_zero hsize)

end Token

/-! ### Tokens that are supplied -/

namespace Cursor

/-- The next tokens of the cursor, none of which is a comment. Nothing is wrong up to the last. -/
inductive Supplies : Cursor → List Token → Prop
  | nil (c : Cursor) : c.Supplies []
  | cons {c later : Cursor} {t : Token} {rest : List Token} (h : c.Hands t later)
    (hrest : later.Supplies rest) : c.Supplies (t :: rest)

variable {c : Cursor} {limit : Nat}

/-- A source with nothing wrong in it supplies its tokens. -/
theorem supplies_scanToEnd (hlined : c.Lined) (htaken : c.taken = 0)
    (herrors : (scanToEnd limit c).1.errors = [])
    (hcomment : ∀ t ∈ (scanToEnd limit c).2, t.kind ≠ .comment) :
    c.Supplies (scanToEnd limit c).2 := by
  induction limit generalizing c with
  | zero => exact .nil c
  | succ limit ih =>
    have hnext : c.scan.1.taken = 0 :=
      (congrArg (·.1.taken) (scan_taken hlined c.taken)).trans htaken
    have hquiet {last : Cursor} (h : c.scan.1.Reaches last) (hlast : last.errors = []) :
        c.scan.1.errors = [] :=
      List.prefix_nil.1 (hlast ▸ h.errors_grow)
    rw [scanToEnd_succ] at herrors hcomment ⊢
    split at herrors
    · next heof =>
      rw [if_pos heof] at hcomment ⊢
      exact .cons ⟨rfl, hcomment _ List.mem_cons_self, herrors, hnext⟩ (.nil _)
    · next heof =>
      rw [if_neg heof] at hcomment ⊢
      obtain ⟨hfirst, hmore⟩ := List.forall_mem_cons.1 hcomment
      exact .cons ⟨rfl, hfirst, hquiet (reaches_scanToEnd _ _) herrors, hnext⟩
        (ih (hlined.reaches (reaches_scan c)) hnext herrors hmore)

end Cursor

namespace Reader

variable {r : Reader} {t u : Token} {rest tokens : List Token}

/-- The reader has the first of the tokens in hand, and the cursor supplies the others. There is no
limit for diagnostics, and no brace was found without its match. -/
structure Supplied (r : Reader) (tokens : List Token) : Prop where
  maxErrors_eq : r.maxErrors = 0
  matched : ∀ d ∈ r.errors, d.cause ≠ .unmatchedBrace
  supply : ∃ waiting, tokens = r.token :: waiting ∧ r.cursor.Supplies waiting

namespace Supplied

theorem isFull_eq (h : r.Supplied tokens) : r.isFull = false :=
  Grammar.isFull_eq_of_unlimited h.maxErrors_eq

theorem token_eq (h : r.Supplied (t :: rest)) : r.token = t := by
  obtain ⟨_, ⟨⟩, -⟩ := h.supply
  rfl

theorem record {d : Diagnostic} (h : r.Supplied tokens) (hcause : d.cause ≠ .unmatchedBrace) :
    (r.record d).Supplied tokens := by
  rcases r.record_cases d with ⟨heq, -⟩ | ⟨heq, -⟩
  · rw [heq]
    exact h
  · rw [heq]
    exact { h with
      matched := List.forall_mem_append.2 ⟨h.matched, List.forall_mem_singleton.2 hcause⟩ }

/-- The next token is taken. -/
theorem next (h : r.Supplied (t :: u :: rest)) :
    ∃ later, Parse.next r = .ok () later ∧ later.Supplied (u :: rest) := by
  obtain ⟨_, ⟨⟩, hsupply⟩ := h.supply
  cases hsupply with
  | cons hhands hrest =>
    exact ⟨_, Grammar.next_hands hhands, h.maxErrors_eq, h.matched, _, rfl, hrest⟩

theorem next_of_ne (h : r.Supplied (t :: rest)) (hrest : rest ≠ []) :
    ∃ later, Parse.next r = .ok () later ∧ later.Supplied rest := by
  obtain ⟨u, rest, rfl⟩ := List.exists_cons_of_ne_nil hrest
  exact h.next

end Supplied

end Reader

/-! ### Along a line -/

/-- The semicolon that ends a line of code, and what is behind it, from the next token on. -/
structure CodeLine where
  semicolon : Token
  next : Token
  behind : List Token
  kind_eq : semicolon.kind = .semicolon

namespace CodeLine

variable {line : CodeLine} {opened : List Token.Kind} {t : Token} {rest tokens : List Token}

/-- The tokens are the last ones of the line and those behind it, where some brackets are open. -/
inductive Holds (line : CodeLine) : List Token.Kind → List Token → Prop
  | semicolon : line.Holds [] (line.semicolon :: line.next :: line.behind)
  | token {opened after : List Token.Kind} {t : Token} {rest : List Token}
    (hafter : Token.Kind.openBehind opened t.kind = some after) (hpos : t.pos < line.next.pos)
    (hrest : line.Holds after rest) : line.Holds opened (t :: rest)

theorem Holds.of_append {inner : List Token}
    (hclosed : (inner.map (·.kind)).foldlM Token.Kind.openBehind opened = some [])
    (hpos : ∀ t ∈ inner, t.stop ≤ line.next.pos) :
    line.Holds opened (inner ++ line.semicolon :: line.next :: line.behind) := by
  induction inner generalizing opened with
  | nil =>
    cases hclosed
    exact .semicolon
  | cons t rest ih =>
    obtain ⟨ht, hrest⟩ := List.forall_mem_cons.1 hpos
    rw [List.map_cons, List.foldlM_cons] at hclosed
    obtain ⟨after, hafter, hclosed⟩ := Option.bind_eq_some_iff.1 hclosed
    have hroom := Token.pos_lt_stop (Token.Kind.not_lineBreaker hafter)
    exact .token hafter (Nat.lt_of_lt_of_le hroom ht) (ih hclosed hrest)

theorem Holds.exists_cons (h : line.Holds opened tokens) : ∃ t rest, tokens = t :: rest := by
  cases h with
  | semicolon => exact ⟨_, _, rfl⟩
  | token => exact ⟨_, _, rfl⟩

/-- At a token that is no semicolon the line goes on. -/
theorem Holds.goesOn (h : line.Holds opened (t :: rest)) (hkind : t.kind ≠ .semicolon) :
    ∃ after, Token.Kind.openBehind opened t.kind = some after ∧ line.Holds after rest := by
  cases h with
  | semicolon => exact absurd line.kind_eq hkind
  | token hafter _ hrest => exact ⟨_, hafter, hrest⟩

theorem Holds.pos_lt (h : line.Holds opened (t :: rest)) (hkind : t.kind ≠ .semicolon) :
    t.pos < line.next.pos := by
  cases h with
  | semicolon => exact absurd line.kind_eq hkind
  | token _ hpos _ => exact hpos

/-- Only the semicolon at its end, and what belongs on a line, is on the line. -/
theorem Holds.kind_ne (h : line.Holds opened (t :: rest)) {kind : Token.Kind}
    (hkind : kind ∈ Token.Kind.lineBreakers) (hne : kind ≠ .semicolon) : t.kind ≠ kind := by
  rintro rfl
  obtain ⟨after, hafter, -⟩ := h.goesOn hne
  exact Token.Kind.not_lineBreaker hafter hkind

/-- At the semicolon no bracket is open. -/
theorem Holds.of_semicolon (h : line.Holds opened (t :: rest)) (hkind : t.kind = .semicolon) :
    opened = [] ∧ rest = line.next :: line.behind := by
  cases h with
  | semicolon => exact ⟨rfl, rfl⟩
  | token hafter _ _ =>
    exact absurd (hkind ▸ by decide) (Token.Kind.not_lineBreaker hafter)

/-- The reader is on the line, where some brackets are open. -/
def On (line : CodeLine) (opened : List Token.Kind) (r : Reader) : Prop :=
  ∃ waiting, line.Holds opened (r.token :: waiting) ∧ r.Supplied (r.token :: waiting)

variable {r : Reader}

/-- The reader has the token behind the line in hand. -/
abbrev IsPassed (line : CodeLine) (r : Reader) : Prop := r.Supplied (line.next :: line.behind)

/-- The token leads on along the line. -/
theorem On.next (h : line.On opened r) (hkind : r.token.kind ≠ .semicolon) :
    ∃ after later, Token.Kind.openBehind opened r.token.kind = some after ∧
      Parse.next r = .ok () later ∧ line.On after later := by
  obtain ⟨waiting, hholds, hsupplied⟩ := h
  obtain ⟨after, hafter, hrest⟩ := hholds.goesOn hkind
  obtain ⟨t, rest, rfl⟩ := hrest.exists_cons
  obtain ⟨later, hnext, hlater⟩ := hsupplied.next
  obtain rfl := hlater.token_eq
  exact ⟨after, later, hafter, hnext, rest, hrest, hlater⟩

/-- The semicolon leads to what is behind the line. -/
theorem On.pass (h : line.On opened r) (hkind : r.token.kind = .semicolon) :
    ∃ later, Parse.next r = .ok () later ∧ line.IsPassed later := by
  obtain ⟨waiting, hholds, hsupplied⟩ := h
  obtain ⟨-, rfl⟩ := hholds.of_semicolon hkind
  exact hsupplied.next

theorem On.isFull_eq (h : line.On opened r) : r.isFull = false :=
  let ⟨_, _, hsupplied⟩ := h
  hsupplied.isFull_eq

theorem On.kind_ne (h : line.On opened r) {kind : Token.Kind}
    (hkind : kind ∈ Token.Kind.lineBreakers) (hne : kind ≠ .semicolon) : r.token.kind ≠ kind :=
  let ⟨_, hholds, _⟩ := h
  hholds.kind_ne hkind hne

/-- A line of code as a track. Its places are the brackets that are open there. -/
def track (line : CodeLine) : Track (List Token.Kind) where
  On := line.On
  inside closer opened := closer :: opened
  record := fun ⟨waiting, hholds, hsupplied⟩ hcause => by
    refine ⟨waiting, ?_, ?_⟩
    · rw [Reader.record_token]
      exact hholds
    · rw [Reader.record_token]
      exact hsupplied.record hcause
  kind_ne_lbrace hr := hr.kind_ne (by decide) (by decide)
  next hr hkind := by
    obtain ⟨after, later, hafter, hnext, hlater⟩ := hr.next fun h => hkind (h ▸ by decide)
    rw [hnext]
    rwa [Token.Kind.openBehind_plain hafter hkind] at hlater
  next_opening hr hkind := by
    obtain ⟨after, later, hafter, hnext, hlater⟩ := hr.next fun h => by
      rw [h] at hkind
      cases hkind
    rw [hnext]
    rwa [Token.Kind.openBehind_opening hafter hkind] at hlater
  next_closing hr hkind hcloser := by
    obtain ⟨after, later, hafter, hnext, hlater⟩ := hr.next fun h =>
      absurd (hkind ▸ hcloser) (h ▸ by decide)
    rw [hkind] at hafter
    rw [hnext]
    rwa [Token.Kind.openBehind_closing hafter hcloser] at hlater
  next_semicolon := fun ⟨_, hholds, _⟩ hkind => by
    cases (hholds.of_semicolon hkind).1

/-! ### Statements on a line -/

variable {α β : Type}

/-- The reader is on the line, or behind it. -/
def Lands (line : CodeLine) (r : Reader) : Prop := (∃ opened, line.On opened r) ∨ line.IsPassed r

/-- What came of a phrase that may use the semicolon of the line: a result with a property, before a
reader on the line or behind it. What was given up was given up on the line. -/
def Ends (line : CodeLine) (P : α → Prop) : EStateM.Result Halt Reader α → Prop
  | .ok a later => P a ∧ line.Lands later
  | .error .bail later => ∃ opened, line.On opened later
  | .error (.fault _) _ => True

theorem Ends.bind {P : α → Prop} {Q : β → Prop} {p : Parse α} {q : α → Parse β}
    (hp : line.Ends P (p r)) (hq : ∀ a later, P a → line.Lands later → line.Ends Q (q a later)) :
    line.Ends Q ((p >>= q) r) := by
  rw [bind_run]
  cases hpr : p r with
  | ok a later =>
    rw [hpr] at hp
    exact hq a later hp.1 hp.2
  | error e later =>
    rw [hpr] at hp
    cases e with
    | bail => exact hp
    | fault f => trivial

theorem On.lands (h : line.On opened r) : line.Lands r := .inl ⟨opened, h⟩

/-- Every token leads on along the line, or behind it. -/
theorem On.step (h : line.On opened r) :
    ∃ later, Parse.next r = .ok () later ∧ line.Lands later := by
  by_cases hkind : r.token.kind = .semicolon
  · obtain ⟨later, hnext, hlater⟩ := h.pass hkind
    exact ⟨later, hnext, .inr hlater⟩
  · obtain ⟨_, later, -, hnext, hlater⟩ := h.next hkind
    exact ⟨later, hnext, hlater.lands⟩

/-- What begins on the line at a token, where some brackets are open, is a statement that ends on
the line or behind it. -/
def Finishes (line : CodeLine) (t : Token) (opened : List Token.Kind) (p : Parse Stmt) : Prop :=
  ∀ r : Reader, line.On opened r → r.token = t → line.Ends (·.isCodeEnd = false) (p r)

namespace Finishes

variable {mid : List Token.Kind} {p : Parse α} {q : α → Parse Stmt} {s : Stmt}

theorem bind_ok {P : α → Prop} (hp : line.track.Leads t opened mid p)
    (hP : ∀ r a later, p r = .ok a later → P a)
    (hq : ∀ a u, P a → line.Finishes u mid (q a)) : line.Finishes t opened (p >>= q) := by
  intro r hr ht
  have hrun := hp r hr ht
  rw [bind_run]
  cases hpr : p r with
  | ok a later =>
    rw [hpr] at hrun
    exact hq a later.token (hP r a later hpr) later hrun rfl
  | error e later =>
    rw [hpr] at hrun
    cases e with
    | bail => exact hrun
    | fault f => trivial

theorem bind (hp : line.track.Leads t opened mid p) (hq : ∀ a u, line.Finishes u mid (q a)) :
    line.Finishes t opened (p >>= q) :=
  bind_ok (P := fun _ => True) hp (fun _ _ _ _ => trivial) fun a u _ => hq a u

theorem pure (hs : s.isCodeEnd = false) : line.Finishes t opened (Pure.pure s) :=
  fun _ hr _ => ⟨hs, hr.lands⟩

theorem of_on {p : Parse Stmt}
    (h : ∀ r, line.On opened r → r.token = t → line.Finishes t opened p) :
    line.Finishes t opened p :=
  fun r hr ht => h r hr ht r hr ht

theorem failAt (offset : Nat) {cause : Cause} (hcause : cause ≠ .unmatchedBrace) :
    line.Finishes t opened (Parse.failAt offset cause) := by
  rw [← failAt_bind offset cause fun _ : Unit => Pure.pure (.bad 0 0)]
  have hlost : line.track.Leads t opened opened (Parse.failAt offset cause : Parse Unit) :=
    .failAt offset hcause
  exact bind hlost fun _ _ => pure rfl

theorem pos_bind {q : Pos → Parse Stmt} (h : line.Finishes t opened (q t.pos)) :
    line.Finishes t opened (pos >>= q) := by
  rintro r hr rfl
  exact h r hr rfl

theorem kind_bind {q : Token.Kind → Parse Stmt} (h : line.Finishes t opened (q t.kind)) :
    line.Finishes t opened (kind >>= q) := by
  rintro r hr rfl
  exact h r hr rfl

theorem token_bind {q : Token → Parse Stmt} (h : line.Finishes t opened (q t)) :
    line.Finishes t opened (token >>= q) := by
  rintro r hr rfl
  exact h r hr rfl

/-- What begins with a brace is given up. -/
theorem expect_lbrace_bind {q : Pos → Parse Stmt} :
    line.Finishes t opened (expect .lbrace >>= q) := by
  refine of_on fun r hr ht => ?_
  have hbrace : t.kind ≠ .lbrace := ht ▸ hr.kind_ne (by decide) (by decide)
  unfold expect
  rw [bind_assoc]
  refine token_bind ?_
  rw [if_neg hbrace, failExpected_bind]
  exact token_bind (failAt _ nofun)

/-- A statement ends at the semicolon of the line, or at a bracket that it did not open. -/
theorem semicolon (hs : s.isCodeEnd = false) :
    line.Finishes t opened (expectSemicolon >>= fun _ => Pure.pure s) := by
  intro r hr ht
  unfold expectSemicolon
  rw [bind_assoc, Parse.kind_bind]
  split
  · next hkind =>
    obtain ⟨later, hnext, hlater⟩ := hr.pass hkind
    rw [bind_run_ok hnext]
    exact ⟨hs, .inr hlater⟩
  · split
    · exact ⟨hs, hr.lands⟩
    · have hlost : line.track.Leads t opened opened (Parse.failExpected ";" : Parse Unit) :=
        .failExpected ";"
      exact bind hlost (fun _ _ => pure hs) r hr ht

/-- What begins with a bracket may be read in another way than what does not. -/
theorem accept_opening {wanted closer : Token.Kind} {q : Bool → Parse Stmt}
    (hwanted : wanted.closer? = some closer) (h : ∀ u, line.Finishes u (closer :: opened) (q true))
    (hnot : line.Finishes t opened (q false)) :
    line.Finishes t opened (accept wanted >>= q) := by
  rintro r hr rfl
  unfold accept
  rw [bind_assoc, Parse.kind_bind]
  split
  · next hkind =>
    rw [bind_assoc]
    have hnext : line.track.Leads r.token opened (closer :: opened) Parse.next :=
      fun r' hr' ht' => line.track.next_opening hr' (by rwa [ht', hkind])
    exact bind hnext (fun _ u => h u) r hr rfl
  · exact hnot r hr rfl

end Finishes

open Grammar

variable {deep : Nested} {later : Reader}

theorem failExpected_ne_ok {wanted : String} {a : α} :
    (failExpected wanted : Parse α) r ≠ .ok a later := by
  intro h
  rw [failExpected, Parse.token_bind, failAt] at h
  obtain ⟨_, _, -, h⟩ := bind_run_eq_ok.1 h
  cases h

theorem assignment_isCode {targets : List Expr} {s : Stmt}
    (h : assignment deep targets r = .ok s later) : s.isCodeEnd = false := by
  unfold assignment at h
  obtain ⟨_, _, -, h⟩ := bind_run_eq_ok.1 h
  obtain ⟨_, _, -, h⟩ := bind_run_eq_ok.1 h
  obtain ⟨_, _, -, h⟩ := bind_run_eq_ok.1 h
  obtain ⟨_, _, -, h⟩ := bind_run_eq_ok.1 h
  dsimp only at h
  split at h
  · obtain ⟨_, _, -, h⟩ := bind_run_eq_ok.1 h
    cases h
    rfl
  · cases h
    rfl

theorem increment_isCode {target : Expr} {s : Stmt} (h : increment target r = .ok s later) :
    s.isCodeEnd = false := by
  unfold increment at h
  obtain ⟨_, _, -, h⟩ := bind_run_eq_ok.1 h
  dsimp only at h
  split at h
  · obtain ⟨_, _, -, h⟩ := bind_run_eq_ok.1 h
    obtain ⟨_, _, -, h⟩ := bind_run_eq_ok.1 h
    cases h
    rfl
  · obtain ⟨_, _, -, h⟩ := bind_run_eq_ok.1 h
    cases h
    rfl

/-- A simple statement is an assignment, an increment or an expression. -/
theorem simpleStmt_isCode {s : Stmt} (h : simpleStmt deep r = .ok s later) :
    s.isCodeEnd = false := by
  obtain ⟨list, mid, -, h⟩ := bind_run_eq_ok.1 h
  unfold simpleStmtFrom at h
  rw [kind_bind] at h
  split at h
  · exact assignment_isCode h
  · split at h
    · split at h
      · exact increment_isCode h
      · cases h
        rfl
    · exact absurd h failExpected_ne_ok
    · exact absurd h failExpected_ne_ok

theorem decl_finishes (hdeep : deep.Stays line.track) (hkind : t.kind ∉ Token.Kind.landmarks) :
    line.Finishes t opened (decl deep) := by
  unfold decl
  refine .token_bind (.bind (.next hkind) fun _ _ => .pos_bind (.accept_opening rfl ?_ ?_))
  · intro u
    dsimp only
    rw [if_pos rfl]
    exact .bind (groupedSpecs_stays hdeep _ _) fun _ _ =>
      .bind (.expect_closing (by decide)) fun _ _ => .semicolon rfl
  · rw [if_neg Bool.false_ne_true]
    dsimp only
    split
    · exact .bind (paramSpec_stays hdeep) fun _ _ => .semicolon rfl
    · exact .bind (valueSpec_stays hdeep _) fun _ _ => .semicolon rfl

theorem return_finishes (hdeep : deep.Stays line.track) (hkind : t.kind ∉ Token.Kind.landmarks) :
    line.Finishes t opened (returnStmt deep) := by
  unfold returnStmt atExprEnd
  refine .pos_bind (.bind (.next hkind) fun _ u => ?_)
  rw [bind_assoc]
  refine .kind_bind ?_
  rw [pure_bind]
  dsimp only
  split
  · exact .semicolon rfl
  · exact .bind (.map (expr_stays hdeep)) fun _ _ => .semicolon rfl

/-- No block begins on the line, so what has to have one is given up. -/
theorem try_finishes : line.Finishes t opened (tryStmt deep) := by
  unfold tryStmt
  refine .bind (.expect (by decide)) fun _ _ => ?_
  unfold block
  rw [bind_assoc]
  exact .expect_lbrace_bind

theorem branch_finishes (hkind : t.kind ∉ Token.Kind.landmarks) :
    line.Finishes t opened branchStmt :=
  .token_bind (.bind (.next hkind) fun _ _ => .semicolon rfl)

/-- The semicolon of the line may be a statement of its own. -/
theorem empty_finishes (hkind : t.kind = .semicolon) : line.Finishes t opened emptyStmt := by
  rintro r hr rfl
  obtain ⟨later, hnext, hlater⟩ := hr.pass hkind
  unfold emptyStmt
  rw [Parse.token_bind, bind_run_ok hnext]
  exact ⟨rfl, .inr hlater⟩

/-- A statement on the line ends on the line or behind it. -/
theorem stmt_finishes (hdeep : deep.Stays line.track) : line.Finishes t opened (stmt deep) := by
  unfold stmt
  refine .of_on fun r hr ht => .token_bind ?_
  have hbreaks {kind : Token.Kind} {p : Parse Stmt} (h : t.kind = kind)
      (hkind : kind ∈ Token.Kind.lineBreakers ∧ kind ≠ .semicolon) : line.Finishes t opened p :=
    absurd (ht ▸ h) (hr.kind_ne hkind.1 hkind.2)
  split
  case h_1 hkind => exact empty_finishes hkind
  case h_5 => exact try_finishes
  case h_6 hkind =>
    exact .pos_bind (.bind (.next (hkind ▸ by decide)) fun _ _ =>
      .bind (expr_stays hdeep) fun _ _ => .semicolon rfl)
  case h_7 hkind => exact return_finishes hdeep (hkind ▸ by decide)
  case h_8 hkind | h_9 hkind => exact branch_finishes (hkind ▸ by decide)
  case h_10 hkind | h_11 hkind | h_12 hkind | h_13 hkind =>
    exact decl_finishes hdeep (hkind ▸ by decide)
  case h_19 | h_20 | h_21 => exact .failAt _ nofun
  case h_22 =>
    exact .bind_ok (simpleStmt_stays hdeep) (fun _ _ _ => simpleStmt_isCode) fun _ _ hs =>
      .semicolon hs
  -- what is left does not belong on a line
  all_goals next hkind => exact hbreaks hkind (by decide)

/-! ### What is left of a line -/

variable {limit : Nat} {list : List Stmt}

/-- On a line no brace is counted, so only a word that begins a statement ends what is skipped. -/
theorem On.resyncRound_run (hr : line.On opened r) (hkind : r.token.kind ≠ .semicolon)
    (start : Pos) :
    resyncRound start 0 r =
      (if r.token.pos ≠ start && stmtWords.contains r.token.kind then pure (.done ())
        else Parse.next >>= fun _ => pure (.again 0) : Parse (Round Nat Unit)) r := by
  have hresume : r.token.kind ∉ resumeKinds := by
    have hbreaks : ∀ kind ∈ resumeKinds, kind ∈ Token.Kind.lineBreakers ∧ kind ≠ .semicolon := by
      decide
    intro hmem
    obtain ⟨hmem, hne⟩ := hbreaks _ hmem
    exact hr.kind_ne hmem hne rfl
  have hlbrace : r.token.kind ≠ .lbrace := hr.kind_ne (by decide) (by decide)
  have hrbrace : r.token.kind ≠ .rbrace := hr.kind_ne (by decide) (by decide)
  unfold resyncRound
  rw [Parse.token_bind, isFull_bind, hr.isFull_eq, if_neg Bool.false_ne_true,
    if_neg (by simpa using hresume), if_neg (by simp [hkind]), if_neg hlbrace, if_neg hrbrace,
    decide_eq_true rfl, Bool.true_and]

/-- What is skipped ends on the line, at a word that begins a statement, or behind it. -/
theorem rounds_resync_ends (hr : line.On opened r) (start : Pos) :
    line.Ends (fun _ : Unit => True) (rounds (resyncRound start) limit 0 r) := by
  induction limit generalizing r opened with
  | zero => trivial
  | succ limit ih =>
    rw [rounds]
    by_cases hkind : r.token.kind = .semicolon
    · obtain ⟨later, hnext, hlater⟩ := hr.pass hkind
      rw [bind_run, resyncRound_semicolon hkind hr.isFull_eq, bind_run_ok hnext]
      exact ⟨trivial, .inr hlater⟩
    · have hround := hr.resyncRound_run hkind start
      split at hround
      · rw [bind_run_ok hround]
        exact ⟨trivial, hr.lands⟩
      · obtain ⟨_, later, -, hnext, hlater⟩ := hr.next hkind
        rw [bind_run_ok hnext] at hround
        rw [bind_run_ok hround]
        exact ih hlater

theorem resync_ends (hr : line.On opened r) : line.Ends (fun _ => True) (resync r) :=
  rounds_resync_ends hr r.token.pos

/-- A statement that was given up on the line is skipped up to a place on the line, or to behind
it. -/
theorem skipStmt_ends {first : Token} (hr : line.On opened r) (hfirst : first.pos < line.next.pos) :
    line.Ends (·.isCodeEnd = false) (skipStmt first r) := by
  refine (resync_ends hr).bind fun _ later _ hlater => ?_
  rw [Parse.token_bind]
  obtain ⟨opened, hlater⟩ | hlater := hlater
  · split
    · obtain ⟨last, hnext, hlast⟩ := hlater.step
      rw [bind_run_ok hnext]
      exact ⟨rfl, hlast⟩
    · exact ⟨rfl, hlater.lands⟩
  · have hne : later.token.pos ≠ first.pos := by
      rw [hlater.token_eq]
      exact Nat.ne_of_gt hfirst
    simp only [hne, decide_false, Bool.false_and, Bool.false_eq_true, if_false]
    exact ⟨rfl, .inr hlater⟩

theorem On.atStmtsEnd_run (hr : line.On opened r) : atStmtsEnd true r = .ok false r := by
  have hrbrace : r.token.kind ≠ .rbrace := hr.kind_ne (by decide) (by decide)
  have heof : r.token.kind ≠ .eof := hr.kind_ne (by decide) (by decide)
  have helse : r.token.kind ≠ .elseWord := hr.kind_ne (by decide) (by decide)
  unfold atStmtsEnd
  rw [Parse.kind_bind, isFull_bind, hr.isFull_eq]
  simp [hrbrace, heof, helse]

/-- A statement that is given up begins before the semicolon of the line, which is a statement. -/
theorem pos_lt_of_bail (hr : line.On opened r) (h : stmt deep r = .error .bail later) :
    r.token.pos < line.next.pos := by
  by_cases hkind : r.token.kind = .semicolon
  · obtain ⟨passed, hnext, -⟩ := hr.pass hkind
    unfold stmt at h
    rw [Parse.token_bind] at h
    simp only [hkind] at h
    unfold emptyStmt at h
    rw [Parse.token_bind, bind_run_ok hnext] at h
    cases h
  · obtain ⟨_, hholds, -⟩ := hr
    exact hholds.pos_lt hkind

/-- One round reads a statement on the line, or skips it. -/
theorem stmtsRound_ends (hdeep : deep.Stays line.track) (hr : line.On opened r)
    {result : Round (List Stmt) (List Stmt)}
    (hrun : stmtsRound deep true list r = .ok result later) :
    ∃ s, result = .again (s :: list) ∧ line.Lands later := by
  have hstmt := stmt_finishes hdeep r hr rfl
  unfold stmtsRound at hrun
  rw [bind_run_ok hr.atStmtsEnd_run, if_neg Bool.false_ne_true, Parse.token_bind] at hrun
  cases hs : stmt deep r with
  | ok s mid =>
    have hattempt : attempt (stmt deep) r = .ok (some s) mid := by
      unfold attempt
      rw [hs]
    rw [hs] at hstmt
    rw [bind_run_ok hattempt] at hrun
    dsimp only at hrun
    rw [addStmt_of_isCode hstmt.1] at hrun
    cases hrun
    exact ⟨s, rfl, hstmt.2⟩
  | error e mid =>
    cases e with
    | fault f =>
      have hattempt : attempt (stmt deep) r = .error (.fault f) mid := by
        unfold attempt
        rw [hs]
      rw [bind_run_error hattempt] at hrun
      cases hrun
    | bail =>
      have hattempt : attempt (stmt deep) r = .ok none mid := by
        unfold attempt
        rw [hs]
      have hfirst := pos_lt_of_bail hr hs
      rw [hs] at hstmt
      obtain ⟨_, hmid⟩ := hstmt
      rw [bind_run_ok hattempt] at hrun
      obtain ⟨s, last, hskip, hrun⟩ := bind_run_eq_ok.1 hrun
      cases hrun
      have hends := skipStmt_ends hmid hfirst
      rw [hskip] at hends
      exact ⟨s, rfl, hends.2⟩

/-- The rounds of a block that begin on a line come to behind it. -/
theorem rounds_line (hdeep : deep.Stays line.track) (hr : line.On opened r) {read : List Stmt}
    (hrun : rounds (stmtsRound deep true) limit list r = .ok read later) :
    ∃ part n passed, line.IsPassed passed ∧
      rounds (stmtsRound deep true) n (part ++ list) passed = .ok read later := by
  induction limit generalizing r opened list with
  | zero => cases hrun
  | succ limit ih =>
    rw [rounds] at hrun
    obtain ⟨result, mid, hround, hrest⟩ := bind_run_eq_ok.1 hrun
    obtain ⟨s, rfl, ⟨opened', hmid⟩ | hmid⟩ := stmtsRound_ends hdeep hr hround
    · obtain ⟨part, n, passed, hpassed, hlast⟩ := ih hmid hrest
      exact ⟨part ++ [s], n, passed, hpassed, by rwa [List.append_assoc]⟩
    · exact ⟨[s], limit, mid, hmid, hrest⟩

end CodeLine

end TemplateScript
