import TemplateScript.Proofs.Grammar.Run

/-!
# Phrases and the tokens they read

What a phrase makes of known tokens. The tokens are known but for where they stand, so what is known
of a result holds wherever they stand, and phrases that follow each other are put together. A phrase
may end with a fault instead. Whoever knows that there is none, which is so wherever a source is
parsed, need not count how many rounds a loop takes or how deep phrases nest.
-/

namespace TemplateScript

/-- A token but for where it stands. -/
structure Token.Face where
  kind : Kind
  literal : String := ""
deriving DecidableEq, Repr

/-- The flags of the token. A semicolon that is spelled as a line break stands for one. -/
def Token.Face.flags (f : Face) : Flags := { inserted := f.kind = .semicolon && f.literal = "\n" }

/-- The token at a place. -/
abbrev Token.Face.placed (f : Face) (pos : Pos) : Token := ⟨f.kind, f.literal, pos, f.flags⟩

/-- The next token of the cursor, which is no comment. Nothing is wrong up to it. -/
structure Cursor.Hands (c : Cursor) (t : Token) (later : Cursor) : Prop where
  scan_eq : c.scan = (later, t)
  kind_ne : t.kind ≠ .comment
  errors_eq : later.errors = []
  taken_eq : later.taken = 0

/-- What is known where a token is handed out, from its face and those behind it on: of its place
and of the cursor behind it. -/
abbrev Token.Outlook := List Token.Face → Pos → Cursor → Prop

/-- Nothing is known. -/
abbrev Token.Outlook.any : Token.Outlook := fun _ _ _ => True

/-- The next tokens of a cursor, with what is known of each. -/
inductive Cursor.GivesIn (K : Token.Outlook) : Cursor → List Token.Face → Prop
  | nil (c : Cursor) : GivesIn K c []
  | cons {c later : Cursor} {f : Token.Face} {pos : Pos} {faces : List Token.Face}
    (h : c.Hands (f.placed pos) later) (hknown : K (f :: faces) pos later)
    (hrest : later.GivesIn K faces) : GivesIn K c (f :: faces)

namespace Cursor

/-- The next tokens of a cursor. -/
abbrev Gives : Cursor → List Token.Face → Prop := GivesIn .any

theorem Gives.nil (c : Cursor) : c.Gives [] := GivesIn.nil c

theorem Gives.cons {c later : Cursor} {f : Token.Face} {pos : Pos} {faces : List Token.Face}
    (h : c.Hands (f.placed pos) later) (hrest : later.Gives faces) : c.Gives (f :: faces) :=
  GivesIn.cons h trivial hrest

end Cursor

namespace Reader

/-- A reader that has nothing to complain of and no comments to keep. -/
def on (maxErrors : Nat) (cursor : Cursor) (token : Token) : Reader := { cursor, token, maxErrors }

/-- The token of a reader that has nothing to complain of, and the tokens behind it, with what is
known of each. -/
inductive BeforeIn (K : Token.Outlook) (maxErrors : Nat) : List Token.Face → Reader → Prop
  | mk {c : Cursor} {f : Token.Face} {pos : Pos} {faces : List Token.Face}
    (hknown : K (f :: faces) pos c) (h : c.GivesIn K faces) :
    BeforeIn K maxErrors (f :: faces) (.on maxErrors c (f.placed pos))

/-- The token of a reader that has nothing to complain of, and the tokens behind it. -/
abbrev Before : Nat → List Token.Face → Reader → Prop := BeforeIn .any

theorem Before.mk {m : Nat} {c : Cursor} {f : Token.Face} {pos : Pos} {faces : List Token.Face}
    (h : c.Gives faces) : Before m (f :: faces) (.on m c (f.placed pos)) := BeforeIn.mk trivial h

theorem on_isFull (m : Nat) (c : Cursor) (t : Token) : (on m c t).isFull = false := by
  unfold isFull
  cases m with
  | zero => rfl
  | succ m => rfl

end Reader

namespace Parse

variable {α β σ : Type} {K : Token.Outlook} {m : Nat}
  {before mid after faces : List Token.Face} {f g : Token.Face} {wanted : Token.Kind}

/-- Reading on, the reader meets the token that the cursor hands out. -/
theorem next_on {c later : Cursor} {t u : Token} (h : c.Hands u later) :
    next (.on m c t) = .ok () (.on m later u) := by
  have hnew : later.newErrors = [] := by rw [Cursor.newErrors, h.errors_eq, List.drop_nil]
  have htaken : later.takeErrors = later := by
    unfold Cursor.takeErrors
    rw [h.errors_eq, List.length_nil, ← h.taken_eq, ← h.errors_eq]
  have hmove : (Reader.on m c t).moveTo later = .on m later t := by
    rw [Reader.moveTo, hnew, htaken]
    rfl
  rw [next_run, Reader.bound, nextWithin_succ, show (Reader.on m c t).cursor.scan = _ from h.scan_eq,
    if_neg h.kind_ne, hmove]
  rfl

/-- Of some tokens of which something is known, the phrase makes a result with a property, before
it leaves the others, unless there is a fault. -/
def ReadsIn (p : Parse α) (K : Token.Outlook) (m : Nat) (before after : List Token.Face)
    (P : α → Prop) : Prop :=
  ∀ r : Reader, r.BeforeIn K m before →
    (∃ a later, p r = .ok a later ∧ P a ∧ later.BeforeIn K m after) ∨
      ∃ f last, p r = .error (.fault f) last

/-- Of some tokens, the phrase makes a result with a property, before it leaves the others, unless
there is a fault. -/
abbrev Reads (p : Parse α) (m : Nat) (before after : List Token.Face) (P : α → Prop) : Prop :=
  p.ReadsIn .any m before after P

variable {p : Parse α} {P Q : α → Prop} {R : β → Prop}

/-- Where there is no fault, the phrase ends with what it is known to make. -/
theorem ReadsIn.of_ok (h : p.ReadsIn K m before after P) {r later : Reader}
    (hr : r.BeforeIn K m before) {a : α} (hok : p r = .ok a later) :
    P a ∧ later.BeforeIn K m after := by
  rcases h r hr with ⟨a', later', hok', hP, hlater⟩ | ⟨f, last, hfault⟩
  · obtain ⟨rfl, rfl⟩ := EStateM.Result.ok.inj (hok.symm.trans hok')
    exact ⟨hP, hlater⟩
  · cases hok.symm.trans hfault

theorem reads_pure {a : α} (h : P a) : (pure a : Parse α).ReadsIn K m before before P :=
  fun r hr => .inl ⟨a, r, rfl, h, hr⟩

theorem reads_fault (fault : Fault) : (Parse.fault fault : Parse α).ReadsIn K m before after P :=
  fun r _ => .inr ⟨fault, r, rfl⟩

theorem ReadsIn.bind {q : α → Parse β} (hp : p.ReadsIn K m before mid P)
    (hq : ∀ a, P a → (q a).ReadsIn K m mid after R) : (p >>= q).ReadsIn K m before after R := by
  intro r hr
  rcases hp r hr with ⟨a, between, hok, hP, hbetween⟩ | ⟨f, last, hfault⟩
  · rw [bind_run_ok hok]
    exact hq a hP between hbetween
  · exact .inr ⟨f, last, bind_run_error hfault q⟩

theorem ReadsIn.mono (h : p.ReadsIn K m before after P) (hPQ : ∀ a, P a → Q a) :
    p.ReadsIn K m before after Q := by
  intro r hr
  rcases h r hr with ⟨a, later, hok, hP, hlater⟩ | hfault
  · exact .inl ⟨a, later, hok, hPQ a hP, hlater⟩
  · exact .inr hfault

theorem ReadsIn.attempt (h : p.ReadsIn K m before after P) :
    (attempt p).ReadsIn K m before after fun found => ∃ a, found = some a ∧ P a := by
  intro r hr
  unfold Parse.attempt
  rcases h r hr with ⟨a, later, hok, hP, hlater⟩ | ⟨f, last, hfault⟩
  · rw [hok]
    exact .inl ⟨some a, later, rfl, ⟨a, rfl, hP⟩, hlater⟩
  · rw [hfault]
    exact .inr ⟨f, last, rfl⟩

/-! ### Looking at the reader -/

theorem reads_get {q : Reader → Parse β} (h : ∀ r, (q r).ReadsIn K m before after R) :
    (get >>= q).ReadsIn K m before after R :=
  fun r hr => h r r hr

theorem reads_token {q : Token → Parse β}
    (h : ∀ pos, (q (f.placed pos)).ReadsIn K m (f :: faces) after R) :
    (token >>= q).ReadsIn K m (f :: faces) after R := by
  intro r hr
  cases hr with
  | @mk c _ pos _ hknown hgives => exact h pos _ (.mk hknown hgives)

theorem reads_kind {q : Token.Kind → Parse β} (h : (q f.kind).ReadsIn K m (f :: faces) after R) :
    (kind >>= q).ReadsIn K m (f :: faces) after R := by
  intro r hr
  cases hr with
  | mk hknown hgives => exact h _ (.mk hknown hgives)

theorem reads_pos {q : Pos → Parse β} (h : ∀ pos, (q pos).ReadsIn K m (f :: faces) after R) :
    (pos >>= q).ReadsIn K m (f :: faces) after R := by
  intro r hr
  cases hr with
  | @mk c _ pos _ hknown hgives => exact h pos _ (.mk hknown hgives)

theorem reads_isFull {q : Bool → Parse β} (h : (q false).ReadsIn K m before after R) :
    (isFull >>= q).ReadsIn K m before after R := by
  intro r hr
  have hfull : r.isFull = false := by
    cases hr with
    | mk => exact Reader.on_isFull ..
  rw [isFull_bind, hfull]
  exact h r hr

/-! ### Moving on -/

theorem reads_next : next.ReadsIn K m (f :: g :: faces) (g :: faces) fun _ => True := by
  intro r hr
  cases hr with
  | mk _ hgives =>
    cases hgives with
    | cons h hknown hrest => exact .inl ⟨(), _, next_on h, trivial, .mk hknown hrest⟩

theorem reads_next_append {rest : List Token.Face} :
    next.ReadsIn K m (f :: (faces ++ g :: rest)) (faces ++ g :: rest) fun _ => True := by
  cases faces with
  | nil => exact reads_next
  | cons f faces => exact reads_next

theorem reads_accept_none (hkind : f.kind ≠ wanted) :
    (accept wanted).ReadsIn K m (f :: faces) (f :: faces) (· = false) := by
  apply reads_kind
  rw [if_neg hkind]
  exact reads_pure rfl

theorem reads_accept (hkind : f.kind = wanted) :
    (accept wanted).ReadsIn K m (f :: g :: faces) (g :: faces) (· = true) := by
  apply reads_kind
  rw [if_pos hkind]
  exact reads_next.bind fun _ _ => reads_pure rfl

theorem reads_expect (hkind : f.kind = wanted) :
    (expect wanted).ReadsIn K m (f :: g :: faces) (g :: faces) fun _ => True := by
  apply reads_token
  intro pos
  rw [if_pos hkind]
  exact reads_next.bind fun _ _ => reads_pure trivial

theorem reads_expect_append {rest : List Token.Face} (hkind : f.kind = wanted) :
    (expect wanted).ReadsIn K m (f :: (faces ++ g :: rest)) (faces ++ g :: rest)
      fun _ => True := by
  apply reads_token
  intro pos
  rw [if_pos hkind]
  exact reads_next_append.bind fun _ _ => reads_pure trivial

theorem reads_expectIdent (hkind : f.kind = .ident) :
    expectIdent.ReadsIn K m (f :: g :: faces) (g :: faces) fun ident => ident.name = f.literal := by
  apply reads_token
  intro pos
  rw [if_pos hkind]
  exact reads_next.bind fun _ _ => reads_pure rfl

/-- No semicolon is asked for before what ends a statement itself. -/
theorem reads_expectSemicolon (hkind : f.kind ∈ stmtFollowers) :
    expectSemicolon.ReadsIn K m (f :: faces) (f :: faces) fun _ => True := by
  have hne : f.kind ≠ .semicolon := by
    intro hsemicolon
    rw [hsemicolon] at hkind
    exact absurd hkind (by decide)
  apply reads_kind
  rw [if_neg hne, if_pos (by simpa using hkind)]
  exact reads_pure trivial

/-! ### Loops -/

/-- A round of a loop is not the last. -/
def Round.Again (S : σ → Prop) : Round σ α → Prop
  | .again s => S s
  | .done _ => False

/-- A round of a loop is the last. -/
def Round.Done (P : α → Prop) : Round σ α → Prop
  | .again _ => False
  | .done a => P a

/-- From a state on, rounds of a loop make of some tokens of which something is known a result with
a property, however many rounds are allowed. -/
def LoopsIn (round : σ → Parse (Round σ α)) (K : Token.Outlook) (m : Nat)
    (before after : List Token.Face) (s : σ) (P : α → Prop) : Prop :=
  ∀ limit, (rounds round limit s).ReadsIn K m before after P

/-- From a state on, rounds of a loop make of some tokens a result with a property, however many
rounds are allowed. -/
abbrev Loops (round : σ → Parse (Round σ α)) (m : Nat) (before after : List Token.Face) (s : σ)
    (P : α → Prop) : Prop :=
  LoopsIn round .any m before after s P

variable {round : σ → Parse (Round σ α)} {s : σ} {S : σ → Prop}

theorem LoopsIn.step (h : (round s).ReadsIn K m before mid (Round.Again S))
    (hrest : ∀ next, S next → LoopsIn round K m mid after next P) :
    LoopsIn round K m before after s P := by
  intro limit
  cases limit with
  | zero => exact reads_fault _
  | succ limit =>
    refine h.bind fun found hfound => ?_
    cases found with
    | again next => exact hrest next hfound limit
    | done a => exact hfound.elim

theorem LoopsIn.done (h : (round s).ReadsIn K m before after (Round.Done P)) :
    LoopsIn round K m before after s P := by
  intro limit
  cases limit with
  | zero => exact reads_fault _
  | succ limit =>
    refine h.bind fun found hfound => ?_
    cases found with
    | again next => exact hfound.elim
    | done a => exact reads_pure hfound

theorem LoopsIn.reads (h : LoopsIn round K m before after s P) :
    (loop s round).ReadsIn K m before after P :=
  reads_get fun r => h r.bound

theorem reads_skipSemicolons (hkind : f.kind ≠ .semicolon) :
    skipSemicolons.ReadsIn K m (f :: faces) (f :: faces) fun _ => True := by
  refine LoopsIn.reads (.done ((reads_accept_none hkind).bind fun found hfound => ?_))
  subst hfound
  exact reads_pure trivial

/-! ### Whole sources -/

/-- What comes of a source of whose tokens something is known. -/
theorem source_of_reads {c : Cursor} {S : List Stmt → Prop} (h : c.GivesIn K (f :: faces))
    (hfile : ∀ depth, (Grammar.file (.ofDepth depth)).ReadsIn K m (f :: faces) after S) {t : Token}
    {stmts : List Stmt} {later : Reader} (hok : source (.on m c t) = .ok stmts later) :
    S stmts ∧ later.errors = [] ∧ later.comments = [] := by
  cases h with
  | cons hhands hknown hrest =>
    rw [source, bind_run_ok (next_on hhands), get_bind] at hok
    obtain ⟨hstmts, hlater⟩ := (hfile _).of_ok (.mk hknown hrest) hok
    cases hlater with
    | mk => exact ⟨hstmts, rfl, rfl⟩

end Parse

end TemplateScript
