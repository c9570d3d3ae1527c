import TemplateScript.Proofs.Grammar.Steps

/-!
# Phrases along a track

There are stretches of tokens that no phrase for an expression leaves. A pragma line is one, as no
expression goes on with the token that ends it. A line of code whose brackets are closed is one too,
because an expression uses a closing bracket only if it has used the opening one. What such stretches
have in common is a track: its places tell which brackets are open, and every token that an
expression may use leads from one place to another. The rules here build phrases that go along a
track from smaller ones.
-/

namespace TemplateScript

namespace Token.Kind

/-- The kinds at which the place on a track changes, or the track may end. -/
def landmarks : List Kind :=
  [.lparen, .rparen, .lbrack, .rbrack, .lbrace, .rbrace, .semicolon, .pragmaEnd]

/-- The bracket that closes what the kind opens, if that is no block and no dict. -/
def closer? : Kind → Option Kind
  | .lparen => some .rparen
  | .lbrack => some .rbrack
  | _ => none

/-- The brackets that close what is no block and no dict. -/
def innerClosers : List Kind := [.rparen, .rbrack]

end Token.Kind

open Parse

variable {α β σ ρ : Type}

/-- What came of a phrase: a reader at a place, or one at any place if the phrase was given up. -/
def Parse.Arrives (On : σ → Reader → Prop) (s : σ) : EStateM.Result Halt Reader α → Prop
  | .ok _ later => On s later
  | .error .bail later => ∃ s, On s later
  | .error (.fault _) _ => True

namespace Parse.Arrives

variable {On : σ → Reader → Prop} {s s' : σ} {r : Reader} {offset : Nat}

theorem bind {p : Parse α} {q : α → Parse β} (hp : Arrives On s (p r))
    (hq : ∀ a (later : Reader), On s later → Arrives On s' (q a later)) :
    Arrives On s' ((p >>= q) r) := by
  rw [bind_run]
  cases hpr : p r with
  | ok a mid =>
    rw [hpr] at hp
    exact hq a mid hp
  | error e mid =>
    rw [hpr] at hp
    cases e with
    | bail => exact hp
    | fault f => trivial

theorem place_bind {q : Place → Parse β} (h : ∀ place, Arrives On s (q place r)) :
    Arrives On s ((place offset >>= q) r) := by
  by_cases hsize : offset ≤ r.cursor.file.size
  · rw [bind_run_ok (place_run hsize)]
    exact h _
  · rw [bind_run_error (place_run_fault hsize)]
    trivial

theorem line_bind {q : Nat → Parse β} (h : ∀ n, Arrives On s (q n r)) :
    Arrives On s ((Parse.line offset >>= q) r) := by
  unfold Parse.line
  rw [bind_assoc]
  exact place_bind fun _ => h _

end Parse.Arrives

/-- Readers on a stretch of tokens in which no brace opens, with the places where they are. -/
structure Track (σ : Type) where
  On : σ → Reader → Prop
  /-- The place behind a bracket that the kind closes. -/
  inside : Token.Kind → σ → σ
  record : ∀ {s r d}, On s r → d.cause ≠ .unmatchedBrace → On s (r.record d)
  kind_ne_lbrace : ∀ {s r}, On s r → r.token.kind ≠ .lbrace
  next : ∀ {s r}, On s r → r.token.kind ∉ Token.Kind.landmarks → Arrives On s (Parse.next r)
  next_opening : ∀ {s r kind}, On s r → r.token.kind.closer? = some kind →
    Arrives On (inside kind s) (Parse.next r)
  next_closing : ∀ {s r kind}, On (inside kind s) r → r.token.kind = kind →
    kind ∈ Token.Kind.innerClosers → Arrives On s (Parse.next r)
  next_semicolon : ∀ {s r kind}, On (inside kind s) r → r.token.kind = .semicolon →
    Arrives On (inside kind s) (Parse.next r)

namespace Track

variable {track : Track σ} {s mid s' : σ} {t : Token} {p : Parse α} {q : α → Parse β}

/-- The phrase that begins at the token `t` leads from one place to another. -/
def Leads (track : Track σ) (t : Token) (s s' : σ) (p : Parse α) : Prop :=
  ∀ r : Reader, track.On s r → r.token = t → Arrives track.On s' (p r)

/-- The phrase that begins at the token `t` leads back to where it began. -/
abbrev Stays (track : Track σ) (t : Token) (s : σ) (p : Parse α) : Prop := track.Leads t s s p

namespace Leads

theorem pure (a : α) : track.Stays t s (Pure.pure a : Parse α) := fun _ hr _ => hr

theorem fault (f : Fault) : track.Leads t s s' (Parse.fault f : Parse α) := fun _ _ _ => trivial

theorem bind (hp : track.Leads t s mid p) (hq : ∀ a u, track.Leads u mid s' (q a)) :
    track.Leads t s s' (p >>= q) :=
  fun r hr ht => Arrives.bind (hp r hr ht) fun a later hlater => hq a later.token later hlater rfl

theorem map {f : α → β} (hp : track.Leads t s s' p) : track.Leads t s s' (f <$> p) :=
  hp.bind fun _ _ => .pure _

/-- What follows two ways to go on is read once. -/
theorem ite_bind {c : Prop} [Decidable c] {p' : Parse α} (hp : c → track.Leads t s mid p)
    (hp' : ¬ c → track.Leads t s mid p') (hq : ∀ a u, track.Leads u mid s' (q a)) :
    track.Leads t s s' (if c then p >>= q else p' >>= q) := by
  split
  · next h => exact (hp h).bind hq
  · next h => exact (hp' h).bind hq

/-! ### Looking at the reader -/

theorem get_bind {q : Reader → Parse β} (h : ∀ r, track.Leads t s s' (q r)) :
    track.Leads t s s' (get >>= q) :=
  fun r hr ht => h r r hr ht

theorem token_bind {q : Token → Parse β} (h : track.Leads t s s' (q t)) :
    track.Leads t s s' (token >>= q) := by
  rintro r hr rfl
  exact h r hr rfl

theorem kind_bind {q : Token.Kind → Parse β} (h : track.Leads t s s' (q t.kind)) :
    track.Leads t s s' (kind >>= q) := by
  rintro r hr rfl
  exact h r hr rfl

theorem pos_bind {q : Pos → Parse β} (h : track.Leads t s s' (q t.pos)) :
    track.Leads t s s' (pos >>= q) := by
  rintro r hr rfl
  exact h r hr rfl

theorem atExprEnd_bind {q : Bool → Parse β} (h : ∀ b, track.Leads t s s' (q b)) :
    track.Leads t s s' (atExprEnd >>= q) := by
  unfold atExprEnd
  rw [bind_assoc]
  exact kind_bind (h _)

theorem line_bind {offset : Nat} {q : Nat → Parse β} (h : ∀ n, track.Leads t s s' (q n)) :
    track.Leads t s s' (Parse.line offset >>= q) :=
  fun r hr ht => .line_bind fun n => h n r hr ht

/-- No brace opens on the track. -/
theorem of_kind_ne (h : t.kind ≠ .lbrace → track.Leads t s s' p) : track.Leads t s s' p := by
  rintro r hr rfl
  exact h (track.kind_ne_lbrace hr) r hr rfl

/-! ### Reporting -/

variable {cause : Cause}

theorem errorAt (offset : Nat) (hcause : cause ≠ .unmatchedBrace) :
    track.Stays t s (Parse.errorAt offset cause) :=
  fun _ hr _ => .place_bind fun _ => track.record hr hcause

/-- The token is still in hand behind what was recorded. -/
theorem errorAt_bind {q : Unit → Parse β} (offset : Nat) (hcause : cause ≠ .unmatchedBrace)
    (h : track.Leads t s s' (q ())) : track.Leads t s s' (Parse.errorAt offset cause >>= q) := by
  intro r hr ht
  unfold Parse.errorAt
  rw [bind_assoc]
  exact .place_bind fun place => h (r.record ⟨place, cause⟩) (track.record hr hcause)
    ((r.record_token _).trans ht)

theorem failAt (offset : Nat) (hcause : cause ≠ .unmatchedBrace) :
    track.Leads t s s' (Parse.failAt offset cause : Parse α) :=
  (errorAt offset hcause).bind fun _ _ _ hr _ => ⟨s, hr⟩

theorem failExpected (wanted : String) :
    track.Leads t s s' (Parse.failExpected wanted : Parse α) :=
  token_bind (failAt _ nofun)

/-! ### Moving on -/

variable {closer wanted : Token.Kind}

/-- Of what is used, it is known where it leads. -/
theorem next_bind_of {q : Unit → Parse β}
    (hnext : ∀ r, track.On s r → r.token = t → Arrives track.On mid (Parse.next r))
    (h : ∀ u, track.Leads u mid s' (q ())) : track.Leads t s s' (Parse.next >>= q) :=
  fun r hr ht => Arrives.bind (hnext r hr ht) fun _ later hlater =>
    h later.token later hlater rfl

theorem next (hkind : t.kind ∉ Token.Kind.landmarks) : track.Stays t s Parse.next :=
  fun _ hr ht => track.next hr (ht ▸ hkind)

theorem next_bind {q : Unit → Parse β} (hkind : t.kind ∉ Token.Kind.landmarks)
    (h : ∀ u, track.Leads u s s' (q ())) : track.Leads t s s' (Parse.next >>= q) :=
  (next hkind).bind fun _ => h

theorem next_opening_bind {q : Unit → Parse β} (hkind : t.kind.closer? = some closer)
    (h : ∀ u, track.Leads u (track.inside closer s) s' (q ())) :
    track.Leads t s s' (Parse.next >>= q) :=
  next_bind_of (fun _ hr ht => track.next_opening hr (ht ▸ hkind)) h

theorem next_semicolon_bind {q : Unit → Parse β} (hkind : t.kind = .semicolon)
    (h : ∀ u, track.Leads u (track.inside closer s) s' (q ())) :
    track.Leads t (track.inside closer s) s' (Parse.next >>= q) :=
  next_bind_of (fun _ hr ht => track.next_semicolon hr (ht ▸ hkind)) h

theorem expect_bind_of {q : Pos → Parse β}
    (hnext : t.kind = wanted → ∀ r, track.On s r → r.token = t →
      Arrives track.On mid (Parse.next r))
    (h : ∀ u, track.Leads u mid s' (q t.pos)) :
    track.Leads t s s' (Parse.expect wanted >>= q) := by
  unfold Parse.expect
  rw [bind_assoc]
  refine token_bind ?_
  split
  · next hkind =>
    rw [bind_assoc]
    exact next_bind_of (hnext hkind) h
  · rw [failExpected_bind]
    exact failExpected _

theorem expect_bind {q : Pos → Parse β} (hwanted : wanted ∉ Token.Kind.landmarks)
    (h : ∀ u, track.Leads u s s' (q t.pos)) : track.Leads t s s' (Parse.expect wanted >>= q) :=
  expect_bind_of (fun hkind _ hr ht => track.next hr (by rwa [ht, hkind])) h

theorem expect (hwanted : wanted ∉ Token.Kind.landmarks) :
    track.Stays t s (Parse.expect wanted) := by
  rw [← bind_pure (Parse.expect wanted)]
  exact expect_bind hwanted fun _ => pure _

theorem expect_opening_bind {q : Pos → Parse β} (hwanted : wanted.closer? = some closer)
    (h : ∀ u, track.Leads u (track.inside closer s) s' (q t.pos)) :
    track.Leads t s s' (Parse.expect wanted >>= q) :=
  expect_bind_of (fun hkind _ hr ht => track.next_opening hr (by rwa [ht, hkind])) h

theorem expect_closing_bind {q : Pos → Parse β} (hcloser : closer ∈ Token.Kind.innerClosers)
    (h : ∀ u, track.Leads u s s' (q t.pos)) :
    track.Leads t (track.inside closer s) s' (Parse.expect closer >>= q) :=
  expect_bind_of (fun hkind _ hr ht => track.next_closing hr (by rw [ht, hkind]) hcloser) h

theorem expect_closing (hcloser : closer ∈ Token.Kind.innerClosers) :
    track.Leads t (track.inside closer s) s (Parse.expect closer) := by
  rw [← bind_pure (Parse.expect closer)]
  exact expect_closing_bind hcloser fun _ => pure _

/-- What begins with a brace is not read on the track. -/
theorem expect_lbrace_bind {q : Pos → Parse β} :
    track.Leads t s s' (Parse.expect .lbrace >>= q) := by
  refine of_kind_ne fun hbrace => ?_
  unfold Parse.expect
  rw [bind_assoc]
  refine token_bind ?_
  rw [if_neg hbrace, failExpected_bind]
  exact failExpected _

theorem expectIdent : track.Stays t s expectIdent := by
  unfold Parse.expectIdent
  refine token_bind ?_
  split
  · next hkind => exact next_bind (hkind ▸ by decide) fun _ => pure _
  · exact failExpected _

theorem accept (hwanted : wanted ∉ Token.Kind.landmarks) : track.Stays t s (accept wanted) := by
  unfold Parse.accept
  refine kind_bind ?_
  split
  · next hkind => exact next_bind (hkind ▸ hwanted) fun _ => pure _
  · exact pure _

/-! ### Rounds -/

theorem rounds {round : ρ → Parse (Round ρ α)} (hround : ∀ a u, track.Stays u s (round a))
    (limit : Nat) (a : ρ) : track.Stays t s (Parse.rounds round limit a) := by
  induction limit generalizing a t with
  | zero => exact fault _
  | succ limit ih =>
    unfold Parse.rounds
    refine (hround a t).bind fun result u => ?_
    cases result with
    | again a' => exact ih a'
    | done b => exact pure b

theorem loop {round : ρ → Parse (Round ρ α)} (hround : ∀ a u, track.Stays u s (round a)) (a : ρ) :
    track.Stays t s (Parse.loop a round) :=
  get_bind fun r => rounds hround r.bound a

/-- Only between brackets line breaks are skipped. -/
theorem skipLineBreaks : track.Stays t (track.inside closer s) skipLineBreaks := by
  refine loop (fun skipped u => token_bind ?_) _
  split
  · next hbreak =>
    have hkind : u.kind = .semicolon := of_decide_eq_true (Bool.and_eq_true_iff.1 hbreak).1
    exact next_semicolon_bind hkind fun _ => pure _
  · exact pure _

end Leads

end Track

end TemplateScript
