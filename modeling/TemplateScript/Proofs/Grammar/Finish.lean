import TemplateScript.Proofs.Grammar.Take

/-!
# Phrases that come to an end

A phrase comes to an end if it never asks for what is not there: no place outside the source, no
round of a loop that reads nothing, and no phrase nested deeper than tokens are left. What it reads
is told by the tokens it takes, so a phrase that moves has taken one. Whether it ends depends on the
reader, and that tokens were taken does not, so the first is only claimed if the reader is sure to
be ready, and the second always.

The rules here build such phrases from smaller ones.
-/

namespace TemplateScript

/-- A later state of a reader, and further on by a token if it moved. -/
def Reader.Follows (o : Reader) (moved : Bool) (r : Reader) : Prop :=
  ∃ tokens, o.Takes tokens r ∧ (moved = true → tokens ≠ [] ∧ r.weight < o.weight)

namespace Reader

variable {a b c o r : Reader} {moved further : Bool} {tokens : List Token}

theorem Takes.follows (h : o.Takes tokens r) : o.Follows false r := ⟨tokens, h, nofun⟩

theorem Follows.refl (r : Reader) : r.Follows false r := (takes_nil rfl rfl).follows

theorem Follows.less (h : o.Follows moved r) (hless : further = true → moved = true) :
    o.Follows further r := by
  obtain ⟨tokens, htakes, hmoved⟩ := h
  exact ⟨tokens, htakes, fun h => hmoved (hless h)⟩

theorem Follows.still (h : o.Follows moved r) : o.Follows false r :=
  h.less fun hmoved => absurd hmoved Bool.false_ne_true

theorem Follows.weight_le (h : o.Follows moved r) : r.weight ≤ o.weight := by
  obtain ⟨tokens, htakes, -⟩ := h
  exact htakes.weight_le

theorem Follows.weight_lt (h : o.Follows true r) : r.weight < o.weight := by
  obtain ⟨tokens, -, hmoved⟩ := h
  exact (hmoved rfl).2

/-- A reader has moved if it did so before or after some point. -/
theorem Follows.trans (h : a.Follows moved b) (k : b.Follows further c) :
    a.Follows (moved || further) c := by
  have hfirst := h.weight_le
  have hsecond := k.weight_le
  obtain ⟨tokens, htakes, hmoved⟩ := h
  obtain ⟨more, hmore, hfurther⟩ := k
  refine ⟨tokens ++ more, htakes.trans hmore, fun h => ?_⟩
  rcases Bool.or_eq_true_iff.1 h with h | h
  · obtain ⟨hne, hlt⟩ := hmoved h
    exact ⟨List.append_ne_nil_of_left_ne_nil hne _, Nat.lt_of_le_of_lt hsecond hlt⟩
  · obtain ⟨hne, hlt⟩ := hfurther h
    exact ⟨List.append_ne_nil_of_right_ne_nil _ hne, Nat.lt_of_lt_of_le hlt hfirst⟩

/-- What has not moved since, has the token in hand that it had. -/
theorem Follows.token_or (h : o.Follows false r) (hkind : o.token.kind ≠ .eof) :
    r.token = o.token ∨ o.Follows true r := by
  obtain ⟨tokens, htakes, -⟩ := h
  by_cases htokens : tokens = []
  · subst htokens
    exact .inl htakes.2
  · exact .inr ⟨tokens, htakes, fun _ => ⟨htokens, htakes.weight_lt htokens hkind⟩⟩

theorem Follows.of_eq (h : o.Follows moved r) (hcursor : a.cursor = r.cursor)
    (htoken : a.token = r.token) : o.Follows moved a := by
  have hnil := h.trans (takes_nil hcursor htoken).follows
  rwa [Bool.or_false] at hnil

end Reader

/-- The terms on which a phrase is read. -/
structure Terms where
  source : List Glyph
  /-- The reader is sure to be ready. -/
  sure : Prop
  /-- A bound on the tokens that are left, if phrases may nest so deep. -/
  depth : Nat
  /-- One token less is left, since a phrase around this one has taken it. -/
  near : Bool

/-- The number of bytes of the source. -/
abbrev Terms.size (m : Terms) : Nat := Glyph.widths m.source

/-- The terms for a phrase that begins when a token has been taken, if it `moved`. -/
abbrev Terms.begun (m : Terms) (moved : Bool) : Terms := { m with near := moved || m.near }

namespace Parse

variable {α β σ : Type}

/-- What came of a phrase that began with the reader `o`. -/
def CameOf (m : Terms) (o : Reader) (promise : α → Prop) (goes : α → Bool) :
    EStateM.Result Halt Reader α → Prop
  | .ok a r => o.Follows (goes a) r ∧ (m.sure → r.Ready m.source ∧ promise a)
  | .error .bail r => o.Follows false r ∧ (m.sure → r.Ready m.source)
  | .error (.fault _) _ => ¬ m.sure

/-- The phrase comes to an end. It is the rest of one that began some tokens before if `moved`, the
token in hand is one of `seen`, and the whole of it has moved if what it reads `goes` on. -/
def Finishes (m : Terms) (moved : Bool) (seen : Token → Prop) (p : Parse α) (promise : α → Prop)
    (goes : α → Bool) : Prop :=
  ∀ o r, o.Follows moved r → (m.sure → r.Ready m.source ∧ o.weight + m.near.toNat ≤ m.depth) →
    seen r.token → CameOf m o promise goes (p r)

/-- Any token at all. -/
def anyToken (_ : Token) : Prop := True

variable {m : Terms} {moved : Bool} {seen : Token → Prop} {p : Parse α} {promise : α → Prop}
  {goes : α → Bool}

theorem CameOf.imp {o : Reader} {result : EStateM.Result Halt Reader α} {less : α → Prop}
    {fewer : α → Bool} (h : CameOf m o promise goes result)
    (hless : m.sure → ∀ a, promise a → less a) (hfewer : ∀ a, fewer a = true → goes a = true) :
    CameOf m o less fewer result := by
  cases result with
  | ok a r =>
    refine ⟨h.1.less (hfewer a), fun hsure => ?_⟩
    obtain ⟨hready, hpromise⟩ := h.2 hsure
    exact ⟨hready, hless hsure a hpromise⟩
  | error e r =>
    cases e with
    | bail => exact h
    | fault f => exact h

/-- What came of two phrases, one after the other. -/
theorem CameOf.bind {o r : Reader} {q : α → Parse β} {last : β → Prop} {further : β → Bool}
    (hp : CameOf m o promise goes (p r))
    (hq : ∀ a r', o.Follows (goes a) r' → (m.sure → r'.Ready m.source ∧ promise a) →
      CameOf m o last further (q a r')) : CameOf m o last further ((p >>= q) r) := by
  rw [bind_run]
  cases hpr : p r with
  | error e r' =>
    rw [hpr] at hp
    cases e with
    | bail => exact hp
    | fault f => exact hp
  | ok a r' =>
    rw [hpr] at hp
    exact hq a r' hp.1 hp.2

namespace Finishes

/-- What came of a phrase that a reader begins to read. -/
theorem run (h : Finishes m false anyToken p promise goes) {r : Reader}
    (hr : m.sure → r.Ready m.source ∧ r.weight + m.near.toNat ≤ m.depth) :
    CameOf m r promise goes (p r) := h r r (.refl r) hr trivial

theorem promised {less : α → Prop} (h : Finishes m moved seen p promise goes)
    (hless : m.sure → ∀ a, promise a → less a) : Finishes m moved seen p less goes :=
  fun o r hfollows hr hseen => (h o r hfollows hr hseen).imp hless fun _ => id

theorem less {fewer : α → Bool} (h : Finishes m moved seen p promise goes)
    (hfewer : ∀ a, fewer a = true → goes a = true) : Finishes m moved seen p promise fewer :=
  fun o r hfollows hr hseen => (h o r hfollows hr hseen).imp (fun _ _ => id) hfewer

theorem pure {a : α} (h : m.sure → promise a) (hgoes : goes a = true → moved = true) :
    Finishes m moved seen (pure a) promise goes :=
  fun _ _ hfollows hr _ => ⟨hfollows.less hgoes, fun hsure => ⟨(hr hsure).1, h hsure⟩⟩

/-- Nothing has moved, or need not be known to have. -/
theorem still {a : α} (hgoes : goes a = false) (h : m.sure → promise a) :
    Finishes m moved seen (Pure.pure a) promise goes :=
  .pure h fun hmoved => absurd (hgoes.symm.trans hmoved) Bool.false_ne_true

theorem bail : Finishes m moved seen (Parse.bail : Parse α) promise goes :=
  fun _ _ hfollows hr _ => ⟨hfollows.still, fun hsure => (hr hsure).1⟩

theorem bind {q : α → Parse β} {last : β → Prop} {further : β → Bool}
    (hp : Finishes m moved seen p promise goes)
    (hq : ∀ a, (m.sure → promise a) → Finishes m (goes a) anyToken (q a) last further) :
    Finishes m moved seen (p >>= q) last further :=
  fun o r hfollows hr hseen => (hp o r hfollows hr hseen).bind fun a r' hfollows' hr' =>
    hq a (fun hsure => (hr' hsure).2) o r' hfollows'
      (fun hsure => ⟨(hr' hsure).1, (hr hsure).2⟩) trivial

/-- A phrase of which nothing is promised but that it ends. -/
theorem seq {q : α → Parse β} {last : β → Prop} {further : β → Bool}
    (hp : Finishes m moved seen p (fun _ => True) goes)
    (hq : ∀ a, Finishes m (goes a) anyToken (q a) last further) :
    Finishes m moved seen (p >>= q) last further := hp.bind fun a _ => hq a

theorem map {f : α → β} {last : β → Prop} {further : β → Bool}
    (hp : Finishes m moved seen p promise goes) (hf : m.sure → ∀ a, promise a → last (f a))
    (hfurther : ∀ a, further (f a) = true → goes a = true) :
    Finishes m moved seen (f <$> p) last further :=
  hp.bind fun a ha => .pure (fun hsure => hf hsure a (ha hsure)) (hfurther a)

/-- What follows two ways to go on is read once. -/
theorem ite_bind {c : Prop} [Decidable c] {p' : Parse α} {q : α → Parse β} {last : β → Prop}
    {further : β → Bool} (promise : α → Prop) (goes : α → Bool)
    (hp : c → Finishes m moved seen p promise goes)
    (hp' : ¬ c → Finishes m moved seen p' promise goes)
    (hq : ∀ a, (m.sure → promise a) → Finishes m (goes a) anyToken (q a) last further) :
    Finishes m moved seen (if c then p >>= q else p' >>= q) last further := by
  split
  · next h => exact (hp h).bind hq
  · next h => exact (hp' h).bind hq

/-! ### Looking at the reader -/

theorem get_bind {q : Reader → Parse β} {last : β → Prop} {further : β → Bool}
    (hq : ∀ r, Finishes m moved seen (q r) last further) :
    Finishes m moved seen (get >>= q) last further :=
  fun o r hfollows hr hseen => hq r o r hfollows hr hseen

theorem isFull_bind {q : Bool → Parse β} {last : β → Prop} {further : β → Bool}
    (hq : ∀ full, Finishes m moved seen (q full) last further) :
    Finishes m moved seen (isFull >>= q) last further :=
  fun o r hfollows hr hseen => hq r.isFull o r hfollows hr hseen

/-- The token that was seen begins in the source. -/
theorem token_bind {q : Token → Parse β} {last : β → Prop} {further : β → Bool}
    (hq : ∀ t, seen t → (m.sure → t.pos ≤ m.size) →
      Finishes m moved (· = t) (q t) last further) :
    Finishes m moved seen (token >>= q) last further :=
  fun o r hfollows hr hseen =>
    hq r.token hseen (fun hsure => (hr hsure).1.token_le) o r hfollows hr rfl

theorem kind_bind {q : Token.Kind → Parse β} {last : β → Prop} {further : β → Bool}
    (hq : ∀ t, seen t → Finishes m moved (· = t) (q t.kind) last further) :
    Finishes m moved seen (kind >>= q) last further :=
  fun o r hfollows hr hseen => hq r.token hseen o r hfollows hr rfl

theorem pos_bind {q : Pos → Parse β} {last : β → Prop} {further : β → Bool}
    (hq : ∀ pos, (m.sure → pos ≤ m.size) →
      Finishes m moved seen (q pos) last further) :
    Finishes m moved seen (pos >>= q) last further :=
  fun o r hfollows hr hseen =>
    hq r.token.pos (fun hsure => (hr hsure).1.token_le) o r hfollows hr hseen

theorem atExprEnd_bind {q : Bool → Parse β} {last : β → Prop} {further : β → Bool}
    (hq : ∀ atEnd, Finishes m moved seen (q atEnd) last further) :
    Finishes m moved seen (atExprEnd >>= q) last further :=
  fun o r hfollows hr hseen => hq _ o r hfollows hr hseen

/-! ### Places -/

theorem place_bind {offset : Nat} (hoffset : m.sure → offset ≤ m.size)
    {q : Place → Parse β} {last : β → Prop} {further : β → Bool}
    (hq : ∀ place, place.offset = offset → Finishes m moved seen (q place) last further) :
    Finishes m moved seen (place offset >>= q) last further := by
  intro o r hfollows hr hseen
  by_cases hsize : offset ≤ r.cursor.file.size
  · rw [bind_run_ok (place_run hsize)]
    exact hq _ (Cursor.place_offset _ _) o r hfollows hr hseen
  · rw [bind_run_error (place_run_fault hsize)]
    exact fun hsure => hsize ((hr hsure).1.size_eq ▸ hoffset hsure)

theorem line_bind {offset : Nat} (hoffset : m.sure → offset ≤ m.size)
    {q : Nat → Parse β} {last : β → Prop} {further : β → Bool}
    (hq : ∀ line, Finishes m moved seen (q line) last further) :
    Finishes m moved seen (line offset >>= q) last further := by
  unfold line
  rw [bind_assoc]
  exact place_bind hoffset fun place _ => hq place.line

/-- A diagnostic changes nothing for what follows. -/
theorem errorAt_bind {offset : Nat} (hoffset : m.sure → offset ≤ m.size)
    {cause : Cause} {q : Unit → Parse β} {last : β → Prop} {further : β → Bool}
    (hq : Finishes m moved seen (q ()) last further) :
    Finishes m moved seen (errorAt offset cause >>= q) last further := by
  unfold errorAt
  rw [bind_assoc]
  refine place_bind hoffset fun place hplace => ?_
  intro o r hfollows hr hseen
  refine hq o (r.record ⟨place, cause⟩) ?_ (fun hsure => ⟨?_, (hr hsure).2⟩) ?_
  · exact hfollows.of_eq (Reader.record_cursor _ _) (Reader.record_token _ _)
  · exact (hr hsure).1.record (hplace ▸ hoffset hsure)
  · exact Reader.record_token r _ ▸ hseen

theorem failAt {offset : Nat} (hoffset : m.sure → offset ≤ m.size)
    {cause : Cause} : Finishes m moved seen (failAt offset cause : Parse α) promise goes :=
  errorAt_bind hoffset .bail

theorem failExpected {wanted : String} :
    Finishes m moved seen (failExpected wanted : Parse α) promise goes :=
  token_bind fun _ _ hpos => .failAt hpos

/-! ### Attempts and rounds -/

/-- What moved is only known if the phrase was not given up. -/
theorem attempt (hp : Finishes m moved seen p promise goes) :
    Finishes m moved seen (attempt p) (fun a? => ∀ a ∈ a?, promise a) (·.any goes) := by
  intro o r hfollows hr hseen
  have hrun := hp o r hfollows hr hseen
  unfold Parse.attempt
  cases hpr : p r with
  | ok a r' =>
    rw [hpr] at hrun
    refine ⟨hrun.1, fun hsure => ⟨(hrun.2 hsure).1, fun b hb => ?_⟩⟩
    exact Option.some.inj hb ▸ (hrun.2 hsure).2
  | error e r' =>
    rw [hpr] at hrun
    cases e with
    | bail => exact ⟨hrun.1, fun hsure => ⟨hrun.2 hsure, nofun⟩⟩
    | fault f => exact hrun

/-- A phrase may be looked at from where it begins. -/
theorem fresh (goes : α → Bool) {further : α → Bool}
    (hp : ∀ r, seen r.token →
      (m.sure → r.Ready m.source ∧ r.weight + (moved || m.near).toNat ≤ m.depth) →
      CameOf m r promise goes (p r))
    (hfurther : ∀ a, further a = true → moved = true ∨ goes a = true) :
    Finishes m moved seen p promise further := by
  intro o r hfollows hr hseen
  have hweight (hsure : m.sure) : r.weight + (moved || m.near).toNat ≤ m.depth := by
    have hle := hfollows.weight_le
    have hdepth := (hr hsure).2
    cases moved with
    | false =>
      rw [Bool.false_or]
      omega
    | true =>
      have hlt := hfollows.weight_lt
      rw [Bool.true_or, Bool.toNat_true]
      omega
  have hrun := hp r hseen fun hsure => ⟨(hr hsure).1, hweight hsure⟩
  cases hpr : p r with
  | ok a r' =>
    rw [hpr] at hrun
    exact ⟨(hfollows.trans hrun.1).less fun h => Bool.or_eq_true_iff.2 (hfurther a h), hrun.2⟩
  | error e r' =>
    rw [hpr] at hrun
    cases e with
    | bail => exact ⟨(hfollows.trans hrun.1).still, hrun.2⟩
    | fault f => exact hrun

/-- A round of a loop moves if there is another one behind it. -/
def goesAgain : Round σ α → Bool
  | .again _ => true
  | .done _ => false

theorem rounds {round : σ → Parse (Round σ α)} {kept : σ → Prop}
    (hround : ∀ s, (m.sure → kept s) → Finishes m false anyToken (round s)
      (fun
        | .again s' => kept s'
        | .done a => promise a) goesAgain)
    {limit : Nat} {s : σ} {r : Reader} (hs : m.sure → kept s)
    (hr : m.sure → r.Ready m.source ∧ r.weight + m.near.toNat ≤ m.depth)
    (hlimit : m.sure → r.weight < limit) :
    CameOf m r promise (fun _ => false) (Parse.rounds round limit s r) := by
  induction limit generalizing s r with
  | zero => exact fun hsure => Nat.not_lt_zero _ (hlimit hsure)
  | succ limit ih =>
    have hrun := (hround s hs).run hr
    unfold Parse.rounds
    rw [bind_run]
    cases hpr : round s r with
    | error e r' =>
      rw [hpr] at hrun
      cases e with
      | bail => exact hrun
      | fault f => exact hrun
    | ok result r' =>
      rw [hpr] at hrun
      obtain ⟨hfollows, hready⟩ := hrun
      cases result with
      | done a => exact ⟨hfollows, hready⟩
      | again s' =>
        have hlt : r'.weight < r.weight := Reader.Follows.weight_lt hfollows
        have hmore := ih (s := s') (r := r') (fun hsure => (hready hsure).2)
          (fun hsure => ⟨(hready hsure).1, by have := (hr hsure).2; omega⟩)
          (fun hsure => by have := hlimit hsure; omega)
        change CameOf m r promise _ (Parse.rounds round limit s' r')
        cases hlast : Parse.rounds round limit s' r' with
        | ok a last =>
          rw [hlast] at hmore
          exact ⟨(hfollows.trans hmore.1).still, hmore.2⟩
        | error e last =>
          rw [hlast] at hmore
          cases e with
          | bail => exact ⟨(hfollows.trans hmore.1).still, hmore.2⟩
          | fault f => exact hmore

/-- A loop ends if its rounds do, and all but the last of them move. What has moved before the loop
counts for the phrases in it. -/
theorem loop {round : σ → Parse (Round σ α)} {s : σ} (kept : σ → Prop) (hs : m.sure → kept s)
    (hround : ∀ s, (m.sure → kept s) →
      Finishes (m.begun moved) false anyToken (round s)
        (fun
          | .again s' => kept s'
          | .done a => promise a) goesAgain) :
    Finishes m moved seen (Parse.loop s round) promise fun _ => moved := by
  refine fresh (fun _ => false) (fun r _ hr => ?_) fun _ h => .inl h
  exact rounds (m := m.begun moved) hround hs hr fun _ => r.weight_lt_bound

end Finishes

/-! ### Tokens -/

section Tokens

variable {wanted : Token.Kind}

/-- Any token but the end of the file can be used. -/
theorem next_finishes (hseen : ∀ t, seen t → t.kind ≠ .eof) :
    Finishes m moved seen next (fun _ => True) fun _ => true := by
  refine .fresh (fun _ => true) (fun r htoken hr => ?_) fun _ _ => .inr rfl
  rw [next_run]
  rcases nextWithin_run m.source m.sure r.bound r
      fun hsure => ⟨(hr hsure).1, r.cursor_weight_lt_bound⟩ with
    ⟨later, tokens, hnext, htokens, htakes, hlater⟩ | ⟨hnot, f, later, hnext⟩
  · rw [hnext]
    exact ⟨⟨tokens, htakes, fun _ => ⟨htokens, htakes.weight_lt htokens (hseen _ htoken)⟩⟩,
      fun hsure => ⟨hlater hsure, trivial⟩⟩
  · rw [hnext]
    exact hnot

/-- The token that was seen is used. -/
theorem next_seen {t : Token} (ht : t.kind ≠ .eof) :
    Finishes m moved (· = t) next (fun _ => True) fun _ => true :=
  next_finishes fun _ h => h ▸ ht

theorem ne_eof_of_isExplicitSemicolon {t : Token} (h : t.isExplicitSemicolon = true) :
    t.kind ≠ .eof := by
  intro hkind
  simp [Token.isExplicitSemicolon, hkind] at h

theorem ne_eof_of_isInsertedSemicolon {t : Token} (h : t.isInsertedSemicolon = true) :
    t.kind ≠ .eof := by
  intro hkind
  simp [Token.isInsertedSemicolon, hkind] at h

theorem next_at {t : Token} {kind : Token.Kind} (ht : t.kind = kind) (hkind : kind ≠ .eof) :
    Finishes m moved (· = t) next (fun _ => True) fun _ => true := next_seen (ht ▸ hkind)

theorem expect_finishes (hwanted : wanted ≠ .eof) :
    Finishes m moved seen (expect wanted) (· ≤ m.size) fun _ => true := by
  unfold expect
  refine .token_bind fun t _ hpos => ?_
  split
  · next hkind => exact (next_at hkind hwanted).bind fun _ _ => .pure hpos id
  · exact .failExpected

theorem expectIdent_finishes :
    Finishes m moved seen expectIdent (·.pos ≤ m.size) fun _ => true := by
  unfold expectIdent
  refine .token_bind fun t _ hpos => ?_
  split
  · next hkind => exact (next_at hkind (by decide)).bind fun _ _ => .pure hpos id
  · exact .failExpected

/-- A token that is used moves the reader. -/
theorem accept_finishes (hwanted : wanted ≠ .eof) :
    Finishes m moved seen (accept wanted) (fun _ => True) (moved || ·) := by
  unfold accept
  refine .kind_bind fun t _ => ?_
  split
  · next hkind =>
    exact (next_at hkind hwanted).bind fun _ _ => .pure (fun _ => trivial) fun _ => rfl
  · exact .pure (fun _ => trivial) fun h => by rwa [Bool.or_false] at h

/-- One way to go on if a token is there, and another if it is not. -/
theorem Finishes.accept (hwanted : wanted ≠ .eof) {yes no : Parse α}
    (hyes : Finishes m true anyToken yes promise goes)
    (hno : Finishes m moved anyToken no promise goes) :
    Finishes m moved seen
      (Parse.accept wanted >>= fun accepted => if accepted = true then yes else no) promise
      goes := by
  refine (accept_finishes hwanted).bind fun accepted _ => ?_
  cases accepted with
  | true =>
    change Finishes m (moved || true) anyToken yes promise goes
    rwa [Bool.or_true]
  | false =>
    change Finishes m (moved || false) anyToken no promise goes
    rwa [Bool.or_false]

theorem expectSemicolon_finishes :
    Finishes m moved seen expectSemicolon (fun _ => True) fun _ => moved := by
  unfold expectSemicolon
  refine .kind_bind fun t _ => ?_
  split
  · next hkind => exact (next_at hkind (by decide)).less fun _ _ => rfl
  · split
    · exact .pure (fun _ => trivial) id
    · exact .failExpected

theorem skipLineBreaks_finishes :
    Finishes m moved seen skipLineBreaks (fun _ => True) fun _ => moved := by
  unfold skipLineBreaks
  refine .loop (fun _ => True) (fun _ => trivial) fun skipped _ => .token_bind fun t _ _ => ?_
  split
  · next hkind =>
    exact (next_seen (ne_eof_of_isInsertedSemicolon hkind)).bind fun _ _ =>
      .pure (fun _ => trivial) fun _ => rfl
  · exact .still rfl (fun _ => trivial)

theorem skipSemicolons_finishes :
    Finishes m moved seen skipSemicolons (fun _ => True) fun _ => moved := by
  unfold skipSemicolons
  refine .loop (fun _ => True) (fun _ => trivial) fun _ _ => .accept (by decide) ?_ ?_
  · exact .pure (fun _ => trivial) fun _ => rfl
  · exact .still rfl (fun _ => trivial)

end Tokens

end Parse

end TemplateScript
