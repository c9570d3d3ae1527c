import TemplateScript.Grammar.Literal
import TemplateScript.Proofs.Grammar.Account

/-!
# Phrases that agree

Two runs of a phrase over two sources, side by side: as long as the readers are related, they see
the same tokens, perhaps a fixed distance apart, and read the same thing. A simulation says how
readers are related and owes a law for each operation on a reader; what it then gives is that whole
phrases agree.

The second run may come to an end. It may be lost, when nothing more need be known of it, or it may
have used up its source while the first one goes on. A phrase tells by its ending which of the two
may happen inside it.
-/

namespace TemplateScript

open Parse

/-- A relation between the readers of two runs. -/
structure Simulation where
  /-- How much further on the first run finds what the second one finds. -/
  gap : Nat
  /-- The source of the second run. -/
  source : List Glyph
  /-- The second source is nothing but code, in which nothing changes the options. -/
  plain : Prop
  /-- The readers are at the same point. -/
  rel : Reader → Reader → Prop
  /-- The second reader has used up its source, and the first one goes on behind it. -/
  edge : Reader → Reader → Prop
  /-- The reader of the second run has used up its source. -/
  spent : Reader → Prop
  /-- Nothing more need be known of the second run. -/
  lost : Reader → Prop
  /-- The line of the offset is known to the reader of the second run. -/
  passed : Reader → Nat → Prop

/-- How much of the second source a phrase may use up. -/
inductive Ending where
  /-- There are tokens left behind the phrase. -/
  | inside
  /-- The last token of the phrase may be the last one of the source. -/
  | edge
  /-- The source may end before the phrase does. -/
  | beyond

namespace Simulation

variable {α β γ δ σ τ : Type}

/-- The second run came to nothing that matters. -/
def Lost (S : Simulation) : EStateM.Result Halt Reader β → Prop
  | .ok _ r => S.lost r
  | .error .bail r => S.lost r
  | .error (.fault _) _ => True

/-- A second run that is lost stays so. -/
def Keeps (S : Simulation) (p : Parse β) : Prop := ∀ r, S.lost r → S.Lost (p r)

/-- How the results of two runs correspond: the first value is what `move` makes of the second, and
the second one is as promised. -/
inductive Agreed (S : Simulation) (E : Ending) (move : β → α) (promise : β → Prop) :
    EStateM.Result Halt Reader α → EStateM.Result Halt Reader β → Prop
  | ok {a : β} {r₁ r₂ : Reader} (hpromise : promise a) (hr : S.rel r₁ r₂) :
    Agreed S E move promise (.ok (move a) r₁) (.ok a r₂)
  | bail {r₁ r₂ : Reader} (hendless : ∀ r, ¬ S.spent r) (hr : S.rel r₁ r₂) :
    Agreed S E move promise (.error .bail r₁) (.error .bail r₂)
  | edge {a : β} {r₁ r₂ : Reader} (hE : E = .edge) (hpromise : promise a) (hr : S.edge r₁ r₂) :
    Agreed S E move promise (.ok (move a) r₁) (.ok a r₂)
  | beyond {result : EStateM.Result Halt Reader α} {a : β} {r : Reader} (hE : E = .beyond)
    (hr : S.spent r) : Agreed S E move promise result (.ok a r)
  | lost {result₁ : EStateM.Result Halt Reader α} {result₂ : EStateM.Result Halt Reader β}
    (h : S.Lost result₂) : Agreed S E move promise result₁ result₂

/-- From wherever the readers are related, and the second one is as given, the phrases agree. -/
structure Agrees (S : Simulation) (given : Reader → Prop) (E : Ending) (p₁ : Parse α)
    (p₂ : Parse β) (move : β → α) (promise : β → Prop) : Prop where
  keeps : S.Keeps p₂
  agreed {r₁ r₂ : Reader} : S.rel r₁ r₂ → given r₂ → S.Agreed E move promise (p₁ r₁) (p₂ r₂)

/-- What a phrase comes to when the source is used up: it bails out, or it reads nothing. -/
def Ended (S : Simulation) (promise : β → Prop) : EStateM.Result Halt Reader β → Prop
  | .ok a r => S.spent r ∧ promise a
  | .error .bail r => S.lost r
  | .error (.fault _) _ => True

/-- A phrase reads nothing, or bails out, when the source is used up. -/
def Ends (S : Simulation) (p : Parse β) (promise : β → Prop) : Prop :=
  ∀ r, S.spent r → S.Ended promise (p r)

/-- A phrase bails out when the source is used up. -/
def Bails (S : Simulation) (p : Parse β) : Prop := S.Ends p fun _ => False

/-- A phrase comes to nothing when the source is used up. -/
def Dies (S : Simulation) (p : Parse β) : Prop := ∀ r, S.spent r → S.Lost (p r)

/-- What a relation between readers owes. -/
structure Lawful (S : Simulation) : Prop where
  token_eq {r₁ r₂ : Reader} : S.rel r₁ r₂ → r₁.token = r₂.token.shift S.gap
  isFull_eq {r₁ r₂ : Reader} : S.rel r₁ r₂ → r₁.isFull = r₂.isFull
  /-- The options are the same ones, unless only one of the readers takes comments for tokens. -/
  options_eq {r₁ r₂ : Reader} : S.rel r₁ r₂ →
    ∃ on, r₁.cursor.options = { r₂.cursor.options with comments := on }
  bound_le {r₁ r₂ : Reader} : S.rel r₁ r₂ → r₂.bound ≤ r₁.bound
  inSource {r₁ r₂ : Reader} : S.rel r₁ r₂ → r₂.InSource S.source
  /-- No token of plain code changes the options, or closes code inside a text. -/
  isCode {r₁ r₂ : Reader} : S.plain → S.rel r₁ r₂ →
    r₂.token.kind ≠ .pragmaStart ∧ r₂.token.kind ≠ .codeEnd
  /-- The options of a pragma line count for what is behind it. -/
  agreed_apply {r₁ r₂ : Reader} (options : PragmaOptions) : S.rel r₁ r₂ →
    r₂.token.kind = .pragmaEnd →
      S.Agreed .inside id (fun _ => True) (next { r₁ with cursor := r₁.cursor.apply options })
        (next { r₂ with cursor := r₂.cursor.apply options })
  /-- Names and literals are written out. -/
  isWritten {r₁ r₂ : Reader} : S.rel r₁ r₂ →
    r₂.token.kind = .ident ∨ r₂.token.kind ∈ Grammar.literalKinds →
      0 < r₂.token.literal.utf8ByteSize
  /-- The marks of a conditional have been passed when they are looked at. -/
  isMarked {r₁ r₂ : Reader} : S.rel r₁ r₂ → r₂.token.kind = .question ∨ r₂.token.kind = .colon →
    S.passed r₂ r₂.token.pos
  passed_mono {r later : Reader} {o : Nat} : S.passed r o → r.cursor.offset ≤ later.cursor.offset →
    S.passed later o
  size_le {r₁ r₂ : Reader} : S.rel r₁ r₂ → r₂.cursor.file.size + S.gap ≤ r₁.cursor.file.size
  /-- Two offsets that the second reader has passed are on one line for both readers or for none. -/
  line_iff {r₁ r₂ : Reader} {o o' : Nat} : S.rel r₁ r₂ → S.passed r₂ o → S.passed r₂ o' →
      ((r₁.cursor.file.place (o + S.gap)).line = (r₁.cursor.file.place (o' + S.gap)).line ↔
        (r₂.cursor.file.place o).line = (r₂.cursor.file.place o').line)
  agreed_next {r₁ r₂ : Reader} : S.rel r₁ r₂ → S.Agreed .edge id (fun _ => True) (next r₁) (next r₂)
  /-- Only a semicolon is the last token of a source. -/
  agreed_next_inside {r₁ r₂ : Reader} : S.rel r₁ r₂ → r₂.token.kind ≠ .semicolon →
    S.Agreed .inside id (fun _ => True) (next r₁) (next r₂)
  agreed_errorAt {r₁ r₂ : Reader} (o : Nat) (cause : Cause) : S.rel r₁ r₂ →
    S.Agreed .inside id (fun _ => True) (errorAt (o + S.gap) cause r₁) (errorAt o cause r₂)
  /-- With an end in sight, nothing has been found wrong. -/
  endless {r₁ r₂ r : Reader} : S.rel r₁ r₂ → r₂.errors ≠ [] → ¬ S.spent r
  /-- What accounts for its failures does not lose sight of them. -/
  keeps_of {α : Type} {given : Prop} {p : Parse α} {promise : α → Prop} :
    Accounts S.source given p promise → S.Keeps p
  edge_spent {r₁ r₂ : Reader} : S.edge r₁ r₂ → S.spent r₂
  /-- Only plain code comes to an end before the first source does. -/
  edge_plain {r₁ r₂ : Reader} : S.edge r₁ r₂ → S.plain
  spent_eof {r : Reader} : S.spent r → r.token.kind = .eof
  spent_inSource {r : Reader} : S.spent r → r.InSource S.source
  /-- With an end in sight, a diagnostic is the end of it. -/
  lost_of_errors {r later : Reader} : S.spent r → later.InSource S.source → later.errors ≠ [] →
    S.lost later

variable {S : Simulation} {given : Reader → Prop} {E : Ending}

/-! ### Lost runs -/

theorem Lawful.keeps (hS : S.Lawful) {p : Parse β} {promise : β → Prop}
    (h : Accounts S.source True p promise) : S.Keeps p :=
  hS.keeps_of h

namespace Keeps

theorem pure (a : β) : S.Keeps (Pure.pure a) := fun _ h => h

theorem bind {p : Parse β} {q : β → Parse δ} (hp : S.Keeps p) (hq : ∀ b, S.Keeps (q b)) :
    S.Keeps (p >>= q) := by
  intro r hr
  have hrun := hp r hr
  rw [bind_run]
  cases hpr : p r with
  | ok b r' => exact hq b r' (by rwa [hpr] at hrun)
  | error e r' =>
    rw [hpr] at hrun
    cases e with
    | bail => exact hrun
    | fault f => trivial

theorem get : S.Keeps (MonadState.get : Parse Reader) := fun _ h => h

theorem rounds {round : τ → Parse (Round τ β)} (hround : ∀ s, S.Keeps (round s)) (limit : Nat)
    (s : τ) : S.Keeps (Parse.rounds round limit s) := by
  induction limit generalizing s with
  | zero => exact fun _ _ => trivial
  | succ limit ih =>
    refine (hround s).bind fun result => ?_
    cases result with
    | again s' => exact ih s'
    | done b => exact .pure b

theorem attempt {p : Parse β} (hp : S.Keeps p) : S.Keeps (Parse.attempt p) := by
  intro r hr
  have hrun := hp r hr
  unfold Parse.attempt
  cases hpr : p r with
  | ok b r' => rwa [hpr] at hrun
  | error e r' =>
    rw [hpr] at hrun
    cases e with
    | bail => exact hrun
    | fault f => trivial

end Keeps

/-! ### Phrases at the end of the source -/

namespace Ends

variable {p : Parse β} {promise : β → Prop}

theorem pure {b : β} (h : promise b) : S.Ends (Pure.pure b) promise := fun _ hr => ⟨hr, h⟩

theorem bind {q : β → Parse δ} {last : δ → Prop} (hp : S.Ends p promise)
    (hq : ∀ b, promise b → S.Ends (q b) last) : S.Ends (p >>= q) last := by
  intro r hr
  have hrun := hp r hr
  rw [bind_run]
  cases hpr : p r with
  | ok b r' =>
    rw [hpr] at hrun
    exact hq b hrun.2 r' hrun.1
  | error e r' =>
    rw [hpr] at hrun
    cases e with
    | bail => exact hrun
    | fault f => trivial

theorem imp {less : β → Prop} (h : S.Ends p promise) (hless : ∀ b, promise b → less b) :
    S.Ends p less := by
  intro r hr
  have hrun := h r hr
  cases hpr : p r with
  | ok b r' =>
    rw [hpr] at hrun
    exact ⟨hrun.1, hless b hrun.2⟩
  | error e r' =>
    rw [hpr] at hrun
    cases e with
    | bail => exact hrun
    | fault f => trivial

theorem dies_bind {q : β → Parse δ} (hp : S.Ends p promise) (hq : ∀ b, promise b → S.Dies (q b)) :
    S.Dies (p >>= q) := by
  intro r hr
  have hrun := hp r hr
  rw [bind_run]
  cases hpr : p r with
  | ok b r' =>
    rw [hpr] at hrun
    exact hq b hrun.2 r' hrun.1
  | error e r' =>
    rw [hpr] at hrun
    cases e with
    | bail => exact hrun
    | fault f => trivial

theorem rounds {round : τ → Parse (Round τ β)} (kept : τ → Prop)
    (hround : ∀ s, kept s → S.Ends (round s) fun
      | .again s' => kept s'
      | .done b => promise b) (limit : Nat) {s : τ} (hs : kept s) :
    S.Ends (Parse.rounds round limit s) promise := by
  induction limit generalizing s with
  | zero => exact fun _ _ => trivial
  | succ limit ih =>
    refine (hround s hs).bind fun result hresult => ?_
    cases result with
    | again s' => exact ih hresult
    | done b => exact .pure hresult

theorem loop {round : τ → Parse (Round τ β)} (kept : τ → Prop)
    (hround : ∀ s, kept s → S.Ends (round s) fun
      | .again s' => kept s'
      | .done b => promise b) {s : τ} (hs : kept s) :
    S.Ends (Parse.loop s round) promise :=
  fun r hr => Ends.rounds kept hround r.bound hs r hr

end Ends

theorem Bails.bind {p : Parse β} (hp : S.Bails p) (q : β → Parse δ) : S.Bails (p >>= q) :=
  Ends.bind hp fun _ h => h.elim

theorem Bails.ends {p : Parse β} (hp : S.Bails p) {promise : β → Prop} : S.Ends p promise :=
  Ends.imp hp fun _ h => h.elim

theorem Bails.dies {p : Parse β} (hp : S.Bails p) : S.Dies p := by
  intro r hr
  have hrun := hp r hr
  cases hpr : p r with
  | ok b r' =>
    rw [hpr] at hrun
    exact hrun.2.elim
  | error e r' =>
    rw [hpr] at hrun
    cases e with
    | bail => exact hrun
    | fault f => trivial

theorem Dies.map {p : Parse β} (hp : S.Dies p) (f : β → δ) :
    S.Dies (p >>= fun b => pure (f b)) := by
  intro r hr
  have hrun := hp r hr
  rw [bind_run]
  cases hpr : p r with
  | ok b r' => rwa [hpr] at hrun
  | error e r' =>
    rw [hpr] at hrun
    cases e with
    | bail => exact hrun
    | fault f => trivial

/-! ### Phrases that agree -/

/-- What a round leads to, with other states and other results. -/
def Round.map (turn : τ → σ) (move : β → α) : Round τ β → Round σ α
  | .again s => .again (turn s)
  | .done b => .done (move b)

/-- What a round leads to is as promised. -/
def Round.Kept (kept : τ → Prop) (promise : β → Prop) : Round τ β → Prop
  | .again s => kept s
  | .done b => promise b

theorem Agreed.imp {move : β → α} {promise less : β → Prop} {result₁ : EStateM.Result Halt Reader α}
    {result₂ : EStateM.Result Halt Reader β} (h : S.Agreed E move promise result₁ result₂)
    (hless : ∀ b, promise b → less b) : S.Agreed E move less result₁ result₂ := by
  cases h with
  | ok hpromise hr => exact .ok (hless _ hpromise) hr
  | bail hendless hr => exact .bail hendless hr
  | edge hE hpromise hr => exact .edge hE (hless _ hpromise) hr
  | beyond hE hr => exact .beyond hE hr
  | lost h => exact .lost h

/-- A phrase that leaves tokens behind may stand for one that need not. -/
theorem Agreed.inside {move : β → α} {promise : β → Prop} {result₁ : EStateM.Result Halt Reader α}
    {result₂ : EStateM.Result Halt Reader β} (h : S.Agreed .inside move promise result₁ result₂) :
    S.Agreed E move promise result₁ result₂ := by
  cases h with
  | ok hpromise hr => exact .ok hpromise hr
  | bail hendless hr => exact .bail hendless hr
  | edge hE => cases hE
  | beyond hE => cases hE
  | lost h => exact .lost h

theorem Agreed.beyond_of_edge (hS : S.Lawful) {move : β → α} {promise : β → Prop}
    {result₁ : EStateM.Result Halt Reader α} {result₂ : EStateM.Result Halt Reader β}
    (h : S.Agreed .edge move promise result₁ result₂) :
    S.Agreed .beyond move promise result₁ result₂ := by
  cases h with
  | ok hpromise hr => exact .ok hpromise hr
  | bail hendless hr => exact .bail hendless hr
  | edge _ _ hr => exact .beyond rfl (hS.edge_spent hr)
  | beyond hE => cases hE
  | lost h => exact .lost h

/-- Two phrases after two that agree; what becomes of them where the source ended in between is left
open. -/
theorem Agreed.bind {E' : Ending} {p₁ : Parse α} {p₂ : Parse β} {q₁ : α → Parse γ}
    {q₂ : β → Parse δ} {move : β → α} {promise : β → Prop} {turn : δ → γ} {last : δ → Prop}
    {r₁ r₂ : Reader} (hp : S.Agreed E' move promise (p₁ r₁) (p₂ r₂)) (hkeeps : ∀ b, S.Keeps (q₂ b))
    (hq : ∀ b r₁' r₂', promise b → S.rel r₁' r₂' →
      S.Agreed E turn last (q₁ (move b) r₁') (q₂ b r₂'))
    (hedge : E' = .edge → ∀ b r₁' r₂', promise b → S.edge r₁' r₂' →
      S.Agreed E turn last (q₁ (move b) r₁') (q₂ b r₂'))
    (hbeyond : E' = .beyond → ∀ b r₂' result, S.spent r₂' →
      S.Agreed E turn last result (q₂ b r₂')) :
    S.Agreed E turn last ((p₁ >>= q₁) r₁) ((p₂ >>= q₂) r₂) := by
  rw [bind_run, bind_run]
  generalize p₁ r₁ = result₁ at hp
  generalize p₂ r₂ = result₂ at hp
  cases hp with
  | ok hpromise hr => exact hq _ _ _ hpromise hr
  | bail hendless hr => exact .bail hendless hr
  | edge hE hpromise hr => exact hedge hE _ _ _ hpromise hr
  | beyond hE hr => exact hbeyond hE _ _ _ hr
  | lost h =>
    refine .lost ?_
    cases result₂ with
    | ok b r => exact hkeeps b r h
    | error e r =>
      cases e with
      | bail => exact h
      | fault f => trivial

namespace Agrees

variable {p₁ : Parse α} {p₂ : Parse β} {move : β → α} {promise : β → Prop} {q₁ : α → Parse γ}
  {q₂ : β → Parse δ} {turn : δ → γ} {last : δ → Prop}

theorem weaken {more : Reader → Prop} (h : S.Agrees given E p₁ p₂ move promise)
    (hgiven : ∀ r, more r → given r) : S.Agrees more E p₁ p₂ move promise :=
  ⟨h.keeps, fun hr hmore => h.agreed hr (hgiven _ hmore)⟩

theorem promised {less : β → Prop} (h : S.Agrees given E p₁ p₂ move promise)
    (hless : ∀ b, promise b → less b) : S.Agrees given E p₁ p₂ move less :=
  ⟨h.keeps, fun hr hgiven => (h.agreed hr hgiven).imp hless⟩

theorem inside (h : S.Agrees given .inside p₁ p₂ move promise) :
    S.Agrees given E p₁ p₂ move promise :=
  ⟨h.keeps, fun hr hgiven => (h.agreed hr hgiven).inside⟩

theorem beyond (hS : S.Lawful) (h : S.Agrees given .edge p₁ p₂ move promise) :
    S.Agrees given .beyond p₁ p₂ move promise :=
  ⟨h.keeps, fun hr hgiven => (h.agreed hr hgiven).beyond_of_edge hS⟩

/-- Where readers cannot be, anything agrees. -/
theorem absurd (hkeeps : S.Keeps p₂) (hno : ∀ r₁ r₂, S.rel r₁ r₂ → ¬ given r₂) :
    S.Agrees given E p₁ p₂ move promise :=
  ⟨hkeeps, fun hr hgiven => (hno _ _ hr hgiven).elim⟩

/-- What is given may say something that is about no reader. -/
theorem assume {P : Prop} (hkeeps : S.Keeps p₂) (hgiven : ∀ r, given r → P)
    (h : P → S.Agrees given E p₁ p₂ move promise) : S.Agrees given E p₁ p₂ move promise :=
  ⟨hkeeps, fun hr hg => (h (hgiven _ hg)).agreed hr hg⟩

theorem pure {a : α} {b : β} (hmove : a = move b) (h : ∀ r, given r → promise b) :
    S.Agrees given E (Pure.pure a) (Pure.pure b) move promise :=
  ⟨.pure b, fun hr hgiven => by rw [hmove]; exact .ok (h _ hgiven) hr⟩

/-- Values may correspond only because of what is given. -/
theorem pure_of {a : α} {b : β} (h : ∀ r, given r → a = move b ∧ promise b) :
    S.Agrees given E (Pure.pure a) (Pure.pure b) move promise :=
  ⟨.pure b, fun hr hgiven => by rw [(h _ hgiven).1]; exact .ok (h _ hgiven).2 hr⟩

theorem fault {f f' : Fault} :
    S.Agrees given E (Parse.fault f : Parse α) (Parse.fault f' : Parse β) move promise :=
  ⟨fun _ _ => trivial, fun _ _ => .lost trivial⟩

/-- One phrase after another, with tokens left in between. What was given before the first is given
before the second, as far as it was about no reader. -/
theorem bind (hp : S.Agrees given .inside p₁ p₂ move promise)
    (hq : ∀ b, S.Agrees (fun _ => promise b ∧ ∃ r, given r) E (q₁ (move b)) (q₂ b) turn last) :
    S.Agrees given E (p₁ >>= q₁) (p₂ >>= q₂) turn last :=
  ⟨hp.keeps.bind fun b => (hq b).keeps, fun {_ r₂} hr hgiven =>
    (hp.agreed hr hgiven).bind (fun b => (hq b).keeps)
      (fun b _ _ hpromise hr' => (hq b).agreed hr' ⟨hpromise, r₂, hgiven⟩)
      (fun hE => by cases hE) fun hE => by cases hE⟩

/-- One phrase after another, where it is told how the first values correspond. -/
theorem seq (move : β → α) (hp : S.Agrees given .inside p₁ p₂ move fun _ => True)
    (hq : ∀ b, S.Agrees (fun _ => ∃ r, given r) E (q₁ (move b)) (q₂ b) turn last) :
    S.Agrees given E (p₁ >>= q₁) (p₂ >>= q₂) turn last :=
  hp.bind fun b => (hq b).weaken fun _ h => h.2

/-- One phrase after another, where the second reader is known not to have gone back. -/
theorem bind_onward (hS : S.Lawful) (hp : S.Agrees given .inside p₁ p₂ move promise)
    (haccounts : Accounts S.source True p₂ fun _ => True)
    (hq : ∀ b, S.Agrees
      (fun r' => promise b ∧ ∃ r, given r ∧ r.cursor.offset ≤ r'.cursor.offset) E (q₁ (move b))
        (q₂ b) turn last) :
    S.Agrees given E (p₁ >>= q₁) (p₂ >>= q₂) turn last := by
  refine ⟨hp.keeps.bind fun b => (hq b).keeps, fun {r₁ r₂} hr hgiven => ?_⟩
  have hrun := haccounts.run (hS.inSource hr)
  have hfirst := hp.agreed hr hgiven
  rw [bind_run, bind_run]
  generalize p₁ r₁ = result₁ at hfirst
  generalize p₂ r₂ = result₂ at hfirst hrun
  cases hfirst with
  | ok hpromise hr' => exact (hq _).agreed hr' ⟨hpromise, r₂, hgiven, hrun.1.offset_le⟩
  | bail hendless hr' => exact .bail hendless hr'
  | edge hE => cases hE
  | beyond hE => cases hE
  | lost h =>
    refine .lost ?_
    cases result₂ with
    | ok b r => exact (hq b).keeps r h
    | error e r =>
      cases e with
      | bail => exact h
      | fault f => trivial

/-- One phrase after another, where it is told what the second does at the edge. -/
theorem bind_edge (hp : S.Agrees given .edge p₁ p₂ move promise)
    (hq : ∀ b, S.Agrees (fun _ => promise b ∧ ∃ r, given r) .edge (q₁ (move b)) (q₂ b) turn last)
    (hedge : ∀ b r₁ r₂, promise b → S.edge r₁ r₂ →
      S.Agreed .edge turn last (q₁ (move b) r₁) (q₂ b r₂)) :
    S.Agrees given .edge (p₁ >>= q₁) (p₂ >>= q₂) turn last :=
  ⟨hp.keeps.bind fun b => (hq b).keeps, fun {_ r₂} hr hgiven =>
    (hp.agreed hr hgiven).bind (fun b => (hq b).keeps)
      (fun b _ _ hpromise hr' => (hq b).agreed hr' ⟨hpromise, r₂, hgiven⟩)
      (fun _ => hedge) fun hE => by cases hE⟩

/-- One phrase after another, where the second comes to nothing at the end of the source. -/
theorem bind_dies (hp : S.Agrees given .beyond p₁ p₂ move promise)
    (hq : ∀ b, S.Agrees (fun _ => promise b ∧ ∃ r, given r) E (q₁ (move b)) (q₂ b) turn last)
    (hdies : ∀ b, S.Dies (q₂ b)) : S.Agrees given E (p₁ >>= q₁) (p₂ >>= q₂) turn last :=
  ⟨hp.keeps.bind fun b => (hq b).keeps, fun {_ r₂} hr hgiven =>
    (hp.agreed hr hgiven).bind (fun b => (hq b).keeps)
      (fun b _ _ hpromise hr' => (hq b).agreed hr' ⟨hpromise, r₂, hgiven⟩)
      (fun hE => by cases hE) fun _ b _ _ hspent => .lost (hdies b _ hspent)⟩

/-- One phrase after another, where the second reads nothing at the end of the source. -/
theorem bind_ends (hp : S.Agrees given .beyond p₁ p₂ move promise)
    (hq : ∀ b, S.Agrees (fun _ => promise b ∧ ∃ r, given r) .beyond (q₁ (move b)) (q₂ b) turn last)
    (hends : ∀ b, S.Ends (q₂ b) fun _ => True) :
    S.Agrees given .beyond (p₁ >>= q₁) (p₂ >>= q₂) turn last := by
  refine ⟨hp.keeps.bind fun b => (hq b).keeps, fun {_ r₂} hr hgiven =>
    (hp.agreed hr hgiven).bind (fun b => (hq b).keeps)
      (fun b _ _ hpromise hr' => (hq b).agreed hr' ⟨hpromise, r₂, hgiven⟩)
      (fun hE => by cases hE) fun _ b r result hspent => ?_⟩
  have hrun := hends b r hspent
  cases hqr : q₂ b r with
  | ok d r' =>
    rw [hqr] at hrun
    exact .beyond rfl hrun.1
  | error e r' =>
    rw [hqr] at hrun
    cases e with
    | bail => exact .lost hrun
    | fault f => exact .lost trivial

/-- The end of the source may stand right behind a phrase whose value is only put in place. -/
theorem map (hp : S.Agrees given E p₁ p₂ move promise) {f₁ : α → γ} {f₂ : β → δ}
    (hturn : ∀ b, f₁ (move b) = turn (f₂ b)) (hlast : ∀ r, given r → ∀ b, promise b → last (f₂ b)) :
    S.Agrees given E (p₁ >>= fun a => Pure.pure (f₁ a)) (p₂ >>= fun b => Pure.pure (f₂ b)) turn
      last := by
  refine ⟨hp.keeps.bind fun b => .pure _, fun {_ r₂} hr hgiven =>
    (hp.agreed hr hgiven).bind (fun b => .pure _) (fun b r₁' r₂' hpromise hr' => ?_)
      (fun hE b r₁' r₂' hpromise hr' => ?_) fun hE b r₂' result hspent => .beyond hE hspent⟩
  · rw [hturn]
    exact .ok (hlast _ hgiven b hpromise) hr'
  · rw [hturn]
    exact .edge hE (hlast _ hgiven b hpromise) hr'

theorem ite {c₁ c₂ : Prop} [Decidable c₁] [Decidable c₂] {p₁' : Parse α} {p₂' : Parse β}
    (hc : c₁ ↔ c₂) (hp : c₂ → S.Agrees given E p₁ p₂ move promise)
    (hp' : ¬ c₂ → S.Agrees given E p₁' p₂' move promise) :
    S.Agrees given E (if c₁ then p₁ else p₁') (if c₂ then p₂ else p₂') move promise := by
  by_cases h : c₂
  · rw [if_pos (hc.2 h), if_pos h]
    exact hp h
  · rw [if_neg (mt hc.1 h), if_neg h]
    exact hp' h

/-- What follows two ways to go on is read once. -/
theorem ite_bind {c : Prop} [Decidable c] {p₁' : Parse α} {p₂' : Parse β} (move : β → α)
    (promise : β → Prop) (hp : c → S.Agrees given .inside p₁ p₂ move promise)
    (hp' : ¬ c → S.Agrees given .inside p₁' p₂' move promise)
    (hq : ∀ b, S.Agrees (fun _ => promise b ∧ ∃ r, given r) E (q₁ (move b)) (q₂ b) turn last) :
    S.Agrees given E (if c then p₁ >>= q₁ else p₁' >>= q₁)
      (if c then p₂ >>= q₂ else p₂' >>= q₂) turn last := by
  split
  · next h => exact (hp h).bind hq
  · next h => exact (hp' h).bind hq

/-! ### Rounds -/

variable {turn : τ → σ} {kept : τ → Prop} {round₁ : σ → Parse (Round σ α)}
  {round₂ : τ → Parse (Round τ β)}

/-- What every round keeps is there in the last one. The first run may make more rounds. -/
theorem rounds (turn : τ → σ)
    (hround : ∀ s, S.Agrees (fun _ => kept s) .inside (round₁ (turn s)) (round₂ s)
      (Round.map turn move) (Round.Kept kept promise)) {limit₁ limit₂ : Nat}
    (hlimit : limit₂ ≤ limit₁) (s : τ) :
    S.Agrees (fun _ => kept s) .inside (Parse.rounds round₁ limit₁ (turn s))
      (Parse.rounds round₂ limit₂ s) move promise := by
  induction limit₂ generalizing limit₁ s with
  | zero => exact ⟨fun _ _ => trivial, fun _ _ => .lost trivial⟩
  | succ limit₂ ih =>
    obtain ⟨limit, rfl⟩ := Nat.exists_eq_add_of_le hlimit
    rw [Nat.add_right_comm]
    refine (hround s).bind fun result => ?_
    cases result with
    | again s' => exact (ih (Nat.le_add_right _ _) s').weaken fun _ h => h.1
    | done b => exact .pure rfl fun _ h => h.1

/-- The same, where the source may end on the way. -/
theorem rounds_beyond (hround : ∀ s, S.Agrees (fun _ => kept s) .beyond (round₁ (turn s)) (round₂ s)
      (Round.map turn move) (Round.Kept kept promise))
    (hends : ∀ s, S.Ends (round₂ s) fun _ => True) {limit₁ limit₂ : Nat}
    (hlimit : limit₂ ≤ limit₁) (s : τ) :
    S.Agrees (fun _ => kept s) .beyond (Parse.rounds round₁ limit₁ (turn s))
      (Parse.rounds round₂ limit₂ s) move promise := by
  have hrest (limit : Nat) (s : τ) : S.Ends (Parse.rounds round₂ limit s) fun _ => True :=
    .rounds (fun _ => True) (fun s _ => (hends s).imp fun result _ => by
      cases result <;> trivial) limit trivial
  induction limit₂ generalizing limit₁ s with
  | zero => exact ⟨fun _ _ => trivial, fun _ _ => .lost trivial⟩
  | succ limit₂ ih =>
    obtain ⟨limit, rfl⟩ := Nat.exists_eq_add_of_le hlimit
    rw [Nat.add_right_comm]
    refine (hround s).bind_ends (fun result => ?_) fun result => ?_
    · cases result with
      | again s' => exact (ih (Nat.le_add_right _ _) s').weaken fun _ h => h.1
      | done b => exact .pure rfl fun _ h => h.1
    · cases result with
      | again s' => exact hrest limit₂ s'
      | done b => exact .pure trivial

theorem loop (hS : S.Lawful) (turn : τ → σ) (kept : τ → Prop)
    (hround : ∀ s, S.Agrees (fun _ => kept s) .inside (round₁ (turn s))
      (round₂ s) (Round.map turn move) (Round.Kept kept promise)) {s₁ : σ} {s₂ : τ}
    (hs : s₁ = turn s₂) (hkept : ∀ r, given r → kept s₂) :
    S.Agrees given .inside (Parse.loop s₁ round₁) (Parse.loop s₂ round₂) move promise := by
  subst hs
  exact ⟨Keeps.get.bind fun r => (rounds turn hround (Nat.le_refl r.bound) s₂).keeps,
    fun hr hgiven => (rounds turn hround (hS.bound_le hr) s₂).agreed hr (hkept _ hgiven)⟩

theorem loop_beyond (hS : S.Lawful) (turn : τ → σ) (kept : τ → Prop)
    (hround : ∀ s, S.Agrees (fun _ => kept s) .beyond (round₁ (turn s))
      (round₂ s) (Round.map turn move) (Round.Kept kept promise))
    (hends : ∀ s, S.Ends (round₂ s) fun _ => True) {s₁ : σ} {s₂ : τ}
    (hs : s₁ = turn s₂) (hkept : ∀ r, given r → kept s₂) :
    S.Agrees given .beyond (Parse.loop s₁ round₁) (Parse.loop s₂ round₂) move promise := by
  subst hs
  exact ⟨Keeps.get.bind fun r => (rounds_beyond hround hends (Nat.le_refl r.bound) s₂).keeps,
    fun hr hgiven => (rounds_beyond hround hends (hS.bound_le hr) s₂).agreed hr (hkept _ hgiven)⟩

/-- Rounds that skip something before they read on. The source may end where they skip, and then
there is nothing to read on with. -/
theorem loop_skipping (hS : S.Lawful) (turn : τ → σ) (kept : τ → Prop) {skip : Parse δ}
    {rest₁ : σ → δ → Parse (Round σ α)} {rest₂ : τ → δ → Parse (Round τ β)}
    (hskip : S.Agrees (fun _ => True) .beyond skip skip id fun _ => True)
    (hskipEnds : S.Ends skip fun _ => True)
    (hrest : ∀ s d, S.Agrees (fun _ => kept s) .beyond (rest₁ (turn s) d) (rest₂ s d)
      (Round.map turn move) (Round.Kept kept promise))
    (hbails : ∀ s d, S.Bails (rest₂ s d)) {s₁ : σ} {s₂ : τ} (hs : s₁ = turn s₂)
    (hkept : ∀ r, given r → kept s₂) :
    S.Agrees given .beyond (Parse.loop s₁ fun s => skip >>= rest₁ s)
      (Parse.loop s₂ fun s => skip >>= rest₂ s) move promise := by
  refine loop_beyond hS turn kept (fun s => ?_) (fun s => ?_) hs hkept
  · refine (hskip.weaken fun _ _ => trivial).bind_dies (fun d => ?_) fun d => (hbails s d).dies
    exact (hrest s d).weaken fun r h => h.2.elim fun _ hkept => hkept
  · exact hskipEnds.bind fun d _ => (hbails s d).ends

end Agrees

end Simulation

end TemplateScript
