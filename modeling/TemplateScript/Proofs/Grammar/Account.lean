import TemplateScript.Proofs.Grammar.Steps

/-!
# Phrases that account for what is wrong

A phrase accounts for its failures if it never drops a diagnostic, gives up only after one was
recorded, and has read what it promises if none was. Since diagnostics are never dropped, the
promise need only be kept by a reader that still has none at the end, which is what lets checks
that record something and read on count as checks.

The rules here build such phrases from smaller ones, whatever they promise.
-/

namespace TemplateScript

/-- A later state of a reader in a source. -/
structure Reader.Leads (source : List Glyph) (r later : Reader) : Prop where
  inSource : later.InSource source
  steps : r.Steps later

namespace Reader

variable {source : List Glyph} {a b c r later : Reader}

theorem Steps.leads (h : r.Steps later) (hr : r.InSource source) : r.Leads source later :=
  ⟨h.inSource hr, h⟩

theorem Leads.refl (h : r.InSource source) : r.Leads source r := ⟨h, .refl⟩

theorem Leads.trans (h : a.Leads source b) (k : b.Leads source c) : a.Leads source c :=
  ⟨k.inSource, h.steps.trans k.steps⟩

theorem Leads.errors (h : r.Leads source later) : r.errors ≠ [] → later.errors ≠ [] :=
  List.IsPrefix.ne_nil h.steps.errors_grow

theorem Leads.offset_le (h : r.Leads source later) : r.cursor.offset ≤ later.cursor.offset :=
  h.steps.reaches.offset_le

end Reader

namespace Parse

variable {α β σ : Type}

/-- What came of a phrase that a reader began to read: what was promised, or a diagnostic. -/
def Accounted (source : List Glyph) (r : Reader) (promise : α → Prop) :
    EStateM.Result Halt Reader α → Prop
  | .ok a r' => r.Leads source r' ∧ (r'.errors = [] → promise a)
  | .error .bail r' => r.Leads source r' ∧ r'.errors ≠ []
  | .error (.fault _) _ => True

theorem Accounted.imp {source : List Glyph} {r : Reader} {promise less : α → Prop}
    {result : EStateM.Result Halt Reader α} (h : Accounted source r promise result)
    (hless : ∀ a, promise a → less a) : Accounted source r less result := by
  cases result with
  | ok a r' => exact ⟨h.1, fun hnil => hless a (h.2 hnil)⟩
  | error e r' =>
    cases e with
    | bail => exact h
    | fault f => trivial

/-- What came of a phrase is told of a reader that had read something before, too. -/
theorem Accounted.after {source : List Glyph} {r r' : Reader} {promise : α → Prop}
    {result : EStateM.Result Halt Reader α} (h : Accounted source r' promise result)
    (hleads : r.Leads source r') : Accounted source r promise result := by
  cases result with
  | ok a last => exact ⟨hleads.trans h.1, h.2⟩
  | error e last =>
    cases e with
    | bail => exact ⟨hleads.trans h.1, h.2⟩
    | fault f => trivial

/-- What came of two phrases, one after the other. -/
theorem Accounted.bind {source : List Glyph} {r : Reader} {p : Parse α} {q : α → Parse β}
    {promise : α → Prop} {last : β → Prop} (hp : Accounted source r promise (p r))
    (hq : ∀ a r', r.Leads source r' →
      Accounted source r' (fun b => promise a → last b) (q a r')) :
    Accounted source r last ((p >>= q) r) := by
  rw [bind_run]
  cases hpr : p r with
  | error e r' =>
    rw [hpr] at hp
    cases e with
    | bail => exact hp
    | fault f => trivial
  | ok a r' =>
    rw [hpr] at hp
    have hnext := hq a r' hp.1
    change Accounted source r _ (q a r')
    cases hqr : q a r' with
    | error e r'' =>
      rw [hqr] at hnext
      cases e with
      | bail => exact ⟨hp.1.trans hnext.1, hnext.2⟩
      | fault f => trivial
    | ok b r'' =>
      rw [hqr] at hnext
      refine ⟨hp.1.trans hnext.1, fun hnil => hnext.2 hnil (hp.2 ?_)⟩
      exact by_contra fun hne => hnext.1.errors hne hnil

/-- Given what holds already, the phrase keeps what it promises, or a diagnostic says why not. -/
def Accounts (source : List Glyph) (given : Prop) (p : Parse α) (promise : α → Prop) : Prop :=
  ∀ r, r.InSource source → Accounted source r (fun a => given → promise a) (p r)

namespace Accounts

variable {source : List Glyph} {given : Prop} {p : Parse α} {promise : α → Prop}

/-- What came of a phrase for which nothing need be given. -/
theorem run {r : Reader} (h : Accounts source True p promise) (hr : r.InSource source) :
    Accounted source r promise (p r) :=
  (h r hr).imp fun _ hpromise => hpromise trivial

theorem weaken {more : Prop} (h : Accounts source given p promise) (hgiven : more → given) :
    Accounts source more p promise :=
  fun r hr => (h r hr).imp fun _ hpromise hmore => hpromise (hgiven hmore)

theorem promised {less : α → Prop} (h : Accounts source given p promise)
    (hless : given → ∀ a, promise a → less a) : Accounts source given p less :=
  fun r hr => (h r hr).imp fun a hpromise hgiven => hless hgiven a (hpromise hgiven)

theorem pure {a : α} (h : given → promise a) : Accounts source given (pure a) promise :=
  fun _ hr => ⟨.refl hr, fun _ => h⟩

theorem fault {f : Fault} : Accounts source given (Parse.fault f : Parse α) promise :=
  fun _ _ => trivial

theorem bind {q : α → Parse β} {last : β → Prop} (hp : Accounts source given p promise)
    (hq : ∀ a, Accounts source (promise a ∧ given) (q a) last) :
    Accounts source given (p >>= q) last := by
  intro r hr
  refine (hp r hr).bind fun a r' hleads => (hq a r' hleads.inSource).imp ?_
  exact fun b hlast hpromise hgiven => hlast ⟨hpromise hgiven, hgiven⟩

/-- A phrase may keep its promise whatever was read before it. -/
theorem seq {q : α → Parse β} {last : β → Prop} (hp : Accounts source given p fun _ => True)
    (hq : ∀ a, Accounts source given (q a) last) : Accounts source given (p >>= q) last :=
  hp.bind fun a => (hq a).weaken And.right

theorem map {f : α → β} {last : β → Prop} (hp : Accounts source given p promise)
    (hf : given → ∀ a, promise a → last (f a)) : Accounts source given (f <$> p) last :=
  hp.bind fun a => .pure fun ⟨ha, hgiven⟩ => hf hgiven a ha

/-- What follows two ways to go on is read once. -/
theorem ite_bind {c : Prop} [Decidable c] {p' : Parse α} {q : α → Parse β} {last : β → Prop}
    (promise : α → Prop) (hp : Accounts source given p promise)
    (hp' : Accounts source given p' promise)
    (hq : ∀ a, Accounts source (promise a ∧ given) (q a) last) :
    Accounts source given (if c then p >>= q else p' >>= q) last := by
  split
  · exact hp.bind hq
  · exact hp'.bind hq

/-- A phrase that is given up accounts for it, so the one that goes on without it need not. -/
theorem attempt (hp : Accounts source given p promise) :
    Accounts source given (Parse.attempt p) fun a? => ∃ a, a? = some a ∧ promise a := by
  intro r hr
  have hrun := hp r hr
  unfold Parse.attempt
  cases hpr : p r with
  | ok a r' =>
    rw [hpr] at hrun
    exact ⟨hrun.1, fun hnil hgiven => ⟨a, rfl, hrun.2 hnil hgiven⟩⟩
  | error e r' =>
    rw [hpr] at hrun
    cases e with
    | bail => exact ⟨hrun.1, fun hnil => absurd hnil hrun.2⟩
    | fault f => trivial

/-- What every round keeps is there in the last one. -/
theorem rounds {round : σ → Parse (Round σ α)} {kept : σ → Prop}
    (hround : ∀ s, Accounts source (kept s ∧ given) (round s) fun
      | .again s' => kept s'
      | .done a => promise a) (limit : Nat) (s : σ) :
    Accounts source (kept s ∧ given) (Parse.rounds round limit s) promise := by
  induction limit generalizing s with
  | zero => exact fault
  | succ limit ih =>
    unfold Parse.rounds
    refine (hround s).bind fun result => ?_
    cases result with
    | again s' => exact (ih s').weaken fun ⟨hkept, _, hgiven⟩ => ⟨hkept, hgiven⟩
    | done a => exact pure fun ⟨ha, _⟩ => ha

theorem get : Accounts source given (get : Parse Reader) fun _ => True :=
  fun _ hr => ⟨.refl hr, fun _ _ => trivial⟩

theorem loop {round : σ → Parse (Round σ α)} (kept : σ → Prop) {s : σ} (hs : given → kept s)
    (hround : ∀ s, Accounts source (kept s ∧ given) (round s) fun
      | .again s' => kept s'
      | .done a => promise a) :
    Accounts source given (Parse.loop s round) promise :=
  Accounts.get.bind fun r =>
    (rounds hround r.bound s).weaken fun ⟨_, hgiven⟩ => ⟨hs hgiven, hgiven⟩

end Accounts

/-! ### The operations on a reader -/

section Operations

variable {source : List Glyph} {given : Prop} {promise : α → Prop}

theorem place_accounts (offset : Nat) :
    Accounts source given (place offset) fun _ => True := by
  unfold place
  refine .bind .get fun r => ?_
  dsimp only
  split
  · exact .pure fun _ => trivial
  · exact .fault

theorem line_accounts (offset : Nat) : Accounts source given (line offset) fun _ => True :=
  (place_accounts offset).bind fun _ => .pure fun _ => trivial

/-- What follows the line of an offset up to the cursor may take it for the line in the source. -/
theorem line_accounted {r : Reader} (hr : r.InSource source) {offset : Nat}
    (hoffset : offset ≤ r.cursor.offset) {q : Nat → Parse α}
    (hq : Accounted source r promise (q (Glyph.lineOf source offset) r)) :
    Accounted source r promise ((line offset >>= q) r) := by
  by_cases hsize : offset ≤ r.cursor.file.size
  · rw [bind_run_ok (line_run hsize), hr.cursor.place_line hoffset]
    exact hq
  · rw [bind_run_error (line_run_fault hsize)]
    trivial

theorem record_accounts (d : Diagnostic) :
    Accounts source given (modify (·.record d) : Parse PUnit) fun _ => False :=
  fun r hr => ⟨(Reader.Steps.refl.record d).leads hr, fun hnil =>
    absurd hnil (Reader.record_errors_ne r d)⟩

/-- Whatever follows a diagnostic need not keep any promise. -/
theorem errorAt_accounts (offset : Nat) (cause : Cause) :
    Accounts source given (errorAt offset cause) fun _ => False :=
  (place_accounts offset).bind fun place => record_accounts ⟨place, cause⟩

theorem failAt_accounts (offset : Nat) (cause : Cause) :
    Accounts source given (failAt offset cause : Parse α) promise := by
  intro r hr
  have hrun : Accounted source r (fun _ => False) (errorAt offset cause r) :=
    (errorAt_accounts offset cause).run hr
  unfold failAt
  rw [bind_run]
  cases he : errorAt offset cause r with
  | ok a r' =>
    rw [he] at hrun
    exact ⟨hrun.1, hrun.2⟩
  | error e r' =>
    rw [he] at hrun
    cases e with
    | bail => exact hrun
    | fault f => trivial

theorem isFull_accounts : Accounts source given isFull fun _ => True :=
  Accounts.get.bind fun _ => .pure fun _ => trivial

theorem token_accounts : Accounts source given token fun _ => True :=
  Accounts.get.bind fun _ => .pure fun _ => trivial

theorem kind_accounts : Accounts source given kind fun _ => True :=
  token_accounts.bind fun _ => .pure fun _ => trivial

theorem pos_accounts : Accounts source given pos fun _ => True :=
  token_accounts.bind fun _ => .pure fun _ => trivial

theorem keepComment_accounts (comment : Comment) (first last : Nat) :
    Accounts source given (modify (·.keepComment comment first last) : Parse PUnit)
      fun _ => True :=
  fun _ hr => ⟨(Reader.Steps.refl.keepComment comment first last).leads hr, fun _ _ => trivial⟩

theorem nextWithin_accounts (limit : Nat) :
    Accounts source given (nextWithin limit) fun _ => True := by
  induction limit with
  | zero => exact .fault
  | succ limit ih =>
    intro r hr
    have hmove := Reader.Steps.refl.move.leads hr
    rw [nextWithin_succ]
    split
    · have hmore : Accounts source given
          (do
            let first ← line r.cursor.scan.2.pos
            let last ← line (r.cursor.scan.2.pos + r.cursor.scan.2.literal.utf8ByteSize)
            modify (·.keepComment ⟨r.cursor.scan.2.pos, r.cursor.scan.2.literal⟩ first last)
            nextWithin limit) fun _ => True :=
        (line_accounts _).bind fun _ => (line_accounts _).bind fun _ =>
          (keepComment_accounts _ _ _).bind fun _ => ih.weaken fun h => h.2.2.2
      exact (hmore _ hmove.inSource).after hmove
    · exact ⟨Reader.Steps.refl.take.leads hr, fun _ _ => trivial⟩

theorem next_accounts : Accounts source given next fun _ => True :=
  Accounts.get.bind fun _ => nextWithin_accounts _

theorem failExpected_accounts (wanted : String) :
    Accounts source given (failExpected wanted : Parse α) promise :=
  token_accounts.bind fun _ => failAt_accounts _ _

theorem expect_accounts (wanted : Token.Kind) :
    Accounts source given (expect wanted) fun _ => True := by
  unfold expect
  refine token_accounts.bind fun token => ?_
  split
  · exact next_accounts.bind fun _ => .pure fun _ => trivial
  · exact failExpected_accounts _

theorem expectIdent_accounts : Accounts source given expectIdent fun _ => True := by
  unfold expectIdent
  refine token_accounts.bind fun token => ?_
  split
  · exact next_accounts.bind fun _ => .pure fun _ => trivial
  · exact failExpected_accounts _

theorem accept_accounts (wanted : Token.Kind) :
    Accounts source given (accept wanted) fun _ => True := by
  unfold accept
  refine kind_accounts.bind fun kind => ?_
  split
  · exact next_accounts.bind fun _ => .pure fun _ => trivial
  · exact .pure fun _ => trivial

theorem expectSemicolon_accounts : Accounts source given expectSemicolon fun _ => True := by
  unfold expectSemicolon
  refine kind_accounts.bind fun kind => ?_
  split
  · exact next_accounts
  · split
    · exact .pure fun _ => trivial
    · exact failExpected_accounts _

theorem skipLineBreaks_accounts : Accounts source given skipLineBreaks fun _ => True := by
  unfold skipLineBreaks
  refine .loop (fun _ => True) (fun _ => trivial) fun skipped => ?_
  refine token_accounts.bind fun token => ?_
  split
  · exact next_accounts.bind fun _ => .pure fun _ => trivial
  · exact .pure fun _ => trivial

theorem skipSemicolons_accounts : Accounts source given skipSemicolons fun _ => True := by
  unfold skipSemicolons
  refine .loop (fun _ => True) (fun _ => trivial) fun _ => ?_
  refine (accept_accounts _).bind fun accepted => ?_
  split
  · exact .pure fun _ => trivial
  · exact .pure fun _ => trivial

theorem atExprEnd_accounts : Accounts source given atExprEnd fun _ => True :=
  kind_accounts.bind fun _ => .pure fun _ => trivial

end Operations

end Parse

end TemplateScript
