import TemplateScript.Proofs.Grammar.Agree
import TemplateScript.Proofs.Cursor.Shift
import TemplateScript.Proofs.Sugar.Unfold

/-!
# Phrases that sugar does not change

Two runs of a phrase over one source, one of which may make values of lone expressions where the
other one leaves blocks of code. The readers differ in that option only, so both runs meet the same
tokens, record the same diagnostics and end alike. What they read is the same as far as a view of it
goes, which for trees is what they are with all values unfolded.
-/

namespace TemplateScript

/-- The setting of a source in itself, but for what becomes of its values. -/
def sugarSetting (on : Bool) : Setting where
  starts := []
  gap := 0
  behind := 0
  starts_le := Setting.no_starts_le
  sugar := some on

theorem sugarSetting_cursor (on : Bool) (c : Cursor) :
    (sugarSetting on).cursor c = c.setValueSugar on := by
  have hpool : c.pool.map (·.shift 0) = c.pool := List.map_id _
  have herrors : c.errors.map (·.shift 0 0) = c.errors := List.map_id _
  simp only [Setting.cursor, Setting.file, Setting.options, Setting.lines, sugarSetting, hpool,
    herrors, Cursor.setValueSugar, List.nil_append, List.length_nil, Nat.add_zero,
    List.map_id', Option.getD_none, Option.getD_some, Bool.not_false, Bool.and_true]

namespace Cursor

variable {c : Cursor}

/-- No token depends on what becomes of values. -/
theorem scan_setValueSugar (h : c.Lined) (on : Bool) :
    (c.setValueSugar on).scan = (c.scan.1.setValueSugar on, c.scan.2) := by
  have hscan := Setting.scan_cursor (s := sugarSetting on) (c := c) ⟨h, absurd rfl⟩
    fun hquiet => absurd hquiet Bool.false_ne_true
  rw [sugarSetting_cursor, Setting.handed, sugarSetting_cursor] at hscan
  exact hscan

theorem setMixed_setValueSugar (on mixed : Bool) :
    (c.setValueSugar on).setMixed mixed = (c.setMixed mixed).setValueSugar on := by
  unfold Cursor.setMixed
  rw [apply_ite (Cursor.setValueSugar · on)]
  rfl

theorem elim_setValueSugar {α : Type} {on : Bool} {set : Cursor → α → Cursor}
    (hset : ∀ c a, set (c.setValueSugar on) a = (set c a).setValueSugar on) (o : Option α)
    (c : Cursor) :
    o.elim (c.setValueSugar on) (set (c.setValueSugar on)) =
      (o.elim c (set c)).setValueSugar on := by
  cases o with
  | none => rfl
  | some a => exact hset c a

/-- A pragma line that says nothing of values leaves what was set before. -/
theorem apply_setValueSugar (on : Bool) (options : PragmaOptions) :
    (c.setValueSugar on).apply options =
      (c.apply options).setValueSugar (options.valueSugar.getD on) := by
  have hdelimiters : (c.setValueSugar on).setDelimiters options.opening options.closing =
      (c.setDelimiters options.opening options.closing).setValueSugar on := rfl
  unfold Cursor.apply
  rw [hdelimiters]
  dsimp only
  rw [elim_setValueSugar fun _ mixed => setMixed_setValueSugar on mixed,
    elim_setValueSugar fun _ _ => rfl,
    elim_setValueSugar fun _ _ => rfl]
  cases options.valueSugar with
  | none => rfl
  | some later => rfl

end Cursor

/-- The reader with another option for values. -/
def Reader.sugared (r : Reader) (on : Bool) : Reader :=
  { r with cursor := r.cursor.setValueSugar on }

namespace Parse

variable {α β γ δ σ τ : Type}

/-- Two runs that end alike, with results that look alike. -/
inductive Twin (view : α → γ) :
    EStateM.Result Halt Reader α → EStateM.Result Halt Reader α → Prop
  | ok {a₁ a₂ : α} {r : Reader} (on : Bool) (hview : view a₁ = view a₂)
    (hlined : r.cursor.Lined) : Twin view (.ok a₁ (r.sugared on)) (.ok a₂ r)
  | error {e : Halt} {r : Reader} (on : Bool) (hlined : r.cursor.Lined) :
    Twin view (.error e (r.sugared on)) (.error e r)

/-- Wherever a reader stands, the phrases end alike, whatever the option for values is. -/
def Twins (view : α → γ) (p₁ p₂ : Parse α) : Prop :=
  ∀ (r : Reader) (on : Bool), r.cursor.Lined → Twin view (p₁ (r.sugared on)) (p₂ r)

namespace Twins

variable {view : α → γ} {turn : β → δ} {p₁ p₂ p₁' p₂' : Parse α} {q₁ q₂ : α → Parse β} {a₁ a₂ : α}

theorem pure (h : view a₁ = view a₂) : Twins view (Pure.pure a₁) (Pure.pure a₂) :=
  fun _ on hr => .ok on h hr

/-- Another view of results that are the same. -/
theorem mono (h : Twins id p₁ p₂) (view : α → γ) : Twins view p₁ p₂ := by
  intro r on hr
  have hrun := h r on hr
  generalize p₁ (r.sugared on) = result₁ at hrun
  generalize p₂ r = result₂ at hrun
  cases hrun with
  | ok on hview hlined => exact .ok on (congrArg view hview) hlined
  | error on hlined => exact .error on hlined

theorem fault (f : Fault) : Twins view (Parse.fault f) (Parse.fault f) :=
  fun _ on hr => .error on hr

theorem bail : Twins view Parse.bail Parse.bail := fun _ on hr => .error on hr

theorem bind (hp : Twins view p₁ p₂)
    (hq : ∀ a₁ a₂, view a₁ = view a₂ → Twins turn (q₁ a₁) (q₂ a₂)) :
    Twins turn (p₁ >>= q₁) (p₂ >>= q₂) := by
  intro r on hr
  have hrun := hp r on hr
  rw [bind_run, bind_run]
  generalize p₁ (r.sugared on) = result₁ at hrun
  generalize p₂ r = result₂ at hrun
  cases hrun with
  | ok on hview hlined => exact hq _ _ hview _ on hlined
  | error on hlined => exact .error on hlined

/-- After two phrases with the same result. -/
theorem seq (hp : Twins id p₁ p₂) (hq : ∀ a, Twins turn (q₁ a) (q₂ a)) :
    Twins turn (p₁ >>= q₁) (p₂ >>= q₂) :=
  hp.bind fun a₁ a₂ (h : a₁ = a₂) => h ▸ hq a₁

theorem map {f₁ f₂ : α → β} (hp : Twins view p₁ p₂)
    (hf : ∀ a₁ a₂, view a₁ = view a₂ → turn (f₁ a₁) = turn (f₂ a₂)) :
    Twins turn (f₁ <$> p₁) (f₂ <$> p₂) := by
  rw [map_eq_pure_bind, map_eq_pure_bind]
  exact hp.bind fun a₁ a₂ h => .pure (hf a₁ a₂ h)

theorem ite {c₁ c₂ : Prop} [Decidable c₁] [Decidable c₂] (h : c₁ ↔ c₂)
    (hp : c₂ → Twins view p₁ p₂) (hp' : ¬ c₂ → Twins view p₁' p₂') :
    Twins view (if c₁ then p₁ else p₁') (if c₂ then p₂ else p₂') := by
  by_cases hc : c₂
  · rw [if_pos hc, if_pos (h.2 hc)]
    exact hp hc
  · rw [if_neg hc, if_neg fun hc₁ => hc (h.1 hc₁)]
    exact hp' hc

/-- What follows two ways to go on is read once. -/
theorem ite_bind {c₁ c₂ : Prop} [Decidable c₁] [Decidable c₂] (h : c₁ ↔ c₂)
    (hp : c₂ → Twins view p₁ p₂) (hp' : ¬ c₂ → Twins view p₁' p₂')
    (hq : ∀ a₁ a₂, view a₁ = view a₂ → Twins turn (q₁ a₁) (q₂ a₂)) :
    Twins turn (if c₁ then p₁ >>= q₁ else p₁' >>= q₁) (if c₂ then p₂ >>= q₂ else p₂' >>= q₂) :=
  .ite h (fun hc => (hp hc).bind hq) fun hc => (hp' hc).bind hq

theorem ite_seq {c₁ c₂ : Prop} [Decidable c₁] [Decidable c₂] (h : c₁ ↔ c₂)
    (hp : c₂ → Twins id p₁ p₂) (hp' : ¬ c₂ → Twins id p₁' p₂')
    (hq : ∀ a, Twins turn (q₁ a) (q₂ a)) :
    Twins turn (if c₁ then p₁ >>= q₁ else p₁' >>= q₁) (if c₂ then p₂ >>= q₂ else p₂' >>= q₂) :=
  .ite_bind h hp hp' fun a₁ a₂ (ha : a₁ = a₂) => ha ▸ hq a₁

theorem attempt (hp : Twins view p₁ p₂) :
    Twins (Option.map view) (Parse.attempt p₁) (Parse.attempt p₂) := by
  intro r on hr
  have hrun := hp r on hr
  unfold Parse.attempt
  generalize p₁ (r.sugared on) = result₁ at hrun
  generalize p₂ r = result₂ at hrun
  cases hrun with
  | ok on hview hlined => exact .ok on (congrArg some hview) hlined
  | @error e _ on hlined =>
    cases e with
    | bail => exact .ok on rfl hlined
    | fault f => exact .error on hlined

theorem get {q₁ q₂ : Reader → Parse β} (h : ∀ r on, Twins turn (q₁ (r.sugared on)) (q₂ r)) :
    Twins turn (MonadState.get >>= q₁) (MonadState.get >>= q₂) :=
  fun r on hr => h r on r on hr

theorem modify {f : Reader → Reader}
    (h : ∀ r on, r.cursor.Lined →
      ∃ on', f (r.sugared on) = (f r).sugared on' ∧ (f r).cursor.Lined) :
    Twins id (modifyGet fun r => ((), f r)) (modifyGet fun r => ((), f r)) := by
  intro r on hr
  obtain ⟨on', heq, hlined⟩ := h r on hr
  change Twin id (.ok () (f (r.sugared on))) (.ok () (f r))
  rw [heq]
  exact .ok on' rfl hlined

/-! ### Loops -/

variable {round₁ round₂ : σ → Parse (Round σ α)} {s₁ s₂ : σ} {look : σ → τ}

theorem rounds (hround : ∀ s₁ s₂, look s₁ = look s₂ →
      Twins (Simulation.Round.map look view) (round₁ s₁) (round₂ s₂))
    (limit : Nat) (hs : look s₁ = look s₂) :
    Twins view (Parse.rounds round₁ limit s₁) (Parse.rounds round₂ limit s₂) := by
  induction limit generalizing s₁ s₂ with
  | zero => exact .fault _
  | succ limit ih =>
    refine (hround s₁ s₂ hs).bind fun result₁ result₂ hresult => ?_
    cases result₁ with
    | again s₁ =>
      cases result₂ with
      | again s₂ => exact ih (Round.again.inj hresult)
      | done a₂ => cases hresult
    | done a₁ =>
      cases result₂ with
      | again s₂ => cases hresult
      | done a₂ => exact .pure (Round.done.inj hresult)

theorem loop (look : σ → τ) (hs : look s₁ = look s₂)
    (hround : ∀ s₁ s₂, look s₁ = look s₂ →
      Twins (Simulation.Round.map look view) (round₁ s₁) (round₂ s₂)) :
    Twins view (Parse.loop s₁ round₁) (Parse.loop s₂ round₂) :=
  .get fun r _ => rounds hround r.bound hs

end Twins

/-! ### Looking at the reader -/

theorem token_twins : Twins id token token := fun _ on hr => .ok on rfl hr

theorem kind_twins : Twins id kind kind := fun _ on hr => .ok on rfl hr

theorem pos_twins : Twins id pos pos := fun _ on hr => .ok on rfl hr

theorem isFull_twins : Twins id isFull isFull := fun _ on hr => .ok on rfl hr

theorem atExprEnd_twins : Twins id atExprEnd atExprEnd := fun _ on hr => .ok on rfl hr

theorem place_twins (offset : Nat) : Twins id (place offset) (place offset) :=
  .get fun _ _ => .ite Iff.rfl (fun _ => .pure rfl) fun _ => .fault _

theorem line_twins (offset : Nat) : Twins id (line offset) (line offset) :=
  (place_twins offset).seq fun _ => .pure rfl

/-! ### Diagnostics -/

variable {γ : Type} {view : α → γ}

theorem record_sugared (r : Reader) (on : Bool) (d : Diagnostic) :
    (r.sugared on).record d = (r.record d).sugared on := by
  unfold Reader.record
  rw [apply_ite (Reader.sugared · on)]
  rfl

theorem record_lined {r : Reader} (h : r.cursor.Lined) (d : Diagnostic) :
    (r.record d).cursor.Lined := by
  unfold Reader.record
  split
  · exact h
  · exact h

theorem errorAt_twins (offset : Nat) (cause : Cause) :
    Twins id (errorAt offset cause) (errorAt offset cause) :=
  (place_twins offset).seq fun _ => .modify fun r on hr =>
    ⟨on, record_sugared r on _, record_lined hr _⟩

theorem failAt_twins (offset : Nat) (cause : Cause) :
    Twins view (failAt offset cause) (failAt offset cause) :=
  (errorAt_twins offset cause).seq fun _ => .bail

theorem failExpected_twins (wanted : String) :
    Twins view (failExpected wanted) (failExpected wanted) :=
  token_twins.seq fun _ => failAt_twins _ _

/-! ### Tokens -/

theorem moveTo_sugared (r : Reader) (on : Bool) (c : Cursor) :
    (r.sugared on).moveTo (c.setValueSugar on) = (r.moveTo c).sugared on := by
  have hrecords (errors : List ScanError) (r : Reader) :
      errors.foldl (fun r e => r.record (.ofScanError e)) (r.sugared on) =
        (errors.foldl (fun r e => r.record (.ofScanError e)) r).sugared on := by
    induction errors generalizing r with
    | nil => rfl
    | cons e rest ih => rw [List.foldl_cons, List.foldl_cons, record_sugared, ih]
  exact hrecords c.newErrors { r with cursor := c.takeErrors }

theorem moveTo_lined (r : Reader) {c : Cursor} (h : c.Lined) : (r.moveTo c).cursor.Lined := by
  have hrecords (errors : List ScanError) (r : Reader) (hr : r.cursor.Lined) :
      (errors.foldl (fun r e => r.record (.ofScanError e)) r).cursor.Lined := by
    induction errors generalizing r with
    | nil => exact hr
    | cons e rest ih => exact ih _ (record_lined hr _)
  exact hrecords c.newErrors { r with cursor := c.takeErrors } h

theorem nextWithin_twins (limit : Nat) : Twins id (nextWithin limit) (nextWithin limit) := by
  induction limit with
  | zero => exact .fault _
  | succ limit ih =>
    intro r on hr
    have hlater := moveTo_lined r (hr.reaches (Cursor.reaches_scan r.cursor))
    have hscan := Cursor.scan_setValueSugar hr on
    rw [nextWithin_succ, nextWithin_succ, show (r.sugared on).cursor.scan = _ from hscan,
      moveTo_sugared]
    refine Twins.ite Iff.rfl (fun _ => ?_) (fun _ => ?_) _ on hlater
    · refine (line_twins _).seq fun first => (line_twins _).seq fun last => ?_
      exact Twins.seq (.modify fun r on hr => ⟨on, rfl, hr⟩) fun _ => ih
    · exact .modify fun r on hr => ⟨on, rfl, hr⟩

theorem next_twins : Twins id next next := .get fun r _ => nextWithin_twins r.bound

theorem expect_twins (wanted : Token.Kind) : Twins id (expect wanted) (expect wanted) :=
  token_twins.seq fun _ => .ite Iff.rfl (fun _ => next_twins.seq fun _ => .pure rfl)
    fun _ => failExpected_twins _

theorem expectIdent_twins : Twins id expectIdent expectIdent :=
  token_twins.seq fun _ => .ite Iff.rfl (fun _ => next_twins.seq fun _ => .pure rfl)
    fun _ => failExpected_twins _

theorem accept_twins (wanted : Token.Kind) : Twins id (accept wanted) (accept wanted) :=
  kind_twins.seq fun _ => .ite Iff.rfl (fun _ => next_twins.seq fun _ => .pure rfl) fun _ =>
    .pure rfl

theorem expectSemicolon_twins : Twins id expectSemicolon expectSemicolon :=
  kind_twins.seq fun _ => .ite Iff.rfl (fun _ => next_twins) fun _ =>
    .ite Iff.rfl (fun _ => .pure rfl) fun _ => failExpected_twins _

/-- Rounds with the same state lead to the same result. -/
theorem Twins.loop_same {σ α : Type} {s : σ} {round : σ → Parse (Round σ α)}
    (hround : ∀ s, Twins id (round s) (round s)) :
    Twins id (Parse.loop s round) (Parse.loop s round) :=
  .loop id rfl fun s₁ s₂ (hs : s₁ = s₂) => hs ▸ (hround s₁).mono (Simulation.Round.map id id)

theorem skipLineBreaks_twins : Twins id skipLineBreaks skipLineBreaks :=
  .loop_same fun _ => token_twins.seq fun _ =>
    .ite Iff.rfl (fun _ => next_twins.seq fun _ => .pure rfl) fun _ => .pure rfl

theorem skipSemicolons_twins : Twins id skipSemicolons skipSemicolons :=
  .loop_same fun _ => (accept_twins _).seq fun _ => .ite Iff.rfl (fun _ => .pure rfl) fun _ =>
    .pure rfl

end Parse

end TemplateScript
