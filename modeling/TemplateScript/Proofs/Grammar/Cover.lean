import TemplateScript.Proofs.Cursor.Ahead
import TemplateScript.Proofs.Grammar.Built
import TemplateScript.Proofs.Grammar.Take

/-!
# Phrases and where they stand

What a phrase promises of the places of what it read, given the token that it began at and the one
that it ended before. The tokens of a source that is a text stand one behind the other, so a phrase
ends no sooner than it began. As with other promises, this one need only be kept by a reader that
has no diagnostic at the end.
-/

namespace TemplateScript

namespace Reader

variable {r later : Reader} {floor : Nat}

/-- All tokens to come begin behind the one in hand. -/
structure Orderly (r : Reader) : Prop where
  ahead : r.cursor.Ahead r.token.stop
  legible : r.token.IsLegible

theorem ahead_moveTo (h : r.cursor.Ahead floor) :
    floor ≤ r.cursor.scan.2.pos ∧ r.cursor.scan.2.IsLegible ∧
      (r.moveTo r.cursor.scan.1).cursor.Ahead r.cursor.scan.2.stop := by
  obtain ⟨hpos, hlegible, hahead⟩ := h.scan
  rw [moveTo_cursor]
  exact ⟨hpos, hlegible, hahead.of_eq rfl rfl rfl⟩

/-- Tokens come in order, whatever a reader does. -/
theorem Steps.orderly (h : r.Steps later) (hr : r.Orderly) :
    later.Orderly ∧ r.token.pos ≤ later.token.pos := by
  induction h with
  | refl => exact ⟨hr, Nat.le_refl _⟩
  | record _ d ih =>
    rw [record_token]
    exact ⟨⟨by rw [record_cursor, record_token]; exact ih.1.ahead,
      by rw [record_token]; exact ih.1.legible⟩, ih.2⟩
  | move _ ih =>
    obtain ⟨hpos, -, hahead⟩ := ahead_moveTo ih.1.ahead
    have hstop := Nat.le_trans hpos (Token.pos_le_stop _)
    rw [moveTo_token]
    exact ⟨⟨by rw [moveTo_token]; exact hahead.lower hstop, by rw [moveTo_token]; exact
      ih.1.legible⟩, ih.2⟩
  | take _ ih =>
    obtain ⟨hpos, hlegible, hahead⟩ := ahead_moveTo ih.1.ahead
    exact ⟨⟨hahead, hlegible⟩,
      Nat.le_trans ih.2 (Nat.le_trans (Token.pos_le_stop _) hpos)⟩
  | keepComment _ comment first last ih => exact ⟨⟨ih.1.ahead, ih.1.legible⟩, ih.2⟩
  | @apply later _ options ih =>
    have hstays := later.cursor.stays_apply options
    exact ⟨⟨ih.1.ahead.of_eq hstays.rest_eq hstays.offset_eq hstays.pool_eq, ih.1.legible⟩, ih.2⟩

end Reader

namespace Parse

variable {α β σ : Type}

/-- What came of a phrase that a reader began to read: what was promised of it and of the token
behind it, or a diagnostic. -/
def Covered (r : Reader) (promise : α → Token → Prop) : EStateM.Result Halt Reader α → Prop
  | .ok a later => r.Steps later ∧ (later.errors = [] → promise a later.token)
  | .error .bail later => r.Steps later ∧ later.errors ≠ []
  | .error (.fault _) _ => True

namespace Covered

variable {r mid : Reader} {promise less : α → Token → Prop} {result : EStateM.Result Halt Reader α}

theorem imp (h : Covered r promise result)
    (hless : ∀ a u, promise a u → less a u) : Covered r less result := by
  cases result with
  | ok a later => exact ⟨h.1, fun hnil => hless a _ (h.2 hnil)⟩
  | error e later =>
    cases e with
    | bail => exact h
    | fault f => trivial

/-- What came of a phrase is told of a reader that had read something before, too. -/
theorem after (h : Covered mid promise result) (hsteps : r.Steps mid) :
    Covered r promise result := by
  cases result with
  | ok a later => exact ⟨hsteps.trans h.1, h.2⟩
  | error e later =>
    cases e with
    | bail => exact ⟨hsteps.trans h.1, h.2⟩
    | fault f => trivial

/-- Behind a diagnostic, nothing need be promised. -/
theorem of_errors (h : SteppedTo r result) (herrors : r.errors ≠ []) :
    Covered r promise result := by
  cases result with
  | ok a later =>
    exact ⟨h, fun hnil => absurd hnil (List.IsPrefix.ne_nil h.errors_grow herrors)⟩
  | error e later =>
    cases e with
    | bail => exact ⟨h, List.IsPrefix.ne_nil h.errors_grow herrors⟩
    | fault f => trivial

end Covered

/-- Given what holds already, and from the token `t` on, the phrase keeps what it promises. -/
def Covers (given : Prop) (t : Token) (p : Parse α) (promise : α → Token → Prop) : Prop :=
  ∀ r : Reader, r.Orderly → r.token = t → Covered r (fun a u => given → promise a u) (p r)

namespace Covers

variable {given : Prop} {t : Token} {p : Parse α} {promise : α → Token → Prop}
  {last : β → Token → Prop}

theorem weaken {more : Prop} (h : Covers given t p promise) (hgiven : more → given) :
    Covers more t p promise :=
  fun r hr ht => (h r hr ht).imp fun _ _ hpromise hmore => hpromise (hgiven hmore)

theorem pure {a : α} (h : given → promise a t) : Covers given t (Pure.pure a) promise := by
  rintro r - rfl
  exact ⟨.refl, fun _ => h⟩

theorem fault {f : Fault} : Covers given t (Parse.fault f : Parse α) promise :=
  fun _ _ _ => trivial

theorem bind {q : α → Parse β} (hp : Covers given t p promise)
    (hq : ∀ a u, t.pos ≤ u.pos → Covers (promise a u ∧ given) u (q a) last) :
    Covers given t (p >>= q) last := by
  rintro r hr rfl
  have hrun := hp r hr rfl
  rw [bind_run]
  cases hpr : p r with
  | error e mid =>
    rw [hpr] at hrun
    cases e with
    | bail => exact hrun
    | fault f => trivial
  | ok a mid =>
    rw [hpr] at hrun
    obtain ⟨hsteps, hpromise⟩ := hrun
    obtain ⟨hmid, hle⟩ := hsteps.orderly hr
    have hnext := hq a mid.token hle mid hmid rfl
    change Covered r _ (q a mid)
    refine Covered.after ?_ hsteps
    cases hqr : q a mid with
    | error e later =>
      rw [hqr] at hnext
      cases e with
      | bail => exact hnext
      | fault f => trivial
    | ok b later =>
      rw [hqr] at hnext
      refine ⟨hnext.1, fun hnil hgiven => hnext.2 hnil ⟨hpromise ?_ hgiven, hgiven⟩⟩
      exact by_contra fun hne => List.IsPrefix.ne_nil hnext.1.errors_grow hne hnil

theorem promised {less : α → Token → Prop} (h : Covers given t p promise)
    (hless : ∀ a u, promise a u → less a u) : Covers given t p less :=
  fun r hr ht => (h r hr ht).imp fun a u hpromise hgiven => hless a u (hpromise hgiven)

theorem map {f : α → β} (hp : Covers given t p promise)
    (hf : given → ∀ a u, t.pos ≤ u.pos → promise a u → last (f a) u) :
    Covers given t (f <$> p) last :=
  hp.bind fun a u hu => .pure fun ⟨ha, hgiven⟩ => hf hgiven a u hu ha

/-- What follows two ways to go on is read once. -/
theorem ite_bind {c : Prop} [Decidable c] {p' : Parse α} {q : α → Parse β}
    (promise : α → Token → Prop) (hp : c → Covers given t p promise)
    (hp' : ¬ c → Covers given t p' promise)
    (hq : ∀ a u, t.pos ≤ u.pos → Covers (promise a u ∧ given) u (q a) last) :
    Covers given t (if c then p >>= q else p' >>= q) last := by
  split
  · next h => exact (hp h).bind hq
  · next h => exact (hp' h).bind hq

/-- A phrase that is given up leaves a diagnostic, so the one that goes on without it need not
promise anything. -/
theorem attempt_bind {q : Option α → Parse β} (hp : Covers given t p promise)
    (hsome : ∀ a u, t.pos ≤ u.pos → Covers (promise a u ∧ given) u (q (some a)) last)
    (hnone : Built [] (q none) fun _ => []) : Covers given t (attempt p >>= q) last := by
  intro r hr ht
  have hrun := hp r hr ht
  rw [bind_run]
  unfold attempt
  cases hpr : p r with
  | ok a mid =>
    have hboth := hp.bind hsome r hr ht
    rw [bind_run, hpr] at hboth
    exact hboth
  | error e mid =>
    rw [hpr] at hrun
    cases e with
    | bail => exact (Covered.of_errors (hnone.steps mid) hrun.2).after hrun.1
    | fault f => trivial

/-! ### Looking at the reader -/

theorem get_bind {q : Reader → Parse β} (h : ∀ r, Covers given t (q r) last) :
    Covers given t (get >>= q) last :=
  fun r hr ht => h r r hr ht

theorem token_bind {q : Token → Parse β} (h : Covers given t (q t) last) :
    Covers given t (token >>= q) last := by
  rintro r hr rfl
  exact h r hr rfl

theorem kind_bind {q : Token.Kind → Parse β} (h : Covers given t (q t.kind) last) :
    Covers given t (kind >>= q) last := by
  rintro r hr rfl
  exact h r hr rfl

theorem pos_bind {q : Pos → Parse β} (h : Covers given t (q t.pos) last) :
    Covers given t (pos >>= q) last := by
  rintro r hr rfl
  exact h r hr rfl

theorem atExprEnd_bind {q : Bool → Parse β} (h : ∀ b, Covers given t (q b) last) :
    Covers given t (atExprEnd >>= q) last := by
  unfold atExprEnd
  rw [bind_assoc]
  exact kind_bind (h _)

/-- Where no more diagnostics are wanted, there is one. -/
theorem isFull_bind {q : Bool → Parse β} (hfull : Covers False t (q true) last)
    (hmore : Covers given t (q false) last) : Covers given t (isFull >>= q) last := by
  rintro r hr rfl
  rw [Parse.isFull_bind]
  cases hisFull : r.isFull with
  | false => exact hmore r hr rfl
  | true =>
    have herrors : r.errors ≠ [] := by
      obtain ⟨hmax, hle⟩ := (Reader.isFull_iff r).1 hisFull
      exact List.length_pos_iff.1 (Nat.lt_of_lt_of_le (Nat.pos_of_ne_zero hmax) hle)
    refine Covered.of_errors ?_ herrors
    have hrun := hfull r hr rfl
    cases hqr : q true r with
    | ok b later =>
      rw [hqr] at hrun
      exact hrun.1
    | error e later =>
      rw [hqr] at hrun
      cases e with
      | bail => exact hrun.1
      | fault f => trivial

theorem line_bind {offset : Nat} {q : Nat → Parse β} (h : ∀ line, Covers given t (q line) last) :
    Covers given t (line offset >>= q) last := by
  intro r hr ht
  by_cases hsize : offset ≤ r.cursor.file.size
  · rw [bind_run_ok (line_run hsize)]
    exact h _ r hr ht
  · rw [bind_run_error (line_run_fault hsize)]
    trivial

/-! ### Reporting -/

theorem errorAt (offset : Nat) (cause : Cause) :
    Covers given t (errorAt offset cause) fun _ _ => False := by
  intro r hr ht
  unfold Parse.errorAt
  by_cases hsize : offset ≤ r.cursor.file.size
  · rw [bind_run_ok (place_run hsize)]
    exact ⟨Reader.Steps.refl.record _, fun hnil => absurd hnil (Reader.record_errors_ne r _)⟩
  · rw [bind_run_error (place_run_fault hsize)]
    trivial

theorem failAt (offset : Nat) (cause : Cause) :
    Covers given t (failAt offset cause : Parse α) promise := by
  intro r hr ht
  unfold Parse.failAt Parse.errorAt
  rw [bind_assoc]
  by_cases hsize : offset ≤ r.cursor.file.size
  · rw [bind_run_ok (place_run hsize)]
    exact ⟨Reader.Steps.refl.record _, Reader.record_errors_ne r _⟩
  · rw [bind_run_error (place_run_fault hsize)]
    trivial

theorem failExpected (wanted : String) :
    Covers given t (failExpected wanted : Parse α) promise :=
  token_bind (failAt _ _)

/-! ### Moving on -/

/-- The next token begins behind the floor, however many comments are passed over. -/
theorem nextWithin_floor {floor limit : Nat} {r later : Reader} {a : Unit}
    (hr : r.cursor.Ahead floor) (h : nextWithin limit r = .ok a later) :
    floor ≤ later.token.pos := by
  induction limit generalizing r floor with
  | zero => cases h
  | succ limit ih =>
    obtain ⟨hpos, -, hahead⟩ := Reader.ahead_moveTo hr
    rw [nextWithin_succ] at h
    split at h
    · obtain ⟨first, mid, hfirst, h⟩ := bind_run_eq_ok.1 h
      obtain ⟨last, mid', hlast, h⟩ := bind_run_eq_ok.1 h
      obtain rfl := line_stays hfirst
      obtain rfl := line_stays hlast
      have hfloor : floor ≤ r.cursor.scan.2.stop := Nat.le_trans hpos (Token.pos_le_stop _)
      let kept := (r.moveTo r.cursor.scan.1).keepComment
        ⟨r.cursor.scan.2.pos, r.cursor.scan.2.literal⟩ first last
      have hkept : kept.cursor.Ahead floor := hahead.lower hfloor
      exact ih hkept h
    · cases h
      exact hpos

theorem next_bind {q : Unit → Parse β} (h : ∀ u, t.Precedes u → Covers given u (q ()) last) :
    Covers given t (next >>= q) last := by
  rintro r hr rfl
  have hsteps := SteppedTo.nextWithin r.bound r
  rcases nextWithin_run [] False r.bound r nofun with ⟨later, -, hrun, -⟩ | ⟨-, f, later, hrun⟩
  · rw [hrun] at hsteps
    have hbehind : r.token.Precedes later.token := ⟨hr.legible, nextWithin_floor hr.ahead hrun⟩
    rw [bind_run_ok ((next_run r).trans hrun)]
    exact (h later.token hbehind later (Reader.Steps.orderly hsteps hr).1 rfl).after hsteps
  · rw [bind_run_error ((next_run r).trans hrun)]
    trivial

theorem expect_bind {wanted : Token.Kind} {q : Pos → Parse β}
    (h : ∀ u, t.kind = wanted → t.Precedes u → Covers given u (q t.pos) last) :
    Covers given t (expect wanted >>= q) last := by
  unfold expect
  rw [bind_assoc]
  refine token_bind ?_
  split
  · next hkind =>
    rw [bind_assoc]
    refine next_bind fun u hu => ?_
    exact h u hkind hu
  · rw [failExpected_bind]
    exact failExpected _

theorem expectIdent_bind {q : Ident → Parse β}
    (h : ∀ u, t.kind = .ident → t.Precedes u → Covers given u (q ⟨t.literal, t.pos⟩) last) :
    Covers given t (expectIdent >>= q) last := by
  unfold expectIdent
  rw [bind_assoc]
  refine token_bind ?_
  split
  · next hkind =>
    rw [bind_assoc]
    refine next_bind fun u hu => ?_
    exact h u hkind hu
  · rw [failExpected_bind]
    exact failExpected _

theorem accept_bind {wanted : Token.Kind} {q : Bool → Parse β}
    (hthere : ∀ u, t.kind = wanted → t.Precedes u → Covers given u (q true) last)
    (hnot : t.kind ≠ wanted → Covers given t (q false) last) :
    Covers given t (accept wanted >>= q) last := by
  unfold accept
  rw [bind_assoc]
  refine kind_bind ?_
  split
  · next hkind =>
    rw [bind_assoc]
    refine next_bind fun u hu => ?_
    exact hthere u hkind hu
  · next hkind => exact hnot hkind

theorem accept (wanted : Token.Kind) : Covers given t (accept wanted) fun _ _ => True := by
  rw [← bind_pure (Parse.accept wanted)]
  exact accept_bind (fun _ _ _ => pure fun _ => trivial) fun _ => pure fun _ => trivial

/-! ### Rounds -/

/-- What is kept by a round that is not the last, and what is promised by the last. -/
abbrev Keeps (kept : σ → Token → Prop) (promise : α → Token → Prop) :
    Round σ α → Token → Prop
  | .again s, u => kept s u
  | .done a, u => promise a u

theorem rounds {round : σ → Parse (Round σ α)} {kept : σ → Token → Prop}
    (hround : ∀ s u, t.pos ≤ u.pos → Covers (kept s u ∧ given) u (round s) (Keeps kept promise))
    (limit : Nat) (s : σ) {u : Token} (hu : t.pos ≤ u.pos) :
    Covers (kept s u ∧ given) u (Parse.rounds round limit s) promise := by
  induction limit generalizing s u with
  | zero => exact fault
  | succ limit ih =>
    unfold Parse.rounds
    refine (hround s u hu).bind fun result v hv => ?_
    cases result with
    | again s' =>
      exact (ih s' (Nat.le_trans hu hv)).weaken fun h => ⟨h.1, h.2.2⟩
    | done a => exact pure And.left

/-- What every round keeps is there in the last one. -/
theorem loop {round : σ → Parse (Round σ α)} (kept : σ → Token → Prop) {s : σ}
    (hs : given → kept s t)
    (hround : ∀ s u, t.pos ≤ u.pos → Covers (kept s u ∧ given) u (round s) (Keeps kept promise)) :
    Covers given t (Parse.loop s round) promise :=
  get_bind fun r => (rounds hround r.bound s (Nat.le_refl _)).weaken fun hgiven =>
    ⟨hs hgiven, hgiven⟩

/-- The same, where what is kept is what comes of the loop. -/
theorem loop_kept {round : σ → Parse (Round σ σ)} (kept : σ → Token → Prop) {s : σ}
    (hs : given → kept s t)
    (hround : ∀ s u, t.pos ≤ u.pos → Covers (kept s u ∧ given) u (round s) (Keeps kept kept)) :
    Covers given t (Parse.loop s round) kept :=
  loop kept hs hround

/-! ### Semicolons -/

theorem skipLineBreaks : Covers given t skipLineBreaks fun _ _ => True := by
  refine loop (fun _ _ => True) (fun _ => trivial) fun skipped u _ => token_bind ?_
  split
  · exact next_bind fun _ _ => pure fun _ => trivial
  · exact pure fun _ => trivial

theorem skipSemicolons : Covers given t skipSemicolons fun _ _ => True := by
  refine loop (fun _ _ => True) (fun _ => trivial) fun _ u _ => accept_bind ?_ ?_
  · exact fun _ _ _ => pure fun _ => trivial
  · exact fun _ => pure fun _ => trivial

theorem expectSemicolon_bind {q : Unit → Parse β}
    (h : ∀ u, t.pos ≤ u.pos → Covers given u (q ()) last) :
    Covers given t (expectSemicolon >>= q) last := by
  unfold expectSemicolon
  rw [bind_assoc]
  refine kind_bind ?_
  split
  · exact next_bind fun u hu => h u hu.le
  · split
    · exact h t (Nat.le_refl _)
    · rw [failExpected_bind]
      exact failExpected _

/-! ### Pragma options -/

theorem apply_bind (options : PragmaOptions) {q : PUnit → Parse β}
    (h : Covers given t (q ()) last) :
    Covers given t ((modify fun r => { r with cursor := r.cursor.apply options }) >>= q)
      last := by
  rintro r hr rfl
  have hsteps : r.Steps { r with cursor := r.cursor.apply options } := .apply .refl options
  exact (h _ (hsteps.orderly hr).1 rfl).after hsteps

end Covers

end Parse

end TemplateScript
