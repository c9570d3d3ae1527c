import TemplateScript.Proofs.Agree.Pooled
import TemplateScript.Proofs.Cursor.Passed
import TemplateScript.Proofs.Grammar.Cover

/-!
# Phrases and how they get on

What a phrase promises of what it read, given the token that it began at and the one that it ended
before, whether or not anything was found wrong. A reader never goes back, and no two tokens that it
takes begin at one place, the end of the file aside. So a phrase that uses a token ends before one
that begins further on.
-/

namespace TemplateScript

namespace Token

variable {t u v : Token}

/-- The later token begins further on, or nothing comes any more. -/
def Before (t u : Token) : Prop := u.kind = .eof ∨ t.kind ≠ .eof ∧ t.pos < u.pos

/-- The tokens are the same one, or the later one begins further on. -/
def UpTo (t u : Token) : Prop := u = t ∨ t.Before u

theorem Before.upTo (h : t.Before u) : t.UpTo u := .inr h

theorem UpTo.refl (t : Token) : t.UpTo t := .inl rfl

theorem Before.trans (h : t.Before u) (k : u.Before v) : t.Before v := by
  rcases k with heof | ⟨hne, hlt⟩
  · exact .inl heof
  · obtain ⟨hne, hlt'⟩ := h.resolve_left hne
    exact .inr ⟨hne, Nat.lt_trans hlt' hlt⟩

theorem Before.then (h : t.Before u) (k : u.UpTo v) : t.Before v := by
  rcases k with rfl | k
  · exact h
  · exact h.trans k

theorem UpTo.before (h : t.UpTo u) (k : u.Before v) : t.Before v := by
  rcases h with rfl | h
  · exact k
  · exact h.trans k

theorem UpTo.trans (h : t.UpTo u) (k : u.UpTo v) : t.UpTo v := by
  rcases h with rfl | h
  · exact k
  · exact (h.then k).upTo

end Token

namespace Cursor

variable {c : Cursor} {t : Token}

theorem apply_pending (h : c.pending = false) (options : PragmaOptions) :
    (c.apply options).pending = false := by
  have hset (c : Cursor) (on : Bool) (h : c.pending = false) : (c.setMixed on).pending = false := by
    unfold setMixed
    split
    · exact h
    · rfl
  unfold apply
  cases options.mixed <;> cases options.floatsAsDecimal <;> cases options.charAsString <;>
    cases options.valueSugar <;> first | exact h | exact hset _ _ h

theorem Passed.apply {tokens : List Token} (h : c.Passed tokens) (options : PragmaOptions) :
    (c.apply options).Passed tokens :=
  h.of_eq (c.stays_apply options).offset_eq (c.stays_apply options).rest_eq
    fun hpending => apply_pending hpending options

end Cursor

namespace Reader

open Parse

variable {source : List Glyph} {r later : Reader} {t : Token}

/-- The tokens to come begin at places of their own. -/
structure Sharp (source : List Glyph) (r : Reader) : Prop extends r.Orderly where
  inSource : r.InSource source
  strict : r.cursor.Strict
  leaves : r.cursor.Leaves r.token

theorem Sharp.pos_le (h : r.Sharp source) : r.token.pos ≤ Glyph.widths source :=
  Nat.le_trans h.inSource.token h.inSource.cursor.offset_le

/-- At the end of a pragma line, options may be set. -/
theorem Sharp.apply (h : r.Sharp source) (hkind : r.token.kind = .pragmaEnd)
    (options : PragmaOptions) :
    Sharp source { r with cursor := r.cursor.apply options } := by
  have hsteps : r.Steps { r with cursor := r.cursor.apply options } := .apply .refl options
  have hpool : (r.cursor.apply options).pool = r.cursor.pool :=
    (r.cursor.stays_apply options).pool_eq
  refine { (hsteps.orderly h.toOrderly).1 with
    inSource := hsteps.inSource h.inSource
    strict := ⟨?_, ?_⟩
    leaves := ?_ }
  · unfold Cursor.PoolInner
    rw [hpool]
    exact h.strict.inner
  · rw [hpool]
    exact h.strict.passed.apply options
  · cases h.leaves with
    | passed hne hpassed => exact .passed hne (by rw [hpool]; exact hpassed.apply options)
    | semicolon hsemicolon => cases hkind.symm.trans hsemicolon
    | eof heof => cases hkind.symm.trans heof

theorem Sharp.record (h : r.Sharp source) (d : Diagnostic) : (r.record d).Sharp source := by
  have hsteps : r.Steps (r.record d) := .record .refl d
  refine { (hsteps.orderly h.toOrderly).1 with
    inSource := hsteps.inSource h.inSource
    strict := ?_
    leaves := ?_ }
  · rw [record_cursor]
    exact h.strict
  · rw [record_cursor, record_token]
    exact h.leaves

/-- The next token begins further on than one that the cursor has left, however many comments are
passed over. -/
theorem sharp_nextWithin {limit floor : Nat} (hahead : r.cursor.Ahead floor)
    (hin : r.InSource source) (hstrict : r.cursor.Strict) (h : nextWithin limit r = .ok () later) :
    later.Sharp source ∧ ∀ t, r.cursor.Clears t →
      later.token.kind = .eof ∨ t.pos < later.token.pos := by
  induction limit generalizing r floor with
  | zero => cases h
  | succ limit ih =>
    obtain ⟨-, hlegible, hbehind⟩ := ahead_moveTo hahead
    obtain ⟨hscanned, hleaves⟩ := hstrict.scan hahead.isText
    rw [nextWithin_succ] at h
    split at h
    · next hcomment =>
      obtain ⟨first, mid, hfirst, h⟩ := bind_run_eq_ok.1 h
      obtain ⟨last, mid', hlast, h⟩ := bind_run_eq_ok.1 h
      obtain rfl := line_stays hfirst
      obtain rfl := line_stays hlast
      let kept := (r.moveTo r.cursor.scan.1).keepComment
        ⟨r.cursor.scan.2.pos, r.cursor.scan.2.literal⟩ first last
      have hkept : kept.cursor = r.cursor.scan.1.takeErrors := moveTo_cursor ..
      have hsteps : r.Steps kept := .keepComment (.move .refl) _ first last
      obtain ⟨hlater, hcleared⟩ :=
        ih (r := kept) hbehind (hsteps.inSource hin) (hkept ▸ hscanned.takeErrors) h
      refine ⟨hlater, fun t hclears => hcleared t (.inr (.inl ?_))⟩
      have hle : t.pos ≤ r.cursor.scan.2.pos := by
        rcases hclears with heof | hlt | ⟨-, hle⟩
        · cases hcomment.symm.trans heof
        · exact Nat.le_of_lt hlt
        · exact hle
      have hwide : r.cursor.scan.2.pos < r.cursor.scan.2.stop :=
        Token.lt_stop (by simp [Token.isWritten, Token.isInsertedSemicolon, hcomment])
      have hnext : r.cursor.scan.2.stop ≤ kept.cursor.scan.2.pos := hbehind.scan.1
      exact Nat.lt_of_le_of_lt hle (Nat.lt_of_lt_of_le hwide hnext)
    · next hcomment =>
      have hsteps : r.Steps { r.moveTo r.cursor.scan.1 with
          token := r.cursor.scan.2, commentEnd := none } := .take .refl
      have hmoved : (r.moveTo r.cursor.scan.1).cursor = r.cursor.scan.1.takeErrors :=
        moveTo_cursor ..
      cases h
      refine ⟨⟨⟨hbehind, hlegible⟩, hsteps.inSource hin, ?_, ?_⟩, fun t hclears => ?_⟩
      · exact show (r.moveTo r.cursor.scan.1).cursor.Strict from hmoved ▸ hscanned.takeErrors
      · exact show (r.moveTo r.cursor.scan.1).cursor.Leaves _ from hmoved ▸ hleaves.takeErrors
      · exact hclears.imp_right (Or.resolve_right · fun hno => hcomment hno.1)

theorem nextWithin_eof {limit : Nat} (hkind : r.cursor.scan.2.kind = .eof)
    (h : nextWithin limit r = .ok () later) : later.token.kind = .eof := by
  cases limit with
  | zero => cases h
  | succ limit =>
    rw [nextWithin_succ, if_neg (by simp [hkind])] at h
    cases h
    exact hkind

/-- Whatever a reader takes next begins further on. -/
theorem Sharp.next (h : r.Sharp source) (hrun : Parse.next r = .ok () later) :
    later.Sharp source ∧ r.token.Before later.token := by
  rw [next_run] at hrun
  obtain ⟨hlater, hcleared⟩ := sharp_nextWithin h.ahead h.inSource h.strict hrun
  refine ⟨hlater, ?_⟩
  by_cases hkind : r.token.kind = .eof
  · exact .inl (nextWithin_eof (h.leaves.eof_next hkind) hrun)
  · have hclears := h.leaves.clears h.ahead.isText
    exact (hcleared r.token hclears).imp_right fun hlt => ⟨hkind, hlt⟩

end Reader

namespace Parse

variable {α β σ : Type} {source : List Glyph}

/-- What came of a phrase that a reader began to read: what was promised of it and of the token
behind it, or that it was given up. -/
def Yielded (source : List Glyph) (t : Token) (promise : α → Token → Prop) :
    EStateM.Result Halt Reader α → Prop
  | .ok a later => later.Sharp source ∧ t.UpTo later.token ∧ promise a later.token
  | .error .bail later => later.Sharp source ∧ t.UpTo later.token
  | .error (.fault _) _ => True

namespace Yielded

variable {t u : Token} {promise less : α → Token → Prop} {result : EStateM.Result Halt Reader α}

theorem imp (h : Yielded source t promise result)
    (hless : ∀ a v, t.UpTo v → promise a v → less a v) : Yielded source t less result := by
  cases result with
  | ok a later => exact ⟨h.1, h.2.1, hless a _ h.2.1 h.2.2⟩
  | error e later =>
    cases e with
    | bail => exact h
    | fault f => trivial

theorem after (h : Yielded source u promise result) (htu : t.UpTo u) :
    Yielded source t promise result := by
  cases result with
  | ok a later => exact ⟨h.1, htu.trans h.2.1, h.2.2⟩
  | error e later =>
    cases e with
    | bail => exact ⟨h.1, htu.trans h.2⟩
    | fault f => trivial

end Yielded

/-- From the token `t` on, the phrase keeps what it promises. -/
def Yields (source : List Glyph) (t : Token) (p : Parse α) (promise : α → Token → Prop) : Prop :=
  ∀ r : Reader, r.Sharp source → r.token = t → Yielded source t promise (p r)

/-- A phrase built of operations gets on. -/
theorem Built.yields {known : List Nat} {p : Parse α} {marks : α → List Nat}
    (h : Built known p marks) (t : Token) : Yields source t p fun _ _ => True := by
  intro r hr ht
  induction h generalizing r t with
  | pure => exact ⟨hr, .inl ht, trivial⟩
  | @bind _ _ _ p q _ _ _ _ ihp ihq =>
    have hp := ihp t r hr ht
    rw [bind_run]
    cases hpr : p r with
    | ok a later =>
      rw [hpr] at hp
      exact (ihq a later.token later hp.1 rfl).after hp.2.1
    | error e later =>
      rw [hpr] at hp
      cases e with
      | bail => exact hp
      | fault f => trivial
  | look _ ih => exact ih r.cursor t r hr ht
  | token => exact ⟨hr, .inl ht, trivial⟩
  | isFull => exact ⟨hr, .inl ht, trivial⟩
  | bail => exact ⟨hr, .inl ht⟩
  | fault f => trivial
  | @attempt _ _ p _ _ ih =>
    have hp := ih t r hr ht
    unfold Parse.attempt
    cases hpr : p r with
    | ok a later =>
      rw [hpr] at hp
      exact hp
    | error e later =>
      rw [hpr] at hp
      cases e with
      | bail => exact ⟨hp.1, hp.2, trivial⟩
      | fault f => trivial
  | @errorAt _ offset _ cause =>
    unfold Parse.errorAt
    by_cases hsize : offset ≤ r.cursor.file.size
    · rw [bind_run_ok (place_run hsize)]
      exact ⟨hr.record _, .inl ((Reader.record_token r _).trans ht), trivial⟩
    · rw [bind_run_error (place_run_fault hsize)]
      trivial
  | next =>
    subst ht
    rcases nextWithin_run [] False r.bound r nofun with ⟨later, -, hrun, -⟩ | ⟨-, f, later, hrun⟩
    · obtain ⟨hlater, hbefore⟩ := hr.next ((next_run r).trans hrun)
      rw [next_run, hrun]
      exact ⟨hlater, hbefore.upTo, trivial⟩
    · rw [next_run, hrun]
      trivial
  | apply options _ _ ihp ihq =>
    rw [kind_bind]
    split
    · next hkind => exact ihp t _ (hr.apply hkind options) ht
    · exact ihq t r hr ht

namespace Yields

variable {t : Token} {p : Parse α} {promise : α → Token → Prop} {last : β → Token → Prop}

theorem pure {a : α} (h : promise a t) : Yields source t (Pure.pure a) promise := by
  rintro r hr rfl
  exact ⟨hr, .refl _, h⟩

theorem fault {f : Fault} : Yields source t (Parse.fault f : Parse α) promise :=
  fun _ _ _ => trivial

theorem bind {q : α → Parse β} (hp : Yields source t p promise)
    (hq : ∀ a u, t.UpTo u → promise a u → Yields source u (q a) last) :
    Yields source t (p >>= q) last := by
  rintro r hr rfl
  have hrun := hp r hr rfl
  rw [bind_run]
  cases hpr : p r with
  | ok a mid =>
    rw [hpr] at hrun
    exact (hq a mid.token hrun.2.1 hrun.2.2 mid hrun.1 rfl).after hrun.2.1
  | error e mid =>
    rw [hpr] at hrun
    cases e with
    | bail => exact hrun
    | fault f => trivial

/-- Any phrase gets on that is built of operations. -/
theorem of_built {marks : α → List Nat} (hp : Built [] p marks) :
    Yields source t p fun _ _ => True := hp.yields t

/-- What promises nothing may come before anything. -/
theorem seq {marks : α → List Nat} {q : α → Parse β} (hp : Built [] p marks)
    (hq : ∀ a u, t.UpTo u → Yields source u (q a) last) : Yields source t (p >>= q) last :=
  (of_built hp).bind fun a u hu _ => hq a u hu

theorem promised {less : α → Token → Prop} (h : Yields source t p promise)
    (hless : ∀ a u, t.UpTo u → promise a u → less a u) : Yields source t p less :=
  fun r hr ht => (h r hr ht).imp hless

/-- A phrase ends before a token that is behind all that the one it begins at is behind. -/
theorem begun {s : Token} (hs : s.Before t) (h : Yields source t p promise) :
    Yields source t p fun a u => s.Before u ∧ promise a u :=
  h.promised fun _ _ hu ha => ⟨hs.then hu, ha⟩

theorem map {f : α → β} (hp : Yields source t p promise)
    (hf : ∀ a u, t.UpTo u → promise a u → last (f a) u) : Yields source t (f <$> p) last :=
  hp.bind fun a u hu ha => .pure (hf a u hu ha)

/-- What follows two ways to go on is read once. -/
theorem ite_bind {c : Prop} [Decidable c] {p' : Parse α} {q : α → Parse β}
    (promise : α → Token → Prop) (hp : c → Yields source t p promise)
    (hp' : ¬ c → Yields source t p' promise)
    (hq : ∀ a u, t.UpTo u → promise a u → Yields source u (q a) last) :
    Yields source t (if c then p >>= q else p' >>= q) last := by
  split
  · next h => exact (hp h).bind hq
  · next h => exact (hp' h).bind hq

theorem attempt_bind {q : Option α → Parse β} (hp : Yields source t p promise)
    (hsome : ∀ a u, t.UpTo u → promise a u → Yields source u (q (some a)) last)
    (hnone : ∀ u, t.UpTo u → Yields source u (q none) last) :
    Yields source t (attempt p >>= q) last := by
  rintro r hr rfl
  have hrun := hp r hr rfl
  rw [bind_run]
  unfold attempt
  cases hpr : p r with
  | ok a mid =>
    rw [hpr] at hrun
    exact (hsome a mid.token hrun.2.1 hrun.2.2 mid hrun.1 rfl).after hrun.2.1
  | error e mid =>
    rw [hpr] at hrun
    cases e with
    | bail => exact (hnone mid.token hrun.2 mid hrun.1 rfl).after hrun.2
    | fault f => trivial

/-! ### Looking at the reader -/

theorem get_bind {q : Reader → Parse β}
    (h : ∀ r : Reader, r.Sharp source → r.token = t → Yields source t (q r) last) :
    Yields source t (get >>= q) last :=
  fun r hr ht => h r hr ht r hr ht

theorem token_bind {q : Token → Parse β} (h : Yields source t (q t) last) :
    Yields source t (token >>= q) last := by
  rintro r hr rfl
  exact h r hr rfl

theorem kind_bind {q : Token.Kind → Parse β} (h : Yields source t (q t.kind) last) :
    Yields source t (kind >>= q) last := by
  rintro r hr rfl
  exact h r hr rfl

theorem pos_bind {q : Pos → Parse β} (h : Yields source t (q t.pos) last) :
    Yields source t (pos >>= q) last := by
  rintro r hr rfl
  exact h r hr rfl

/-- The token in hand begins in the source. -/
theorem bounded (h : t.pos ≤ Glyph.widths source → Yields source t p promise) :
    Yields source t p promise := by
  rintro r hr rfl
  exact h hr.pos_le r hr rfl

theorem isFull_bind {q : Bool → Parse β} (h : ∀ full, Yields source t (q full) last) :
    Yields source t (isFull >>= q) last := by
  rintro r hr rfl
  exact h r.isFull r hr rfl

theorem atExprEnd_bind {q : Bool → Parse β} (h : ∀ ends, Yields source t (q ends) last) :
    Yields source t (atExprEnd >>= q) last := by
  unfold atExprEnd
  rw [bind_assoc]
  exact kind_bind (h _)

/-! ### Reporting -/

theorem bail : Yields source t (Parse.bail : Parse α) promise :=
  fun _ hr ht => ⟨hr, .inl ht⟩

theorem errorAt_bind (offset : Nat) (cause : Cause) {q : Unit → Parse β}
    (h : Yields source t (q ()) last) : Yields source t (errorAt offset cause >>= q) last := by
  intro r hr ht
  unfold Parse.errorAt
  rw [bind_assoc]
  by_cases hsize : offset ≤ r.cursor.file.size
  · rw [bind_run_ok (place_run hsize)]
    exact h _ (hr.record _) ((Reader.record_token r _).trans ht)
  · rw [bind_run_error (place_run_fault hsize)]
    trivial

theorem failAt (offset : Nat) (cause : Cause) :
    Yields source t (failAt offset cause : Parse α) promise :=
  errorAt_bind offset cause bail

theorem failExpected (wanted : String) :
    Yields source t (failExpected wanted : Parse α) promise :=
  token_bind (failAt _ _)

/-! ### Moving on -/

theorem next_bind {q : Unit → Parse β} (h : ∀ u, t.Before u → Yields source u (q ()) last) :
    Yields source t (next >>= q) last := by
  rintro r hr rfl
  rcases nextWithin_run [] False r.bound r nofun with ⟨later, -, hrun, -⟩ | ⟨-, f, later, hrun⟩
  · obtain ⟨hlater, hbefore⟩ := hr.next ((next_run r).trans hrun)
    rw [bind_run_ok ((next_run r).trans hrun)]
    exact (h later.token hbefore later hlater rfl).after hbefore.upTo
  · rw [bind_run_error ((next_run r).trans hrun)]
    trivial

theorem expect_bind {wanted : Token.Kind} {q : Pos → Parse β}
    (h : ∀ u, t.kind = wanted → t.Before u → Yields source u (q t.pos) last) :
    Yields source t (expect wanted >>= q) last := by
  unfold expect
  rw [bind_assoc]
  refine token_bind ?_
  split
  · next hkind =>
    rw [bind_assoc]
    refine next_bind fun u hu => ?_
    exact h u hkind hu
  · rw [failExpected_bind]
    exact failExpected _

theorem expectIdent_bind {q : Ident → Parse β}
    (h : ∀ u, t.Before u → Yields source u (q ⟨t.literal, t.pos⟩) last) :
    Yields source t (expectIdent >>= q) last := by
  unfold expectIdent
  rw [bind_assoc]
  refine token_bind ?_
  split
  · rw [bind_assoc]
    refine next_bind fun u hu => ?_
    exact h u hu
  · rw [failExpected_bind]
    exact failExpected _

theorem accept_bind {wanted : Token.Kind} {q : Bool → Parse β}
    (hthere : ∀ u, t.Before u → Yields source u (q true) last)
    (hnot : t.kind ≠ wanted → Yields source t (q false) last) :
    Yields source t (accept wanted >>= q) last := by
  unfold accept
  rw [bind_assoc]
  refine kind_bind ?_
  split
  · rw [bind_assoc]
    refine next_bind fun u hu => ?_
    exact hthere u hu
  · next hkind => exact hnot hkind

theorem expectSemicolon_bind {q : Unit → Parse β}
    (h : ∀ u, t.UpTo u → Yields source u (q ()) last) :
    Yields source t (expectSemicolon >>= q) last :=
  .seq expectSemicolon_built fun _ => h

theorem apply_bind (hkind : t.kind = .pragmaEnd) (options : PragmaOptions) {q : PUnit → Parse β}
    (h : Yields source t (q ()) last) :
    Yields source t ((modify fun r => { r with cursor := r.cursor.apply options }) >>= q)
      last := by
  rintro r hr rfl
  exact h _ (hr.apply hkind options) rfl

/-! ### Rounds -/

/-- What is kept by a round that is not the last, and what is promised by the last. -/
abbrev Keeps (kept : σ → Token → Prop) (promise : α → Token → Prop) :
    Round σ α → Token → Prop
  | .again s, u => kept s u
  | .done a, u => promise a u

theorem rounds {round : σ → Parse (Round σ α)} {kept : σ → Token → Prop}
    (hround : ∀ s u, kept s u → Yields source u (round s) (Keeps kept promise)) (limit : Nat)
    {s : σ} (hs : kept s t) : Yields source t (Parse.rounds round limit s) promise := by
  induction limit generalizing s t with
  | zero => exact fault
  | succ limit ih =>
    unfold Parse.rounds
    refine (hround s t hs).bind fun result u _ hresult => ?_
    cases result with
    | again s' => exact ih hresult
    | done a => exact pure hresult

/-- What every round keeps is there in the last one. -/
theorem loop {round : σ → Parse (Round σ α)} (kept : σ → Token → Prop) {s : σ} (hs : kept s t)
    (hround : ∀ s u, kept s u → Yields source u (round s) (Keeps kept promise)) :
    Yields source t (Parse.loop s round) promise :=
  get_bind fun r _ _ => rounds hround r.bound hs

end Yields

end Parse

end TemplateScript
