import TemplateScript.Proofs.Grammar.Steps

/-!
# What phrases are built of

Every phrase is put together of a few operations on a reader. So a property of phrases that these
operations have, and that is kept when one phrase follows another, is proved by induction on how a
phrase is built, once and not for every phrase.

What a phrase reports about is the place of something that was read before, so the rules keep track
of the offsets that are known when a phrase begins, and of those that it leaves behind.
-/

namespace TemplateScript

namespace Parse

variable {α β σ : Type}

/-- The phrase is built of operations on a reader. It reports only about offsets that are known, and
makes known the `marks` of what it reads. -/
inductive Built : {α : Type} → List Nat → Parse α → (α → List Nat) → Prop
  | pure {α : Type} {known : List Nat} {a : α} {marks : α → List Nat} (h : marks a ⊆ known) :
    Built known (Pure.pure a) marks
  | bind {α β : Type} {known : List Nat} {p : Parse α} {q : α → Parse β} {marks : α → List Nat}
    {last : β → List Nat} (hp : Built known p marks)
    (hq : ∀ a, Built (marks a ++ known) (q a) last) : Built known (p >>= q) last
  | look {α : Type} {known : List Nat} {q : Cursor → Parse α} {marks : α → List Nat}
    (hq : ∀ c, Built known (q c) marks) : Built known (get >>= fun r => q r.cursor) marks
  | token {known : List Nat} : Built known token fun t => [t.pos]
  | isFull {known : List Nat} : Built known isFull fun _ => []
  | bail {α : Type} {known : List Nat} {marks : α → List Nat} :
    Built known (Parse.bail : Parse α) marks
  | fault {α : Type} {known : List Nat} {marks : α → List Nat} (f : Fault) :
    Built known (Parse.fault f : Parse α) marks
  | attempt {α : Type} {known : List Nat} {p : Parse α} {marks : α → List Nat}
    (hp : Built known p marks) : Built known (attempt p) fun a? => a?.elim [] marks
  | errorAt {known : List Nat} {offset : Nat} (h : offset ∈ known) (cause : Cause) :
    Built known (errorAt offset cause) fun _ => []
  | next {known : List Nat} : Built known next fun _ => []
  /-- Options are set at the end of a pragma line, and nowhere else. -/
  | apply {α : Type} {known : List Nat} {p q : Parse α} {marks : α → List Nat}
    (options : PragmaOptions) (hp : Built known p marks) (hq : Built known q marks) :
    Built known (kind >>= fun kind => if kind = .pragmaEnd then
      (modify fun r => { r with cursor := r.cursor.apply options }) >>= fun _ => p else q) marks

namespace Built

variable {known more : List Nat} {p : Parse α} {marks : α → List Nat}

/-- More may be known than a phrase needs. -/
theorem weaken (h : Built known p marks) (hmore : known ⊆ more) : Built more p marks := by
  induction h generalizing more with
  | pure h => exact .pure (List.Subset.trans h hmore)
  | bind _ _ ihp ihq =>
    exact .bind (ihp hmore) fun a => ihq a <| List.append_subset.2
      ⟨List.subset_append_left .., List.Subset.trans hmore (List.subset_append_right ..)⟩
  | look _ ih => exact .look fun c => ih c hmore
  | token => exact .token
  | isFull => exact .isFull
  | bail => exact .bail
  | fault f => exact .fault f
  | attempt _ ih => exact .attempt (ih hmore)
  | errorAt h cause => exact .errorAt (hmore h) cause
  | next => exact .next
  | apply options _ _ ihp ihq => exact .apply options (ihp hmore) (ihq hmore)

/-- What a phrase needs no offset for may begin anywhere. -/
theorem anywhere (h : Built [] p marks) : Built known p marks := h.weaken (List.nil_subset _)

theorem marked {less : α → List Nat} (h : Built known p marks)
    (hless : ∀ a, less a ⊆ marks a ++ known) : Built known p less := by
  rw [← bind_pure p]
  exact h.bind fun a => .pure (hless a)

/-- Of what is read, nothing need be known. -/
theorem unmarked (h : Built known p marks) : Built known p fun _ => [] :=
  h.marked fun _ => List.nil_subset _

theorem map {f : α → β} {last : β → List Nat} (h : Built known p marks)
    (hf : ∀ a, last (f a) ⊆ marks a ++ known) : Built known (f <$> p) last :=
  h.bind fun a => .pure (hf a)

/-- What follows two ways to go on is read once. -/
theorem ite_bind {c : Prop} [Decidable c] {p' : Parse α} {q : α → Parse β} {last : β → List Nat}
    (hp : Built known p marks) (hp' : Built known p' marks)
    (hq : ∀ a, Built (marks a ++ known) (q a) last) :
    Built known (if c then p >>= q else p' >>= q) last := by
  split
  · exact hp.bind hq
  · exact hp'.bind hq

/-- What makes nothing known may come before anything. -/
theorem seq {q : α → Parse β} {last : β → List Nat} (hp : Built known p fun _ => [])
    (hq : ∀ a, Built known (q a) last) : Built known (p >>= q) last :=
  hp.bind hq

/-- The same, where there are two ways to go on. -/
theorem ite_seq {c : Prop} [Decidable c] {p' : Parse α} {q : α → Parse β} {last : β → List Nat}
    (hp : Built known p fun _ => []) (hp' : Built known p' fun _ => [])
    (hq : ∀ a, Built known (q a) last) :
    Built known (if c then p >>= q else p' >>= q) last :=
  hp.ite_bind hp' hq

/-! ### Rounds -/

theorem rounds {round : σ → Parse (Round σ α)} {kept : σ → List Nat} (limit : Nat)
    (hround : ∀ s known, kept s ⊆ known → Built known (round s) fun
      | .again s' => kept s'
      | .done a => marks a) {s : σ} (hs : kept s ⊆ known) :
    Built known (Parse.rounds round limit s) marks := by
  induction limit generalizing s known with
  | zero => exact .fault _
  | succ limit ih =>
    unfold Parse.rounds
    refine (hround s known hs).bind fun result => ?_
    cases result with
    | again s' => exact ih (List.subset_append_left ..)
    | done a => exact .pure (List.subset_append_left ..)

/-- A loop is built of its rounds, if each makes known what the next one needs. -/
theorem loop {round : σ → Parse (Round σ α)} (kept : σ → List Nat) {s : σ} (hs : kept s ⊆ known)
    (hround : ∀ s known, kept s ⊆ known → Built known (round s) fun
      | .again s' => kept s'
      | .done a => marks a) : Built known (Parse.loop s round) marks :=
  .look (q := fun c => Parse.rounds round (c.bound + 2) s) fun _ => rounds _ hround hs

end Built

/-! ### Operations -/

section Operations

variable {known : List Nat} {marks : α → List Nat}

theorem kind_built : Built known kind fun _ => [] :=
  .bind .token fun _ => .pure (List.nil_subset _)

theorem pos_built : Built known pos fun pos => [pos] :=
  .bind .token fun _ => .pure (List.subset_append_left ..)

theorem place_built (offset : Nat) : Built known (place offset) fun _ => [] := by
  refine .look (q := fun c =>
    if offset ≤ c.file.size then Pure.pure (c.file.place offset)
    else Parse.fault (.positionOutOfRange (c.file.base + offset) c.file.name)) fun c => ?_
  split
  · exact .pure (List.nil_subset _)
  · exact .fault _

theorem line_built (offset : Nat) : Built known (line offset) fun _ => [] :=
  .bind (place_built offset) fun _ => .pure (List.nil_subset _)

theorem failAt_built {offset : Nat} (h : offset ∈ known) (cause : Cause) :
    Built known (failAt offset cause : Parse α) marks :=
  .bind (.errorAt h cause) fun _ => .bail

theorem failExpected_built (wanted : String) :
    Built known (failExpected wanted : Parse α) marks :=
  .bind .token fun _ => failAt_built (by simp) _

theorem expect_built (wanted : Token.Kind) : Built known (expect wanted) fun pos => [pos] := by
  refine .bind .token fun t => ?_
  split
  · exact .bind .next fun _ => .pure (by simp)
  · exact failExpected_built _

theorem expectIdent_built : Built known expectIdent fun ident => [ident.pos] := by
  refine .bind .token fun t => ?_
  split
  · exact .bind .next fun _ => .pure (by simp)
  · exact failExpected_built _

theorem accept_built (wanted : Token.Kind) : Built known (accept wanted) fun _ => [] := by
  refine .bind kind_built fun kind => ?_
  split
  · exact .bind .next fun _ => .pure (by simp)
  · exact .pure (by simp)

theorem expectSemicolon_built : Built known expectSemicolon fun _ => [] := by
  refine .bind kind_built fun kind => ?_
  split
  · exact .next
  · split
    · exact .pure (by simp)
    · exact failExpected_built _

theorem skipLineBreaks_built : Built known skipLineBreaks fun _ => [] := by
  refine .loop (fun _ => []) (by simp) fun skipped known _ => .bind .token fun t => ?_
  split
  · exact .bind .next fun _ => .pure (by simp)
  · exact .pure (by simp)

theorem skipSemicolons_built : Built known skipSemicolons fun _ => [] := by
  refine .loop (fun _ => []) (by simp) fun _ known _ => .bind (accept_built _) fun accepted => ?_
  split
  · exact .pure (by simp)
  · exact .pure (by simp)

theorem atExprEnd_built : Built known atExprEnd fun _ => [] :=
  .bind kind_built fun _ => .pure (by simp)

end Operations

/-! ### Steps -/

/-- The reader behind a phrase came there in steps. -/
def SteppedTo (r : Reader) : EStateM.Result Halt Reader α → Prop
  | .ok _ later => r.Steps later
  | .error .bail later => r.Steps later
  | .error (.fault _) _ => True

namespace SteppedTo

variable {r mid : Reader}

theorem after {result : EStateM.Result Halt Reader α} (h : r.Steps mid)
    (hresult : SteppedTo mid result) : SteppedTo r result := by
  cases result with
  | ok a later => exact h.trans hresult
  | error e later =>
    cases e with
    | bail => exact h.trans hresult
    | fault f => trivial

theorem bind {p : Parse α} {q : α → Parse β} (hp : SteppedTo r (p r))
    (hq : ∀ a later, SteppedTo later (q a later)) : SteppedTo r ((p >>= q) r) := by
  rw [bind_run]
  cases hpr : p r with
  | ok a later =>
    rw [hpr] at hp
    exact (hq a later).after hp
  | error e later =>
    rw [hpr] at hp
    cases e with
    | bail => exact hp
    | fault f => trivial

/-- To look a place up is no step. -/
theorem place_bind {offset : Nat} {q : Place → Parse α}
    (hq : ∀ place, SteppedTo r (q place r)) : SteppedTo r ((place offset >>= q) r) := by
  by_cases hsize : offset ≤ r.cursor.file.size
  · rw [bind_run_ok (place_run hsize)]
    exact hq _
  · rw [bind_run_error (place_run_fault hsize)]
    trivial

theorem line_bind {offset : Nat} {q : Nat → Parse α} (hq : ∀ line, SteppedTo r (q line r)) :
    SteppedTo r ((line offset >>= q) r) := by
  unfold line
  rw [bind_assoc]
  exact place_bind fun place => hq place.line

theorem nextWithin (limit : Nat) (r : Reader) : SteppedTo r (nextWithin limit r) := by
  induction limit generalizing r with
  | zero => trivial
  | succ limit ih =>
    rw [nextWithin_succ]
    split
    · exact .after (Reader.Steps.refl.move) <| .line_bind fun first => .line_bind fun last =>
        (ih _).after (Reader.Steps.keepComment .refl _ first last)
    · exact .take .refl

end SteppedTo

theorem Built.steps {known : List Nat} {p : Parse α} {marks : α → List Nat}
    (h : Built known p marks) (r : Reader) : SteppedTo r (p r) := by
  induction h generalizing r with
  | pure => exact .refl
  | bind _ _ ihp ihq => exact (ihp r).bind ihq
  | look _ ih => exact ih r.cursor r
  | token => exact .refl
  | isFull => exact .refl
  | bail => exact .refl
  | fault f => trivial
  | @attempt _ _ p _ _ ih =>
    have hp := ih r
    unfold Parse.attempt
    cases hpr : p r with
    | ok a later =>
      rw [hpr] at hp
      exact hp
    | error e later =>
      rw [hpr] at hp
      cases e with
      | bail => exact hp
      | fault f => trivial
  | errorAt _ cause => exact .place_bind fun place => .record .refl _
  | next => exact .nextWithin _ r
  | apply options _ _ ihp ihq =>
    rw [kind_bind]
    split
    · exact (ihp _).after (.apply .refl options)
    · exact ihq r

end Parse

end TemplateScript
