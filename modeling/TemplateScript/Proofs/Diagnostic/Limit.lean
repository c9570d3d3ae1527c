import TemplateScript.Proofs.Diagnostic.Lines
import TemplateScript.Proofs.Finish.Source

/-!
# The limit on diagnostics

Parsing a source with a limit on its diagnostics and parsing it without go in step until the limit is
reached. From then on the one with the limit records nothing more, whatever it still reads, and the
other one loses nothing that was recorded before. So the limit only cuts the list off, and if it is
never reached it changes nothing.
-/

namespace TemplateScript

open Parse

namespace Reader

variable {limit : Nat} {whole capped whole' capped' : Reader}

/-- The readers differ in nothing but the limit, which only the second has and has not reached. -/
structure InStep (limit : Nat) (whole capped : Reader) : Prop where
  unlimited : whole.maxErrors = 0
  below : whole.errors.length < limit
  capped_eq : capped = { whole with maxErrors := limit }

/-- The second reader has reached its limit, with what the first one recorded to begin with. -/
structure Parted (limit : Nat) (whole capped : Reader) : Prop where
  unlimited : whole.maxErrors = 0
  limited : capped.maxErrors = limit
  pos : 0 < limit
  full : capped.errors.length = limit
  grown : capped.errors <+: whole.errors

theorem InStep.isFull (h : InStep limit whole capped) :
    whole.isFull = false ∧ capped.isFull = false := by
  obtain ⟨hunlimited, hbelow, rfl⟩ := h
  exact ⟨by simp [Reader.isFull, hunlimited], by simp [Reader.isFull, hbelow]⟩

/-- Readers that have parted do not meet again. -/
theorem Parted.steps (h : Parted limit whole capped) (hwhole : whole.Steps whole')
    (hcapped : capped.Steps capped') : Parted limit whole' capped' := by
  have hle : capped'.errors.length ≤ limit := by
    have hbounded := hcapped.length_errors_le fun _ => Nat.le_of_eq (h.full.trans h.limited.symm)
    rw [hcapped.maxErrors_eq, h.limited] at hbounded
    exact hbounded (Nat.ne_of_gt h.pos)
  have heq : capped'.errors = capped.errors :=
    (hcapped.errors_grow.eq_of_length_le (h.full ▸ hle)).symm
  exact {
    unlimited := hwhole.maxErrors_eq.trans h.unlimited
    limited := hcapped.maxErrors_eq.trans h.limited
    pos := h.pos
    full := heq ▸ h.full
    grown := heq ▸ h.grown.trans hwhole.errors_grow }

/-- The readers go in step, or have parted. -/
def Limited (limit : Nat) (whole capped : Reader) : Prop :=
  InStep limit whole capped ∨ Parted limit whole capped

/-- What reaches the limit is recorded by both readers. -/
theorem InStep.record (h : InStep limit whole capped) (d : Diagnostic) :
    Limited limit (whole.record d) (capped.record d) := by
  obtain ⟨hwhole, hcapped⟩ := h.isFull
  obtain ⟨hunlimited, hbelow, rfl⟩ := h
  unfold Reader.record
  rw [hwhole, hcapped, Bool.false_or]
  split
  · exact .inl ⟨hunlimited, hbelow, rfl⟩
  · rcases Nat.lt_or_ge (whole.errors.length + 1) limit with hlt | hge
    · exact .inl ⟨hunlimited, by simpa using hlt, rfl⟩
    · exact .inr ⟨hunlimited, rfl, Nat.zero_lt_of_lt hbelow, by simp; omega, List.prefix_rfl⟩

theorem Limited.record (h : Limited limit whole capped) (d : Diagnostic) :
    Limited limit (whole.record d) (capped.record d) := by
  rcases h with hstep | hparted
  · exact hstep.record d
  · exact .inr (hparted.steps (.record .refl d) (.record .refl d))

theorem InStep.moveTo (h : InStep limit whole capped) (cursor : Cursor) :
    Limited limit (whole.moveTo cursor) (capped.moveTo cursor) := by
  have hrecords (errors : List ScanError) {whole capped : Reader}
      (h : Limited limit whole capped) :
      Limited limit (errors.foldl (fun r e => r.record (.ofScanError e)) whole)
        (errors.foldl (fun r e => r.record (.ofScanError e)) capped) := by
    induction errors generalizing whole capped with
    | nil => exact h
    | cons e rest ih => exact ih (h.record _)
  obtain ⟨hunlimited, hbelow, rfl⟩ := h
  exact hrecords cursor.newErrors (.inl ⟨hunlimited, hbelow, rfl⟩)

theorem Limited.take (h : Limited limit whole capped) (token : Token) :
    Limited limit { whole with token, commentEnd := none }
      { capped with token, commentEnd := none } := by
  rcases h with ⟨hunlimited, hbelow, rfl⟩ | hparted
  · exact .inl ⟨hunlimited, hbelow, rfl⟩
  · exact .inr ⟨hparted.unlimited, hparted.limited, hparted.pos, hparted.full, hparted.grown⟩

end Reader

namespace Parse

variable {α β : Type} {limit : Nat} {whole capped : Reader}
  {result other : EStateM.Result Halt Reader α}

/-- The reader is the one behind a phrase. -/
def Leaves : EStateM.Result Halt Reader α → Reader → Prop
  | .ok _ r, later => later = r
  | .error .bail r, later => later = r
  | .error (.fault _) _, _ => False

theorem SteppedTo.leaves {r later : Reader} (h : SteppedTo r result)
    (hlater : Leaves result later) : r.Steps later := by
  cases result with
  | ok a mid => exact hlater ▸ h
  | error e mid =>
    cases e with
    | bail => exact hlater ▸ h
    | fault f => cases hlater

/-- What is left behind two phrases was reached from what the first of them left. -/
theorem leaves_bind {p : Parse α} {q : α → Parse β} {r later : Reader}
    (hq : ∀ a r, SteppedTo r (q a r)) (h : Leaves ((p >>= q) r) later) :
    ∃ mid, Leaves (p r) mid ∧ mid.Steps later := by
  rw [bind_run] at h
  cases hpr : p r with
  | ok a mid =>
    rw [hpr] at h
    exact ⟨mid, rfl, (hq a mid).leaves h⟩
  | error e mid =>
    rw [hpr] at h
    cases e with
    | bail => exact ⟨mid, rfl, h ▸ .refl⟩
    | fault f => cases h

/-- What came of a phrase without the limit and with it: the same, or the readers have parted. -/
inductive LimitedTo (limit : Nat) :
    EStateM.Result Halt Reader α → EStateM.Result Halt Reader α → Prop
  | ok {whole capped : Reader} (a : α) (h : Reader.InStep limit whole capped) :
    LimitedTo limit (.ok a whole) (.ok a capped)
  | bail {whole capped : Reader} (h : Reader.InStep limit whole capped) :
    LimitedTo limit (.error .bail whole) (.error .bail capped)
  | parted {result other : EStateM.Result Halt Reader α}
    (h : ∀ whole capped, Leaves result whole → Leaves other capped →
      Reader.Parted limit whole capped) : LimitedTo limit result other

namespace LimitedTo

theorem done {a : α} (h : Reader.Limited limit whole capped) :
    LimitedTo limit (.ok a whole) (.ok a capped) := by
  rcases h with hstep | hparted
  · exact .ok a hstep
  · refine .parted ?_
    rintro _ _ rfl rfl
    exact hparted

/-- After a fault there is nothing to tell. -/
theorem fault {f g : Fault} : LimitedTo limit (.error (.fault f) whole : EStateM.Result _ _ α)
    (.error (.fault g) capped) :=
  .parted fun _ _ h => h.elim

/-- Readers that have parted stay so, whatever is read with each of them. -/
theorem of_parted (h : Reader.Parted limit whole capped) (hwhole : SteppedTo whole result)
    (hcapped : SteppedTo capped other) : LimitedTo limit result other :=
  .parted fun _ _ hleft hright => h.steps (hwhole.leaves hleft) (hcapped.leaves hright)

theorem bind {p : Parse α} {q : α → Parse β} (hp : LimitedTo limit (p whole) (p capped))
    (hq : ∀ a whole capped, Reader.InStep limit whole capped →
      LimitedTo limit (q a whole) (q a capped))
    (hsteps : ∀ a r, SteppedTo r (q a r)) :
    LimitedTo limit ((p >>= q) whole) ((p >>= q) capped) := by
  generalize hwhole : p whole = left at hp
  generalize hcapped : p capped = right at hp
  cases hp with
  | ok a h =>
    rw [bind_run_ok hwhole, bind_run_ok hcapped]
    exact hq a _ _ h
  | bail h =>
    rw [bind_run_error hwhole, bind_run_error hcapped]
    exact .bail h
  | parted h =>
    refine .parted fun whole' capped' hleft hright => ?_
    obtain ⟨mid, hmid, hlater⟩ := leaves_bind hsteps hleft
    obtain ⟨mid', hmid', hlater'⟩ := leaves_bind hsteps hright
    exact (h mid mid' (hwhole ▸ hmid) (hcapped ▸ hmid')).steps hlater hlater'

/-- Readers that stand at one place see one line table. -/
theorem place_bind {offset : Nat} {q : Place → Parse α}
    (hcursor : capped.cursor = whole.cursor)
    (hq : ∀ place, LimitedTo limit (q place whole) (q place capped)) :
    LimitedTo limit ((place offset >>= q) whole) ((place offset >>= q) capped) := by
  by_cases hsize : offset ≤ whole.cursor.file.size
  · rw [bind_run_ok (place_run hsize), bind_run_ok (place_run (hcursor ▸ hsize)), hcursor]
    exact hq _
  · rw [bind_run_error (place_run_fault hsize),
      bind_run_error (place_run_fault (hcursor ▸ hsize))]
    exact .fault

theorem line_bind {offset : Nat} {q : Nat → Parse α} (hcursor : capped.cursor = whole.cursor)
    (hq : ∀ line, LimitedTo limit (q line whole) (q line capped)) :
    LimitedTo limit ((line offset >>= q) whole) ((line offset >>= q) capped) := by
  unfold line
  rw [bind_assoc]
  exact place_bind hcursor fun place => hq place.line

theorem attempt {p : Parse α} (h : LimitedTo limit (p whole) (p capped)) :
    LimitedTo limit (Parse.attempt p whole) (Parse.attempt p capped) := by
  have hleaves (r later : Reader) (h : Leaves (Parse.attempt p r) later) : Leaves (p r) later := by
    unfold Parse.attempt at h
    cases hpr : p r with
    | ok a mid =>
      rw [hpr] at h
      exact h
    | error e mid =>
      rw [hpr] at h
      cases e with
      | bail => exact h
      | fault f => exact h
  generalize hwhole : p whole = left at h
  generalize hcapped : p capped = right at h
  cases h with
  | ok a h =>
    unfold Parse.attempt
    rw [hwhole, hcapped]
    exact .ok _ h
  | bail h =>
    unfold Parse.attempt
    rw [hwhole, hcapped]
    exact .ok none h
  | parted h =>
    exact .parted fun _ _ hleft hright =>
      h _ _ (hwhole ▸ hleaves _ _ hleft) (hcapped ▸ hleaves _ _ hright)

/-- A token is read in step, unless what is wrong with it or before it reaches the limit. -/
theorem nextWithin (steps : Nat) (h : Reader.InStep limit whole capped) :
    LimitedTo limit (Parse.nextWithin steps whole) (Parse.nextWithin steps capped) := by
  induction steps generalizing whole capped with
  | zero => exact .fault
  | succ steps ih =>
    have hmoved := h.moveTo whole.cursor.scan.1
    have hcursor : capped.cursor = whole.cursor := by rw [h.capped_eq]
    rw [nextWithin_succ, nextWithin_succ, hcursor]
    split
    · rcases hmoved with ⟨hunlimited, hbelow, hcapped⟩ | hparted
      · rw [hcapped]
        refine line_bind rfl fun first => line_bind rfl fun last => ?_
        exact ih ⟨hunlimited, hbelow, rfl⟩
      · have hcomment (r : Reader) : SteppedTo r ((do
            let first ← line whole.cursor.scan.2.pos
            let last ← line (whole.cursor.scan.2.pos + whole.cursor.scan.2.literal.utf8ByteSize)
            modify (·.keepComment ⟨whole.cursor.scan.2.pos, whole.cursor.scan.2.literal⟩ first last)
            Parse.nextWithin steps : Parse Unit) r) :=
          .line_bind fun first => .line_bind fun last =>
            (SteppedTo.nextWithin _ _).after (.keepComment .refl _ first last)
        exact of_parted hparted (hcomment _) (hcomment _)
    · exact done (hmoved.take _)

end LimitedTo

/-- A phrase built of operations is read in step, unless the limit is reached in it. -/
theorem Built.limited {known : List Nat} {p : Parse α} {marks : α → List Nat}
    (hbuilt : Built known p marks) (h : Reader.InStep limit whole capped) :
    LimitedTo limit (p whole) (p capped) := by
  induction hbuilt generalizing whole capped with
  | pure => exact .ok _ h
  | bind _ hq ihp ihq => exact .bind (ihp h) (fun a _ _ h => ihq a h) fun a r => (hq a).steps r
  | @look _ _ q _ _ ih =>
    have hcursor : capped.cursor = whole.cursor := by rw [h.capped_eq]
    rw [get_bind, get_bind, hcursor]
    exact ih whole.cursor h
  | token =>
    have htoken : capped.token = whole.token := by rw [h.capped_eq]
    exact show LimitedTo limit (.ok whole.token whole) (.ok capped.token capped) from
      htoken ▸ .ok _ h
  | isFull =>
    obtain ⟨hwhole, hcapped⟩ := h.isFull
    exact show LimitedTo limit (.ok whole.isFull whole) (.ok capped.isFull capped) from
      hwhole ▸ hcapped ▸ .ok _ h
  | bail => exact .bail h
  | fault f => exact .fault
  | attempt _ ih => exact .attempt (ih h)
  | errorAt _ cause =>
    have hcursor : capped.cursor = whole.cursor := by rw [h.capped_eq]
    exact .place_bind hcursor fun place => .done (h.record _)
  | next =>
    have hbound : capped.bound = whole.bound := by rw [h.capped_eq]; rfl
    rw [next_run, next_run, hbound]
    exact .nextWithin _ h
  | apply options _ _ ihp ihq =>
    have htoken : capped.token = whole.token := by rw [h.capped_eq]
    rw [kind_bind, kind_bind, htoken]
    split
    · refine ihp ?_
      obtain ⟨hunlimited, hbelow, rfl⟩ := h
      exact ⟨hunlimited, hbelow, rfl⟩
    · exact ihq h

end Parse

/-! ### Whole sources -/

namespace Diagnostic

theorem order_eq : order = compareLex (compareOn (·.place.file)) (compareLex
    (compareOn (·.place.line)) (compareLex (compareOn (·.place.column)) (compareOn message))) :=
  rfl

instance : Std.TransCmp order := by
  rw [order_eq]
  infer_instance

/-- Sorted diagnostics are in order. -/
theorem pairwise_sort (list : List Diagnostic) :
    (sort list).Pairwise fun d e => (order d e).isLE = true :=
  List.pairwise_mergeSort (fun _ _ _ => Std.TransCmp.isLE_trans)
    (fun d e => by rw [show order e d = _ from Std.OrientedCmp.eq_swap]; cases order d e <;> rfl) _

end Diagnostic

/-- What is recorded with a limit is what is recorded first without one, and if the limit is not
reached the same is read. -/
theorem SourceFile.source_limited {cursor : Cursor} {limit : Nat} (hlimit : 0 < limit)
    {stmts stmts' : List Stmt} {whole capped : Reader}
    (hwhole : Parse.source (reader cursor 0) = .ok stmts whole)
    (hcapped : Parse.source (reader cursor limit) = .ok stmts' capped) :
    capped.errors = whole.errors.take limit ∧
      (whole.errors.length < limit → stmts' = stmts ∧ capped.comments = whole.comments) := by
  have hstart : Reader.InStep limit (reader cursor 0) (reader cursor limit) := ⟨rfl, hlimit, rfl⟩
  have hlimited := source_built.limited hstart
  rw [hwhole, hcapped] at hlimited
  cases hlimited with
  | ok _ h =>
    obtain ⟨-, hbelow, rfl⟩ := h
    exact ⟨(List.take_of_length_le (Nat.le_of_lt hbelow)).symm, fun _ => ⟨rfl, rfl⟩⟩
  | parted h =>
    have hparted := h whole capped rfl rfl
    have hle := hparted.full ▸ hparted.grown.length_le
    refine ⟨?_, fun hlt => absurd hle (Nat.not_le_of_lt hlt)⟩
    rw [List.prefix_iff_eq_take.1 hparted.grown, hparted.full]

/-- A limit only cuts off the list of diagnostics. Every text is parsed under every limit, and so is
every source if comments are no tokens. What is returned under a limit is what was recorded first,
in order; and if the limit is more than there is to record, the document is the same. -/
theorem FileSet.parse_limited {limit : Nat} (hlimit : 0 < limit) (set : FileSet) (name : String)
    (bytes : List UInt8) (options : ScanOptions) :
    ((∃ text, bytes = utf8 text) ∨ options.comments = false → ∀ maxErrors, ∃ parsed later,
      set.parse name (Glyph.ofBytes bytes) { scan := options, maxErrors } = .ok (parsed, later)) ∧
    ∀ whole capped later later',
      set.parse name (Glyph.ofBytes bytes) { scan := options, maxErrors := 0 } =
        .ok (whole, later) →
      set.parse name (Glyph.ofBytes bytes) { scan := options, maxErrors := limit } =
        .ok (capped, later') →
      ∃ stmts r,
        Parse.source (SourceFile.reader (Cursor.start { name, base := set.base, size := bytes.length }
          options (Glyph.ofBytes bytes)) 0) = .ok stmts r ∧
        whole.errors = Diagnostic.sort r.errors ∧
        capped.errors = Diagnostic.sort (r.errors.take limit) ∧
        (capped.errors.Pairwise fun d e => (Diagnostic.order d e).isLE = true) ∧
        capped.errors.Subperm whole.errors ∧
        capped.errors.length = min limit whole.errors.length ∧
        (whole.errors.length < limit → capped.document = whole.document) := by
  constructor
  · intro hbytes maxErrors
    let file : SourceFile := { name, base := set.base, size := bytes.length }
    have hsize : file.size = Glyph.widths (Glyph.ofBytes bytes) := (Glyph.widths_ofBytes bytes).symm
    have hsound : (Cursor.start file options (Glyph.ofBytes bytes)).Sound (Glyph.ofBytes bytes) :=
      Cursor.sound_bytes hbytes rfl rfl
    obtain ⟨stmts, r, -, hrun, -⟩ := source_finishes (SourceFile.ready_reader hsound maxErrors)
    exact ⟨_, parse_eq_ok_iff.2 <| SourceFile.parse_eq_ok_iff.2 ⟨rfl, stmts, r, hsize ▸ hrun, rfl⟩⟩
  · intro whole capped later later' hwhole hcapped
    obtain ⟨-, stmts, r, hrun, rfl⟩ := SourceFile.parse_eq_ok_iff.1 (parse_eq_ok_iff.1 ⟨_, hwhole⟩)
    obtain ⟨-, stmts', r', hrun', rfl⟩ :=
      SourceFile.parse_eq_ok_iff.1 (parse_eq_ok_iff.1 ⟨_, hcapped⟩)
    obtain ⟨herrors, hsame⟩ := SourceFile.source_limited hlimit hrun hrun'
    have hperm := Diagnostic.sort_perm r.errors
    have hperm' := Diagnostic.sort_perm r'.errors
    refine ⟨stmts, r, Glyph.widths_ofBytes bytes ▸ hrun, rfl, herrors ▸ rfl,
      Diagnostic.pairwise_sort _, ?_, ?_, fun hlt => ?_⟩
    · have hsub : r'.errors.Subperm r.errors := herrors ▸ (List.take_sublist limit _).subperm
      exact (hperm'.subperm.trans hsub).trans hperm.symm.subperm
    · dsimp only
      rw [hperm.length_eq, hperm'.length_eq, herrors, List.length_take]
    · obtain ⟨rfl, hcomments⟩ := hsame (hperm.length_eq ▸ hlt)
      dsimp only
      rw [hcomments]

/-- Operands are missing on two lines, and one of them is reported under a limit of one. -/
theorem FileSet.parse_limited_one :
    let bytes := utf8 ")\n)"
    ∃ whole capped later later',
      FileSet.parse {} "test" (Glyph.ofBytes bytes) { maxErrors := 0 } = .ok (whole, later) ∧
      FileSet.parse {} "test" (Glyph.ofBytes bytes) { maxErrors := 1 } = .ok (capped, later') ∧
      whole.errors.length = 2 ∧ capped.errors.length = 1 ∧ capped.errors.Subperm whole.errors := by
  intro bytes
  have hlimited := FileSet.parse_limited Nat.one_pos {} "test" bytes {}
  obtain ⟨whole, later, hwhole⟩ := hlimited.1 (.inl ⟨_, rfl⟩) 0
  obtain ⟨capped, later', hcapped⟩ := hlimited.1 (.inl ⟨_, rfl⟩) 1
  obtain ⟨stmts, r, hrun, herrors, -, -, hsub, hlength, -⟩ :=
    hlimited.2 whole capped later later' hwhole hcapped
  have hcount : (match Parse.source (SourceFile.reader (Cursor.start
        { name := "test", base := 1, size := bytes.length } {} (Glyph.ofBytes bytes)) 0) with
      | .ok _ r => some r.errors.length
      | .error _ _ => none) = some 2 := by
    decide +kernel
  rw [hrun] at hcount
  have htwo : whole.errors.length = 2 := by
    rw [herrors, (Diagnostic.sort_perm r.errors).length_eq]
    exact Option.some.inj hcount
  refine ⟨whole, capped, later, later', hwhole, hcapped, htwo, ?_, hsub⟩
  rw [hlength, htwo]
  rfl

end TemplateScript
