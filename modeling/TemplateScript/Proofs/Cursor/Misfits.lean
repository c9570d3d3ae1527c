import TemplateScript.Proofs.Cursor.Bracketed
import TemplateScript.Proofs.Cursor.Resolve

/-!
# Glyphs that no source should hold

A byte that begins no character, and a byte order mark behind the start of a file, are reported when
a cursor comes to them, whatever is being read there. So what was reported and what is still to come
add up to the same at every point. Only the body of a pragma line is gone through twice, once as
code of its own and once by the cursor that goes on behind it, and what no source should hold is
reported twice there.
-/

namespace TemplateScript

namespace Glyph

/-- What is wrong with a glyph at an offset. -/
def misfit? (offset : Nat) : Glyph → Option ScanCause
  | .byte _ => some .illegalEncoding
  | .char ch => if ch = Cursor.byteOrderMark ∧ 0 < offset then some .illegalByteOrderMark else none

/-- Where a run that begins at an offset has glyphs that no source should hold, and what is wrong
with them. -/
def misfits : Nat → List Glyph → List (Nat × ScanCause)
  | _, [] => []
  | offset, g :: rest =>
    (g.misfit? offset).toList.map (offset, ·) ++ misfits (offset + g.width) rest

variable {offset : Nat} {glyphs : List Glyph} {m : Nat × ScanCause}

theorem misfits_append (offset : Nat) (a b : List Glyph) :
    misfits offset (a ++ b) = misfits offset a ++ misfits (offset + widths a) b := by
  induction a generalizing offset with
  | nil => simp [misfits, widths]
  | cons g rest ih =>
    simp only [List.cons_append, misfits, ih, widths, List.append_assoc, Nat.add_assoc]

theorem misfits_bounds (h : m ∈ misfits offset glyphs) :
    offset ≤ m.1 ∧ m.1 < offset + widths glyphs := by
  induction glyphs generalizing offset with
  | nil => cases h
  | cons g rest ih =>
    have hwidth := g.width_pos
    rw [widths]
    rcases List.mem_append.1 h with h | h
    · obtain ⟨_, -, rfl⟩ := List.mem_map.1 h
      exact ⟨Nat.le_refl _, by dsimp only; omega⟩
    · obtain ⟨hle, hlt⟩ := ih h
      omega

theorem misfits_ascend : (misfits offset glyphs).Pairwise (·.1 < ·.1) := by
  induction glyphs generalizing offset with
  | nil => exact .nil
  | cons g rest ih =>
    refine List.pairwise_append.2 ⟨?_, ih, fun m hm m' hm' => ?_⟩
    · cases g.misfit? offset with
      | none => exact .nil
      | some cause => exact List.pairwise_singleton ..
    · obtain ⟨_, -, rfl⟩ := List.mem_map.1 hm
      have hle := (misfits_bounds hm').1
      have hwidth := g.width_pos
      dsimp only
      omega

/-- What lies between two offsets. -/
def between (body : Nat × Nat) (list : List (Nat × ScanCause)) : List (Nat × ScanCause) :=
  list.filter fun m => body.1 ≤ m.1 && m.1 < body.2

/-- What a part of a run has between its ends is what the run has there. -/
theorem between_misfits (offset : Nat) (a b c : List Glyph) :
    between (offset + widths a, offset + widths a + widths b) (misfits offset (a ++ (b ++ c))) =
      misfits (offset + widths a) b := by
  rw [misfits_append, misfits_append, between, List.filter_append, List.filter_append]
  have hbefore : (misfits offset a).filter (fun m => decide (offset + widths a ≤ m.1) &&
      decide (m.1 < offset + widths a + widths b)) = [] := by
    refine List.filter_eq_nil_iff.2 fun m hm => ?_
    have hlt := (misfits_bounds hm).2
    simp [Nat.not_le_of_lt hlt]
  have hin : (misfits (offset + widths a) b).filter (fun m => decide (offset + widths a ≤ m.1) &&
      decide (m.1 < offset + widths a + widths b)) = misfits (offset + widths a) b := by
    refine List.filter_eq_self.2 fun m hm => ?_
    simp [misfits_bounds hm]
  have hbehind : (misfits (offset + widths a + widths b) c).filter
      (fun m => decide (offset + widths a ≤ m.1) &&
        decide (m.1 < offset + widths a + widths b)) = [] := by
    refine List.filter_eq_nil_iff.2 fun m hm => ?_
    have hle := (misfits_bounds hm).1
    simp [Nat.not_lt_of_le hle]
  rw [hbefore, hin, hbehind, List.nil_append, List.append_nil]

end Glyph

/-- Where the bodies of pragma lines lie, which reach from behind the head of a line to where the
line ends. -/
def Token.pragmaBodies : List Token → List (Nat × Nat)
  | [] => []
  | t :: rest =>
    if t.kind = .pragmaStart then
      ((rest.find? (·.kind = .pragmaEnd)).map
        (t.pos + t.literal.utf8ByteSize, ·.pos)).toList ++ pragmaBodies rest
    else pragmaBodies rest

namespace Token

variable {t : Token} {tokens : List Token}

theorem pragmaBodies_cons (h : t.kind ≠ .pragmaStart) (rest : List Token) :
    pragmaBodies (t :: rest) = pragmaBodies rest := if_neg h

theorem pragmaBodies_append (h : ∀ t ∈ tokens, t.kind ≠ .pragmaStart) (rest : List Token) :
    pragmaBodies (tokens ++ rest) = pragmaBodies rest := by
  induction tokens with
  | nil => rfl
  | cons t tokens ih =>
    obtain ⟨ht, htokens⟩ := List.forall_mem_cons.1 h
    exact (pragmaBodies_cons ht _).trans (ih htokens)

/-- A pragma line has one body. -/
theorem pragmaBodies_line {opening closing : Token} (hopening : opening.kind = .pragmaStart)
    (hclosing : closing.kind = .pragmaEnd) (h : ∀ t ∈ tokens, t.kind.isOuter = false)
    (rest : List Token) :
    pragmaBodies (opening :: (tokens ++ closing :: rest)) =
      (opening.pos + opening.literal.utf8ByteSize, closing.pos) :: pragmaBodies rest := by
  have hfind : (tokens ++ closing :: rest).find? (·.kind = .pragmaEnd) = some closing := by
    have hnone : tokens.find? (·.kind = .pragmaEnd) = none := by
      refine List.find?_eq_none.2 fun t ht hkind => ?_
      have hinner := h t ht
      rw [of_decide_eq_true hkind] at hinner
      cases hinner
    rw [List.find?_append, hnone, Option.none_or, List.find?_cons_of_pos (by simpa using hclosing)]
  have hinner : ∀ t ∈ tokens, t.kind ≠ .pragmaStart := by
    intro t ht hkind
    have hinner := h t ht
    rw [hkind] at hinner
    cases hinner
  rw [pragmaBodies, if_pos hopening, hfind, pragmaBodies_append hinner,
    pragmaBodies_cons (by rw [hclosing]; decide)]
  rfl

end Token

namespace Cursor

variable {a b c later : Cursor} {limit : Nat}

/-! ### The account -/

/-- The glyphs that were reported. -/
def reported (c : Cursor) : List (Nat × ScanCause) :=
  (c.errors.filter (·.cause.isOfGlyph)).map fun e => (e.place.offset, e.cause)

/-- What is left of a source that no source should hold, from the cursor on. -/
def misfits (c : Cursor) : List (Nat × ScanCause) := Glyph.misfits c.offset c.rest

/-- What was reported, and what is to be reported beyond the glyph at the cursor. -/
def account (c : Cursor) : List (Nat × ScanCause) :=
  c.reported ++ match c.rest with
    | [] => []
    | g :: rest => Glyph.misfits (c.offset + g.width) rest

theorem account_of_eq (hrest : later.rest = c.rest) (hoffset : later.offset = c.offset)
    (herrors : later.errors = c.errors) : later.account = c.account := by
  unfold account reported
  rw [hrest, hoffset, herrors]

theorem account_of_end (hrest : c.rest = []) : c.account = c.reported := by
  rw [account, hrest, List.append_nil]

/-- What is no glyph that no source should hold does not count. -/
theorem account_report (offset : Nat) {cause : ScanCause} (h : cause.isOfGlyph = false) :
    (c.report offset cause).account = c.account := by
  have hreported : (c.report offset cause).reported = c.reported := by
    rw [reported, report, List.filter_append, List.filter_cons_of_neg (by simp [h]),
      List.filter_nil, List.append_nil, reported]
  rw [account, hreported]
  rfl

/-- The glyph that a cursor comes to is reported if no source should hold it. -/
theorem account_arrive (c : Cursor) : c.arrive.account = c.reported ++ c.misfits := by
  have hreport {cause : ScanCause} (h : cause.isOfGlyph = true) :
      (c.report c.offset cause).reported = c.reported ++ [(c.offset, cause)] := by
    rw [reported, report, List.filter_append, List.filter_cons_of_pos (by exact h),
      List.filter_nil, List.map_append, List.map_singleton, place_offset, reported]
  unfold arrive misfits
  cases hrest : c.rest with
  | nil => rw [account_of_end hrest, Glyph.misfits, List.append_nil]
  | cons g rest =>
    cases g with
    | byte b =>
      dsimp only
      rw [account, hreport rfl, report_rest, hrest, List.append_assoc]
      rfl
    | char ch =>
      dsimp only
      rw [Glyph.misfits, Glyph.misfit?]
      split
      · rw [account, hreport rfl, report_rest, hrest, List.append_assoc]
        rfl
      · rw [account, hrest]
        rfl

theorem account_advance (c : Cursor) : c.advance.account = c.account := by
  unfold advance
  split
  · rfl
  · next g rest hrest =>
    have hleave : (c.leave g).reported = c.reported := by
      unfold leave
      split <;> rfl
    rw [account_arrive, account, hrest]
    exact congrArg (· ++ Glyph.misfits (c.offset + g.width) rest) hleave

theorem Walks.account_eq (h : c.Walks limit later) : later.account = c.account := by
  induction h with
  | refl => rfl
  | advance _ ih => exact (account_advance _).trans ih
  | report _ _ _ hcause ih => exact (account_report _ hcause).trans ih
  | settle _ _ _ ih => exact (account_of_eq rfl rfl rfl).trans ih

theorem account_bodyTokens (c : Cursor) : c.bodyTokens.1.account = c.account := by
  have hskip (c : Cursor) : c.skipBlanks.account = c.account :=
    (walks_skipBlanks c : Walks 0 _ _).account_eq
  fun_induction bodyTokens c with
  | case1 c => exact hskip c
  | case2 c _ _ _ _ ih =>
    exact ih.trans ((walks_comment c.skipBlanks : Walks 0 _ _).account_eq.trans (hskip c))
  | case3 c g _ _ _ more ih =>
    exact ih.trans ((walks_lexeme c.skipBlanks g : Walks 0 _ _).account_eq.trans (hskip c))

/-! ### Bodies -/

/-- From the earlier cursor to the later one, what lies in the bodies is reported once more than
elsewhere. The bodies lie between the two, one behind the other. -/
structure Repeats (c : Cursor) (bodies : List (Nat × Nat)) (later : Cursor) : Prop where
  reaches : c.Reaches later
  account_perm : later.account.Perm (c.account ++ bodies.flatMap (Glyph.between · c.misfits))
  ordered : bodies.Pairwise (·.2 ≤ ·.1)
  inside : ∀ body ∈ bodies, c.offset ≤ body.1 ∧ body.2 ≤ later.offset

/-- Behind a point, a source has what a cursor that came there has before it. -/
theorem Reaches.between_misfits (h : c.Reaches later) {body : Nat × Nat}
    (hbody : later.offset ≤ body.1) :
    Glyph.between body c.misfits = Glyph.between body later.misfits := by
  obtain ⟨read, hread⟩ := h
  have hpassed : (Glyph.misfits c.offset read).filter
      (fun m => decide (body.1 ≤ m.1) && decide (m.1 < body.2)) = [] := by
    refine List.filter_eq_nil_iff.2 fun m hm => ?_
    have hlt := hread.offset_eq ▸ (Glyph.misfits_bounds hm).2
    simp [Nat.not_le_of_lt (Nat.lt_of_lt_of_le hlt hbody)]
  rw [misfits, hread.rest_eq, Glyph.misfits_append, ← hread.offset_eq, Glyph.between,
    List.filter_append, hpassed, List.nil_append]
  rfl

namespace Repeats

variable {bodies more : List (Nat × Nat)}

theorem of_account (hreaches : c.Reaches later) (haccount : later.account = c.account) :
    c.Repeats [] later where
  reaches := hreaches
  account_perm := by simp [haccount]
  ordered := .nil
  inside := List.forall_mem_nil _

theorem of_walks (h : c.Walks 0 later) : c.Repeats [] later :=
  .of_account h.reaches h.account_eq

theorem trans (h : a.Repeats bodies b) (k : b.Repeats more c) : a.Repeats (bodies ++ more) c where
  reaches := h.reaches.trans k.reaches
  account_perm := by
    have hmore : more.flatMap (Glyph.between · a.misfits) =
        more.flatMap (Glyph.between · b.misfits) :=
      List.flatMap_congr fun body hbody => h.reaches.between_misfits (k.inside body hbody).1
    rw [List.flatMap_append, hmore, ← List.append_assoc]
    exact k.account_perm.trans (h.account_perm.append_right _)
  ordered := List.pairwise_append.2 ⟨h.ordered, k.ordered, fun x hx y hy =>
    Nat.le_trans (h.inside x hx).2 (k.inside y hy).1⟩
  inside := List.forall_mem_append.2
    ⟨fun x hx => ⟨(h.inside x hx).1, Nat.le_trans (h.inside x hx).2 k.reaches.offset_le⟩,
      fun y hy => ⟨Nat.le_trans h.reaches.offset_le (k.inside y hy).1, (k.inside y hy).2⟩⟩

theorem walks (h : a.Repeats bodies b) (k : b.Walks 0 c) : a.Repeats bodies c :=
  List.append_nil bodies ▸ h.trans (.of_walks k)

/-- What else a cursor knows does not count. -/
theorem stay (h : a.Repeats bodies b) (hrest : c.rest = b.rest) (hoffset : c.offset = b.offset)
    (hfile : c.file = b.file) (herrors : c.errors = b.errors) : a.Repeats bodies c :=
  List.append_nil bodies ▸ h.trans
    (.of_account (.of_eq hrest hoffset hfile herrors) (account_of_eq hrest hoffset herrors))

end Repeats

/-- The head of a pragma line is as long as the text of its token. -/
theorem pragmaHead_width {head : Nat} (h : c.pragmaLine? = some head) :
    (Glyph.text (c.rest.take head)).utf8ByteSize = Glyph.widths (c.rest.take head) := by
  have hchars : ∀ g ∈ c.rest.take head, ∃ ch, g = .char ch := by
    unfold pragmaLine? at h
    split at h
    · cases h
    obtain ⟨blanks, hblanks, htake⟩ := pragmaHead?_eq_some h
    rw [htake]
    refine List.forall_mem_cons.2 ⟨⟨'#', rfl⟩, List.forall_mem_append.2 ⟨fun g hg => ?_, ?_⟩⟩
    · have hblank := hblanks g hg
      cases g with
      | char ch => exact ⟨ch, rfl⟩
      | byte b => cases hblank
    · intro g hg
      obtain ⟨ch, -, rfl⟩ := List.mem_map.1 hg
      exact ⟨ch, rfl⟩
  rw [← Glyph.widths_ofText, Glyph.ofText_text hchars]

/-- What is read is gone through once, but for the bodies of pragma lines among its tokens. -/
def Rereads (c : Cursor) (read : Cursor × Token × List Token) : Prop :=
  ∃ bodies, c.Repeats bodies read.1 ∧ ∀ rest,
    Token.pragmaBodies (read.2.1 :: (read.2.2 ++ rest)) = bodies ++ Token.pragmaBodies rest

theorem Rereads.behind {read : Cursor × Token × List Token} (h : b.Rereads read)
    (hbefore : a.Repeats [] b) : a.Rereads read := by
  obtain ⟨bodies, hrepeats, htokens⟩ := h
  exact ⟨bodies, hbefore.trans hrepeats, htokens⟩

theorem Rereads.pair (h : c.Repeats [] later) {t u : Token} (ht : t.kind ≠ .pragmaStart)
    (hu : u.kind ≠ .pragmaStart) : c.Rereads (later, t, [u]) :=
  ⟨[], h, fun _ => (Token.pragmaBodies_cons ht _).trans (Token.pragmaBodies_cons hu _)⟩

theorem Rereads.single (h : c.Repeats [] later) {t : Token} (hkind : t.kind ≠ .pragmaStart) :
    c.Rereads (later, t, []) := ⟨[], h, Token.pragmaBodies_cons hkind⟩

/-- The body of a pragma line is gone through once as code of its own, and once more behind it. -/
theorem rereads_pragma {head : Nat} (hhead : c.pragmaLine? = some head) :
    c.Rereads (c.pragma head) := by
  let size := Glyph.countUntil endsPragma (c.rest.drop head)
  let inside := (c.rest.drop head).take size
  let body := (c.bodyStart head size).bodyTokens.1
  let last := advanceBy (head + size) { c with errors := body.errors }
  have hread : c.pragma head = ({ last.advance with pending := false },
      ⟨.pragmaStart, Glyph.text (c.rest.take head), c.offset, {}⟩,
      (c.bodyStart head size).bodyTokens.2 ++ [⟨.pragmaEnd, "", last.offset, {}⟩]) := rfl
  have hlast : last.offset = c.offset + Glyph.widths (c.rest.take head) + Glyph.widths inside := by
    rw [offset_advanceBy, List.take_add, Glyph.widths_append, Nat.add_assoc]
  have hbody : body.reported =
      c.reported ++ Glyph.misfits (c.offset + Glyph.widths (c.rest.take head)) inside := by
    rw [← account_of_end (bodyTokens_rest _), account_bodyTokens]
    exact account_arrive _
  have hbetween : Glyph.between (c.offset + Glyph.widths (c.rest.take head), last.offset) c.misfits =
      Glyph.misfits (c.offset + Glyph.widths (c.rest.take head)) inside := by
    have hsplit : c.rest = c.rest.take head ++ (inside ++ (c.rest.drop head).drop size) := by
      rw [List.take_append_drop, List.take_append_drop]
    rw [hlast, ← Glyph.between_misfits c.offset _ inside ((c.rest.drop head).drop size), ← hsplit]
    rfl
  have hwalk : Walks 0 { c with errors := body.errors } last := walks_advanceBy _ _
  rw [hread]
  refine ⟨[(c.offset + Glyph.widths (c.rest.take head), last.offset)],
    ⟨reaches_pragma c head, ?_, List.pairwise_singleton .., ?_⟩, fun rest => ?_⟩
  · have hbehind : ({ last.advance with pending := false } : Cursor).account =
        account { c with errors := body.errors } :=
      (account_of_eq rfl rfl rfl).trans ((account_advance last).trans hwalk.account_eq)
    have hknown : reported { c with errors := body.errors } = body.reported := rfl
    rw [hbehind, account, hknown, hbody, List.flatMap_singleton, hbetween, account,
      List.append_assoc, List.append_assoc]
    exact List.perm_append_comm.append_left _
  · exact List.forall_mem_singleton.2 ⟨Nat.le_add_right .., advance_offset_le last⟩
  · rw [List.append_assoc, List.singleton_append,
      Token.pragmaBodies_line rfl rfl (bodyTokens_isOuter _), pragmaHead_width hhead]
    rfl

/-! ### Templates -/

theorem rereads_codeEnd {t : Token} (h : c.codeEnd? = some (later, t)) :
    c.Rereads (later, t, []) := by
  unfold codeEnd? at h
  dsimp only at h
  split at h
  · obtain ⟨rfl, rfl⟩ := Prod.mk.inj (Option.some.inj h)
    refine .single ?_ ?_
    · exact (Repeats.of_walks (walks_advanceBy _ c)).stay rfl rfl rfl rfl
    · dsimp only
      split <;> decide
  · cases h

theorem repeats_enterCode (c : Cursor) (length : Nat) (isValue : Bool) :
    c.Repeats [] (c.enterCode length isValue) :=
  (Repeats.of_walks (walks_advanceBy length c)).stay rfl rfl rfl rfl

theorem rereads_templateText (c : Cursor) : c.Rereads c.templateText := by
  have hend : c.Repeats [] c.textEnd :=
    (Repeats.of_walks (walks_advanceBy _ c)).stay rfl rfl rfl rfl
  have hcode : c.Repeats [] c.textCode := hend.trans (repeats_enterCode ..)
  have hdelimiter : c.textDelimiter.2.kind ≠ .pragmaStart := by
    rw [textDelimiter_begins c]
    split <;> decide
  have htext {kept : List Glyph} {t : Token}
      (h : textToken? c.offset c.textBlanks kept c.textRun.2 = some t) :
      t.kind ≠ .pragmaStart := by
    rw [(textToken?_text h).1]
    decide
  rw [templateText_eq]
  dsimp only
  split
  · split
    · next t htoken => exact .pair hcode (htext htoken) hdelimiter
    · exact .single hcode hdelimiter
  · split
    · next t htoken => exact .single hend (htext htoken)
    · split
      · next head hhead => exact (rereads_pragma hhead).behind hend
      · exact .single hend Token.Kind.noConfusion

/-! ### Tokens -/

theorem rereads_code (c : Cursor) : c.Rereads c.code := by
  have hskip (c : Cursor) : c.Repeats [] c.skipBlanks := .of_walks (walks_skipBlanks c)
  fun_induction code c with
  | case1 c start last token h => exact (rereads_codeEnd h).behind (hskip c)
  | case2 c start _ head hhead => exact (rereads_pragma hhead).behind (hskip c)
  | case3 c start =>
    have hlast : c.Repeats [] { start with pending := false } := (hskip c).stay rfl rfl rfl rfl
    exact .single hlast Token.Kind.noConfusion
  | case4 c start => exact .single (hskip c) Token.Kind.noConfusion
  | case5 c start =>
    have hlast : c.Repeats [] { start with pending := false } := (hskip c).stay rfl rfl rfl rfl
    exact .single hlast Token.Kind.noConfusion
  | case6 c start =>
    refine .single ((hskip c).walks (walks_comment start)) ?_
    rw [comment_kind]
    decide
  | case7 c start =>
    rename_i ih
    exact ih.behind ((hskip c).walks (walks_comment start))
  | case8 c start =>
    have hlast : c.Repeats [] { start.advance with pending := false } :=
      ((hskip c).walks (walks_advance start)).stay rfl rfl rfl rfl
    exact .single hlast Token.Kind.noConfusion
  | case9 c start _ _ g =>
    refine .single ((hskip c).walks (walks_lexeme start g)) fun hkind => ?_
    have hinner := lexeme_isOuter start g
    rw [hkind] at hinner
    cases hinner

theorem rereads_read (c : Cursor) : c.Rereads c.read := by
  unfold read
  split
  · exact rereads_templateText c
  · exact rereads_code c

/-- Up to the end of a source, each glyph is gone through once, but for the bodies of pragma lines.
-/
theorem repeats_scanToEnd {limit : Nat} (hpool : c.PoolInner) (hlimit : c.weight < limit) :
    ∃ tokens, (scanToEnd limit c).2 = c.pool ++ tokens ∧
      c.Repeats (Token.pragmaBodies tokens) (scanToEnd limit c).1 := by
  induction limit generalizing c with
  | zero => exact absurd hlimit (Nat.not_lt_zero _)
  | succ limit ih =>
    have hinner := hpool.scan
    have hlighter := scan_weight_lt c
    have hended := ended_of_eof hpool
    rw [scanToEnd]
    cases hwait : c.pool with
    | cons t pool =>
      have ht : t.kind ≠ .eof := (hpool t (hwait ▸ List.mem_cons_self)).2
      rw [scan_pool hwait] at hinner hlighter ⊢
      have hlt := hlighter ht
      obtain ⟨tokens, htokens, hrepeats⟩ := ih hinner (by omega)
      have hstay : c.Repeats [] { c with pool } := .of_account (.of_eq rfl rfl rfl rfl) rfl
      dsimp only at htokens ⊢
      rw [if_neg ht]
      exact ⟨tokens, by rw [htokens, List.cons_append], hstay.trans hrepeats⟩
    | nil =>
      obtain ⟨bodies, hread, hbodies⟩ := rereads_read c
      rw [scan_eq hwait] at hinner hlighter hended ⊢
      dsimp only at hinner hlighter hended ⊢
      have hstay : c.Repeats bodies { c.read.1 with pool := c.read.2.2 } :=
        hread.stay rfl rfl rfl rfl
      by_cases hkind : c.read.2.1.kind = .eof
      · have hmore : c.read.2.2 = [] := (hended hkind).pool_eq
        have hall : Token.pragmaBodies [c.read.2.1] = bodies := by
          have hall := hbodies []
          rw [hmore] at hall
          exact hall.trans (List.append_nil bodies)
        rw [if_pos hkind]
        exact ⟨_, rfl, hall ▸ hstay⟩
      · have hlt := hlighter hkind
        obtain ⟨tokens, htokens, hrepeats⟩ := ih hinner (by omega)
        rw [if_neg hkind]
        refine ⟨c.read.2.1 :: (c.read.2.2 ++ tokens), by rw [htokens, List.nil_append], ?_⟩
        rw [hbodies]
        exact hstay.trans hrepeats

/-! ### Sources -/

/-- Before the first token, all that no source should hold is reported or to be reported. -/
theorem start_account (file : SourceFile) (options : ScanOptions) (glyphs : List Glyph) :
    (start file options glyphs).account = Glyph.misfits 0 glyphs ∧
      (start file options glyphs).misfits = Glyph.misfits 0 glyphs := by
  unfold start
  dsimp only
  split
  · next hmark =>
    rw [arrive_rest] at hmark
    obtain ⟨rest, rfl⟩ := List.head?_eq_some_iff.1 hmark
    refine ⟨(account_of_eq rfl rfl rfl).trans ((account_advance _).trans (account_arrive _)), ?_⟩
    change Glyph.misfits (advanceBy 1 _).offset (advanceBy 1 _).rest = _
    rw [offset_advanceBy, advanceBy_rest, arrive_rest, arrive_offset]
    rfl
  · refine ⟨account_arrive _, ?_⟩
    rw [misfits, arrive_rest, arrive_offset]

/-- The bodies of pragma lines do not overlap, so what lies in one of them lies in no other. -/
theorem count_between {bodies : List (Nat × Nat)} (h : bodies.Pairwise (·.2 ≤ ·.1))
    (list : List (Nat × ScanCause)) (m : Nat × ScanCause) :
    (bodies.flatMap (Glyph.between · list)).count m =
      if ∃ body ∈ bodies, body.1 ≤ m.1 ∧ m.1 < body.2 then list.count m else 0 := by
  induction h with
  | nil => simp
  | @cons body bodies hbody _ ih =>
    rw [List.flatMap_cons, List.count_append, ih]
    by_cases hin : body.1 ≤ m.1 ∧ m.1 < body.2
    · have hothers : ¬ ∃ other ∈ bodies, other.1 ≤ m.1 ∧ m.1 < other.2 := by
        rintro ⟨other, hother, hle, -⟩
        have hle' := hbody other hother
        omega
      have hany : ∃ other ∈ body :: bodies, other.1 ≤ m.1 ∧ m.1 < other.2 :=
        ⟨body, List.mem_cons_self, hin⟩
      rw [if_neg hothers, if_pos hany, Nat.add_zero]
      exact List.count_filter (by simpa using hin)
    · have hnone : (Glyph.between body list).count m = 0 := by
        refine List.count_eq_zero.2 fun hmem => hin ?_
        simpa using (List.mem_filter.1 hmem).2
      rw [hnone, Nat.zero_add]
      simp only [List.exists_mem_cons_iff, hin, false_or]

/-- For every source and all options: a byte that begins no character, and a byte order mark behind
the start, are reported once each, where they are, and nothing else is reported as one of them. In
the body of a pragma line, they are reported twice. -/
theorem scanAll_misfits (file : SourceFile) (options : ScanOptions) (bytes : List UInt8)
    (hsize : file.size = bytes.length) :
    ∃ c, start? file options (Glyph.ofBytes bytes) = .ok c ∧
      ∀ offset cause, cause.isOfGlyph = true →
        c.scanAll.1.errors.countP (fun e => e.place.offset = offset ∧ e.cause = cause) =
          if (offset, cause) ∈ Glyph.misfits 0 (Glyph.ofBytes bytes) then
            if ∃ body ∈ Token.pragmaBodies c.scanAll.2, body.1 ≤ offset ∧ offset < body.2 then 2
            else 1
          else 0 := by
  let c := start file options (Glyph.ofBytes bytes)
  have hpool : c.PoolInner := poolInner_start file options _
  have hlimit := weight_lt_bound c
  obtain ⟨haccount, hmisfits⟩ := start_account file options (Glyph.ofBytes bytes)
  obtain ⟨tokens, htokens, hrepeats⟩ := repeats_scanToEnd hpool hlimit
  rw [start_pool, List.nil_append] at htokens
  refine ⟨c, if_pos (hsize.trans (Glyph.widths_ofBytes bytes).symm), fun offset cause hcause => ?_⟩
  have hcount : c.scanAll.1.errors.countP (fun e => e.place.offset = offset ∧ e.cause = cause) =
      c.scanAll.1.reported.count (offset, cause) := by
    rw [reported, List.count, List.countP_map, List.countP_filter]
    refine List.countP_congr fun e _ => ?_
    rw [decide_eq_true_eq, Bool.and_eq_true, Function.comp_apply, beq_iff_eq, Prod.mk.injEq]
    refine ⟨fun heq => ⟨heq, ?_⟩, And.left⟩
    rw [heq.2, hcause]
  have hperm : c.scanAll.1.reported.Perm (Glyph.misfits 0 (Glyph.ofBytes bytes) ++
      (Token.pragmaBodies c.scanAll.2).flatMap
        (Glyph.between · (Glyph.misfits 0 (Glyph.ofBytes bytes)))) := by
    have hperm := hrepeats.account_perm
    rw [account_of_end (scanToEnd_rest hpool hlimit), haccount, hmisfits, ← htokens] at hperm
    exact hperm
  have hbodies : ((Token.pragmaBodies c.scanAll.2).flatMap
      (Glyph.between · (Glyph.misfits 0 (Glyph.ofBytes bytes)))).count (offset, cause) =
        if ∃ body ∈ Token.pragmaBodies c.scanAll.2, body.1 ≤ offset ∧ offset < body.2 then
          (Glyph.misfits 0 (Glyph.ofBytes bytes)).count (offset, cause) else 0 :=
    count_between (htokens ▸ hrepeats.ordered) _ _
  have hnodup : (Glyph.misfits 0 (Glyph.ofBytes bytes)).Nodup :=
    Glyph.misfits_ascend.imp fun hlt heq => Nat.ne_of_lt hlt (congrArg Prod.fst heq)
  rw [hcount, hperm.count_eq, List.count_append, hbodies, hnodup.count]
  by_cases hmem : (offset, cause) ∈ Glyph.misfits 0 (Glyph.ofBytes bytes)
  · rw [if_pos hmem, if_pos hmem]
    split <;> rfl
  · rw [if_neg hmem, if_neg hmem, ite_self]

/-- Two bytes that begin no character, the second of them in the body of a pragma line. -/
theorem scanAll_misfits_bytes :
    let source := Glyph.ofBytes (0xFF :: utf8 "\n# gad: " ++ [0xFF])
    ∃ c, start? ⟨"main", 1, 10, [0]⟩ {} source = .ok c ∧
      c.scanAll.1.errors.countP (fun e => e.place.offset = 0 ∧ e.cause = .illegalEncoding) = 1 ∧
      c.scanAll.1.errors.countP (fun e => e.place.offset = 9 ∧ e.cause = .illegalEncoding) = 2 := by
  intro source
  obtain ⟨c, hstart, hcount⟩ := scanAll_misfits ⟨"main", 1, 10, [0]⟩ {}
    (0xFF :: utf8 "\n# gad: " ++ [0xFF]) (by decide +kernel)
  have hsize : start? ⟨"main", 1, 10, [0]⟩ {} source =
      .ok (start ⟨"main", 1, 10, [0]⟩ {} source) := if_pos (by decide +kernel)
  refine ⟨c, hstart, ?_, ?_⟩
  all_goals
    rw [hcount _ _ rfl]
    cases hstart.symm.trans hsize
    decide +kernel

/-- A byte order mark in a comment, which is in the body of a pragma line. -/
theorem scanAll_misfits_twice : ∃ c,
    start? ⟨"main", 1, 14, [0]⟩ {} (Glyph.ofBytes (utf8 "# gad: // \uFEFF\n")) = .ok c ∧
      Glyph.misfits 0 (Glyph.ofBytes (utf8 "# gad: // \uFEFF\n")) = [(10, .illegalByteOrderMark)] ∧
      c.scanAll.1.errors.countP
        (fun e => e.place.offset = 10 ∧ e.cause = .illegalByteOrderMark) = 2 := by
  refine ⟨start ⟨"main", 1, 14, [0]⟩ {} (Glyph.ofBytes (utf8 "# gad: // \uFEFF\n")), ?_, ?_, ?_⟩
  · exact if_pos (by decide +kernel)
  · decide +kernel
  · decide +kernel

end Cursor

end TemplateScript
