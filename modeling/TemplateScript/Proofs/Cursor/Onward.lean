import TemplateScript.Proofs.Cursor.Lexeme

/-!
# Tokens side by side

Cursors side by side read token after token alike, until the inner source is used up. Then the
second cursor has nothing but the end of the file, and the first one reads on behind the line break,
where it finds what it would find at the start of a source of its own.
-/

namespace TemplateScript

namespace Cursor

variable {c : Cursor}

/-- Most glyphs are nothing to report. -/
theorem arrive_fit (h : ∀ g ∈ c.rest.head?, ∃ ch, g = .char ch ∧ ch ≠ byteOrderMark) :
    c.arrive = c := by
  unfold arrive
  split
  · next b rest hrest =>
    obtain ⟨ch, hch, -⟩ := h (.byte b) (by rw [hrest]; rfl)
    cases hch
  · next ch rest hrest =>
    obtain ⟨ch', hch, hne⟩ := h (.char ch) (by rw [hrest]; rfl)
    cases hch
    exact if_neg fun k => hne k.1
  · rfl

theorem withPending_eq {pending : Bool} (h : c.pending = pending) : { c with pending } = c := by
  subst h
  rfl

theorem advanceBy_add (m n : Nat) (c : Cursor) :
    c.advanceBy (m + n) = (c.advanceBy m).advanceBy n := by
  induction m generalizing c with
  | zero => rw [Nat.zero_add, advanceBy]
  | succ m ih => rw [Nat.add_right_comm, advanceBy, advanceBy, ih]

/-- A blank is not left behind the blanks. -/
theorem skipBlanks_stops {g : Glyph} {rest : List Glyph} (h : c.skipBlanks.rest = g :: rest) :
    (g.isInlineSpace || (g = .char '\n' && !c.pending)) = false := by
  unfold skipBlanks Glyph.countWhile at h
  generalize hp : (fun g : Glyph => g.isInlineSpace || (g = .char '\n' && !c.pending)) = p at h
  have hdrop : c.rest.drop (c.rest.takeWhile p).length = c.rest.dropWhile p := by
    have hleft : (c.rest.takeWhile p ++ c.rest.dropWhile p).drop (c.rest.takeWhile p).length =
        c.rest.dropWhile p := List.drop_left
    rwa [List.takeWhile_append_dropWhile] at hleft
  have hstop := List.head?_dropWhile_not p c.rest
  rw [← hdrop, ← advanceBy_rest, h, ← hp] at hstop
  exact hstop

theorem skipBlanks_skipBlanks (c : Cursor) : c.skipBlanks.skipBlanks = c.skipBlanks := by
  have hpending : c.skipBlanks.pending = c.pending := advanceBy_pending _ _
  have hcount : Glyph.countWhile (fun g => g.isInlineSpace || (g = .char '\n' && !c.pending))
      c.skipBlanks.rest = 0 := by
    cases hrest : c.skipBlanks.rest with
    | nil => rfl
    | cons g rest =>
      rw [Glyph.countWhile, List.takeWhile_cons_of_neg (by simp [skipBlanks_stops hrest]),
        List.length_nil]
  rw [skipBlanks, hpending, hcount, advanceBy]

/-- The first token that is read as code. -/
def codeToken (c : Cursor) : Cursor × Token := (c.code.1, c.code.2.1)

/-- What is read depends on what is behind the blanks. -/
theorem codeToken_congr {b : Cursor} (h : c.skipBlanks = b.skipBlanks) :
    c.codeToken = b.codeToken := by
  rw [codeToken, codeToken, code.eq_def c, code.eq_def b, h]

/-- What is read as code, where there is nothing but code. -/
theorem IsCode.codeToken_eq (h : c.skipBlanks.IsCode) :
    c.codeToken =
      match c.skipBlanks.rest with
      | [] =>
        if c.skipBlanks.pending then
          ({ c.skipBlanks with pending := false }, c.skipBlanks.insertedSemicolon)
        else (c.skipBlanks, c.skipBlanks.endOfFile)
      | g :: _ =>
        if c.skipBlanks.atComment then
          if c.skipBlanks.pending && commentEndsLine c.skipBlanks.rest then
            ({ c.skipBlanks with pending := false }, c.skipBlanks.insertedSemicolon)
          else if c.skipBlanks.options.comments then
            c.skipBlanks.comment
          else c.skipBlanks.comment.1.codeToken
        else if g = .char '\n' then
          ({ c.skipBlanks.advance with pending := false }, c.skipBlanks.insertedSemicolon)
        else c.skipBlanks.lexeme g := by
  rw [codeToken, code.eq_def]
  simp only [codeEnd?_eq h.toIsCode, pragmaLine?_eq h.toIsCode]
  split
  · next hrest =>
    simp only [hrest]
    split <;> rfl
  · next hrest =>
    simp only [hrest]
    split
    · split
      · rfl
      · split <;> rfl
    · split <;> rfl

/-- The next token, where there is nothing but code. -/
theorem IsCode.scan_eq (h : c.IsCode) :
    c.scan = ({ c.codeToken.1 with pool := [] }, c.codeToken.2) := by
  rw [scan, h.pool_eq, h.inText_eq]
  simp only [Bool.false_eq_true, if_false, (code_isPlain c h.toIsCode).1]
  rfl

theorem withPool_eq (h : c.pool = []) : { c with pool := [] } = c := by
  rw [← h]

/-- At the end there is nothing but the end. -/
theorem IsCode.scan_end (h : c.IsCode) (hrest : c.rest = []) (hpending : c.pending = false) :
    c.scan = (c, c.endOfFile) := by
  have hblanks : c.skipBlanks = c := by
    rw [skipBlanks, hrest]
    rfl
  have htoken := codeToken_eq (hblanks.symm ▸ h)
  rw [hblanks, hrest, hpending] at htoken
  rw [h.scan_eq, htoken]
  exact congrArg (·, c.endOfFile) (withPool_eq h.pool_eq)

theorem IsCode.advance (h : c.IsCode) : c.advance.IsCode where
  toIsCode := (advance_options c).symm ▸ h.toIsCode
  inText_eq := (advance_inText c).trans h.inText_eq
  pool_eq := (advance_pool c).trans h.pool_eq

end Cursor

namespace Inset

variable {i : Inset} {c₁ c₂ d₁ d₂ : Cursor}

/-- The inner source is used up, and the first cursor stands behind the line break that follows. -/
structure Behind (i : Inset) (c₁ c₂ : Cursor) : Prop extends i.Along c₁ c₂ where
  after_ne : i.after ≠ []
  rest₁_eq : c₁.rest = i.after.tail
  rest₂_eq : c₂.rest = []
  pending₁_eq : c₁.pending = false
  pending₂_eq : c₂.pending = false

/-- Moving past the line break behind the inner source. -/
theorem Beside.behind (h : i.Beside c₁ c₂) (hafter : i.after ≠ []) (hrest : c₂.rest = []) :
    i.Behind { c₁.advance with pending := false } { c₂ with pending := false } := by
  obtain ⟨g, rest, hg⟩ := List.exists_cons_of_ne_nil hafter
  have hrest₁ : c₁.rest = g :: rest := by rw [h.rest_eq, hrest, hg, List.nil_append]
  have hquiet : c₁.advance =
      { c₁.leave g with rest, offset := c₁.offset + g.width } := by
    rw [Cursor.advance, hrest₁]
    refine Cursor.arrive_fit ?_
    have hfit := i.fit_after
    rwa [hg] at hfit
  have herrors : c₁.advance.errors = c₁.errors := by
    rw [hquiet, Cursor.leave]
    split <;> rfl
  have htaken : c₁.advance.taken = c₁.taken := by
    rw [hquiet, Cursor.leave]
    split <;> rfl
  have hname : c₁.advance.file.name = c₁.file.name := by
    rw [hquiet, Cursor.leave]
    split
    · exact SourceFile.addLine_name ..
    · rfl
  exact {
    inWhole := h.inWhole.reaches ((Cursor.reaches_advance c₁).trans (.of_eq rfl rfl rfl rfl))
    inSource := h.inSource.reaches (.of_eq rfl rfl rfl rfl)
    options_eq := (Cursor.advance_options c₁).trans h.options_eq
    name_eq := hname.trans h.name_eq
    isCode₁ := { h.isCode₁.advance with }
    isCode₂ := { h.isCode₂ with }
    taken_le₁ := by
      have := h.taken_le₁
      rwa [← htaken, ← herrors] at this
    taken_le₂ := h.taken_le₂
    newErrors_eq := by
      have := h.newErrors_eq
      rwa [Cursor.newErrors, ← htaken, ← herrors] at this
    after_ne := hafter
    rest₁_eq := by
      have := Cursor.advance_rest c₁
      rwa [hrest₁, ← hg] at this
    rest₂_eq := hrest
    pending₁_eq := rfl
    pending₂_eq := rfl }

/-- What two cursors side by side read: the same token; or the last token, a semicolon, and what the
first one finds next stands behind the inner source; or that at once. -/
inductive Onward (i : Inset) (read : Cursor → Cursor × Token) (c₁ : Cursor) : Cursor × Token → Prop
  | spoiled {read₂ : Cursor × Token} (h : i.Spoiled read₂.1) : Onward i read c₁ read₂
  | same {read₂ : Cursor × Token} (hcursor : i.Beside (read c₁).1 read₂.1)
    (htoken : i.SameToken (read c₁).2 read₂.2) (hend : i.after ≠ [] → read₂.2.kind ≠ .eof) :
    Onward i read c₁ read₂
  | last {read₂ : Cursor × Token} (hcursor : i.Behind (read c₁).1 read₂.1)
    (htoken : i.SameToken (read c₁).2 read₂.2) (hkind : read₂.2.kind = .semicolon) :
    Onward i read c₁ read₂
  | past {b : Cursor} {read₂ : Cursor × Token} (hcursor : i.Behind b read₂.1)
    (hread : read c₁ = read b) (hkind : read₂.2.kind = .eof) : Onward i read c₁ read₂

theorem Onward.congr {read : Cursor → Cursor × Token} {read₂ : Cursor × Token}
    (h : read c₁ = read d₁) (k : i.Onward read d₁ read₂) : i.Onward read c₁ read₂ := by
  cases k with
  | spoiled k => exact .spoiled k
  | same hcursor htoken hend =>
    rw [← h] at hcursor htoken
    exact .same hcursor htoken hend
  | last hcursor htoken hkind =>
    rw [← h] at hcursor htoken
    exact .last hcursor htoken hkind
  | past hcursor hread hkind => exact .past hcursor (h.trans hread) hkind

/-- The same token is read, and no more than that. -/
theorem Alike.onward {read : Cursor → Cursor × Token} {read₁ read₂ : Cursor × Token}
    (h : i.Alike i.SameToken read₁ read₂) (hread : read c₁ = read₁)
    (hend : i.after ≠ [] → read₂.2.kind ≠ .eof) : i.Onward read c₁ read₂ := by
  obtain hspoiled | ⟨hcursor, htoken⟩ := h
  · exact .spoiled hspoiled
  · rw [← hread] at hcursor htoken
    exact .same hcursor htoken hend

namespace Beside

theorem atComment_eq (h : i.Beside c₁ c₂) : c₁.atComment = c₂.atComment := by
  rw [Cursor.atComment, Cursor.atComment, h.rest_eq, Cursor.startsLineComment_append i.break_after,
    Glyph.startsWith_append i.break_after (by decide)]

theorem commentEndsLine_eq (h : i.Beside c₁ c₂) (hcomment : c₂.atComment = true) :
    Cursor.commentEndsLine c₁.rest = Cursor.commentEndsLine c₂.rest := by
  rw [h.rest_eq]
  by_cases hline : Cursor.startsLineComment c₂.rest = true
  · have hline₁ := Cursor.startsLineComment_append i.break_after c₂.rest
    rw [hline] at hline₁
    rw [Cursor.commentEndsLine, Cursor.commentEndsLine, if_pos hline, if_pos hline₁]
  · unfold Cursor.atComment at hcomment
    exact Cursor.commentEndsLine_append i.break_after
      ((Bool.or_eq_true_iff.1 hcomment).resolve_left hline)

/-- Blanks are skipped side by side; or they run over the end of the inner source, which then is as
good as used up. -/
theorem skipBlanks_cases (h : i.Beside c₁ c₂) :
    i.Abreast c₁.skipBlanks c₂.skipBlanks ∨
      c₂.skipBlanks.rest = [] ∧ c₂.skipBlanks.pending = false ∧
        ∃ b, i.Behind b c₂.skipBlanks ∧ c₁.skipBlanks = b.skipBlanks := by
  have hpending : c₂.skipBlanks.pending = c₂.pending := Cursor.advanceBy_pending _ _
  unfold Cursor.skipBlanks at hpending ⊢
  rw [h.rest_eq, h.pending_eq]
  generalize hp : (fun g : Glyph => g.isInlineSpace || (g = .char '\n' && !c₂.pending)) = p
  rw [hp] at hpending
  by_cases hbreak : p (.char '\n') = false
  · rw [Glyph.countWhile_append i.break_after hbreak]
    exact .inl (h.advanceBy (List.takeWhile_prefix p).length_le)
  by_cases hinside : Glyph.countWhile p c₂.rest = c₂.rest.length
  swap
  · have hcount : Glyph.countWhile p (c₂.rest ++ i.after) = Glyph.countWhile p c₂.rest := by
      unfold Glyph.countWhile at hinside ⊢
      rw [List.takeWhile_append, if_neg hinside]
    rw [hcount]
    exact .inl (h.advanceBy (List.takeWhile_prefix p).length_le)
  have hcount : Glyph.countWhile p (c₂.rest ++ i.after) =
      c₂.rest.length + Glyph.countWhile p i.after := by
    unfold Glyph.countWhile at hinside ⊢
    rw [List.takeWhile_append, if_pos hinside, List.length_append]
  rw [hcount, hinside, Cursor.advanceBy_add]
  have hd := h.advanceBy (Nat.le_refl _)
  cases hafter : i.after with
  | nil => exact .inl hd
  | cons g rest =>
    refine hd.imp .inl fun hd => ?_
    have hg : g = .char '\n' := i.break_after g (by rw [hafter]; rfl)
    have hnone : c₂.pending = false := by
      rw [← hp] at hbreak
      simpa [Glyph.isInlineSpace] using hbreak
    rw [hnone] at hpending
    have hpending₁ : (c₁.advanceBy c₂.rest.length).advance.pending = false := by
      rw [Cursor.advance_pending, Cursor.advanceBy_pending, h.pending_eq, hnone]
    rw [hinside] at hpending
    refine ⟨by simp, hpending, (c₁.advanceBy c₂.rest.length).advance, ?_, ?_⟩
    · have hbehind := hd.behind (by simp [hafter]) (by simp)
      rwa [Cursor.withPending_eq hpending₁, Cursor.withPending_eq hpending] at hbehind
    · have hrest : (c₁.advanceBy c₂.rest.length).advance.rest = rest := by
        rw [Cursor.advance_rest, Cursor.advanceBy_rest, h.rest_eq, List.drop_left, hafter,
          List.tail_cons]
      rw [Glyph.countWhile, List.takeWhile_cons_of_pos (by rwa [hg, ← Bool.not_eq_false]),
        List.length_cons, Cursor.advanceBy, hpending₁, hrest, ← hp, hnone, Glyph.countWhile]

/-- What code is read behind the blanks, given that of what is behind a comment. -/
theorem behindBlanks_onward (h : i.Beside c₁ c₂) (hblanks₁ : c₁.skipBlanks = c₁)
    (hblanks₂ : c₂.skipBlanks = c₂)
    (hcomment : i.Beside c₁.comment.1 c₂.comment.1 → c₂.rest ≠ [] →
      i.Onward Cursor.codeToken c₁.comment.1 c₂.comment.1.codeToken) :
    i.Onward Cursor.codeToken c₁ c₂.codeToken := by
  have hcode₁ := Cursor.IsCode.codeToken_eq (c := c₁) (by rw [hblanks₁]; exact h.isCode₁)
  rw [Cursor.IsCode.codeToken_eq (c := c₂) (by rw [hblanks₂]; exact h.isCode₂)]
  rw [hblanks₁] at hcode₁
  rw [hblanks₂]
  have hinserted : i.SameToken c₁.insertedSemicolon c₂.insertedSemicolon := by
    rw [SameToken, Cursor.insertedSemicolon, h.offset_eq]
    rfl
  have hsemicolon : i.Alike i.SameToken ({ c₁ with pending := false }, c₁.insertedSemicolon)
      ({ c₂ with pending := false }, c₂.insertedSemicolon) :=
    .inr ⟨h.withPending false, hinserted⟩
  have heof : i.Alike i.SameToken (c₁, c₁.endOfFile) (c₂, c₂.endOfFile) := by
    refine .inr ⟨h, ?_⟩
    rw [SameToken, Cursor.endOfFile, h.offset_eq]
    rfl
  cases hrest : c₂.rest with
  | nil =>
    have hrest₁ : c₁.rest = i.after := by rw [h.rest_eq, hrest, List.nil_append]
    cases hafter : i.after with
    | nil =>
      rw [hrest₁, hafter, h.pending_eq] at hcode₁
      dsimp only at hcode₁ ⊢
      split
      · next hset =>
        rw [if_pos hset] at hcode₁
        exact hsemicolon.onward hcode₁ fun hne => absurd hafter hne
      · next hset =>
        rw [if_neg hset] at hcode₁
        exact heof.onward hcode₁ fun hne => absurd hafter hne
    | cons g rest =>
      have hg : g = .char '\n' := i.break_after g (by rw [hafter]; rfl)
      have hset : c₂.pending = true := by
        have hstop := Cursor.skipBlanks_stops (c := c₁) (by rw [hblanks₁, hrest₁, hafter])
        rw [hg, h.pending_eq] at hstop
        simpa [Glyph.isInlineSpace] using hstop
      have hline : ¬ c₁.atComment = true := by
        rw [Cursor.atComment, hrest₁, hafter, hg]
        simp [Cursor.startsLineComment, Glyph.startsWith, Glyph.ofText]
      rw [hrest₁, hafter] at hcode₁
      dsimp only at hcode₁ ⊢
      rw [if_neg hline, if_pos hg] at hcode₁
      rw [if_pos hset]
      refine .last ?_ ?_ rfl
      · rw [hcode₁]
        exact h.behind (by simp [hafter]) hrest
      · rwa [hcode₁]
  | cons g rest =>
    have hrest₁ : c₁.rest = g :: (rest ++ i.after) := by rw [h.rest_eq, hrest, List.cons_append]
    rw [hrest₁] at hcode₁
    dsimp only at hcode₁ ⊢
    rw [h.atComment_eq, h.pending_eq] at hcode₁
    by_cases hcommented : c₂.atComment = true
    · rw [if_pos hcommented, ← hrest₁, h.commentEndsLine_eq hcommented] at hcode₁
      rw [if_pos hcommented, ← hrest]
      by_cases hends : (c₂.pending && Cursor.commentEndsLine c₂.rest) = true
      · rw [if_pos hends] at hcode₁ ⊢
        exact hsemicolon.onward hcode₁ fun _ => by rintro ⟨⟩
      rw [if_neg hends] at hcode₁ ⊢
      have halike := h.comment_alike hcommented
      rw [h.options_eq] at hcode₁
      by_cases hcomments : c₂.options.comments = true
      · rw [if_pos hcomments] at hcode₁ ⊢
        refine halike.onward hcode₁ fun _ => ?_
        rw [c₂.comment_kind]
        decide
      · rw [if_neg hcomments] at hcode₁ ⊢
        obtain hspoiled | ⟨k, -⟩ := halike
        · exact .spoiled (hspoiled.reaches (Cursor.code_reaches_placed _).1)
        · exact .congr hcode₁ (hcomment k (by simp [hrest]))
    rw [if_neg hcommented] at hcode₁ ⊢
    by_cases hg : g = .char '\n'
    · rw [if_pos hg] at hcode₁ ⊢
      have hadvance : i.Alike i.SameToken ({ c₁.advance with pending := false },
          c₁.insertedSemicolon) ({ c₂.advance with pending := false }, c₂.insertedSemicolon) :=
        (h.advance hrest).reads (.of_eq rfl rfl rfl rfl) fun k =>
          .inr ⟨k.withPending false, hinserted⟩
      exact hadvance.onward hcode₁ fun _ => by rintro ⟨⟩
    · rw [if_neg hg] at hcode₁ ⊢
      refine (h.lexeme_alike hrest).onward hcode₁ fun _ hkind => ?_
      have houter := Cursor.lexeme_isOuter c₂ g
      rw [hkind] at houter
      cases houter

theorem code_onward (h : i.Beside c₁ c₂) : i.Onward Cursor.codeToken c₁ c₂.codeToken := by
  induction hn : c₂.rest.length using Nat.strongRecOn generalizing c₁ c₂ with
  | ind n ih =>
    have hcode₁ := Cursor.codeToken_congr (Cursor.skipBlanks_skipBlanks c₁)
    have hcode₂ := Cursor.codeToken_congr (Cursor.skipBlanks_skipBlanks c₂)
    obtain hskip | ⟨hrest, hpending, b, hbehind, hblanks⟩ := h.skipBlanks_cases
    · rw [← hcode₂]
      obtain hspoiled | k := hskip
      · exact .spoiled (hspoiled.reaches (Cursor.code_reaches_placed _).1)
      refine .congr hcode₁.symm (k.behindBlanks_onward (Cursor.skipBlanks_skipBlanks c₁)
        (Cursor.skipBlanks_skipBlanks c₂) fun k hne => ih _ ?_ k rfl)
      rw [← hn]
      exact Nat.lt_of_lt_of_le (Cursor.comment_length_lt _ hne) (Cursor.skipBlanks_length_le c₂)
    · rw [Cursor.IsCode.codeToken_eq ?_, hrest]
      · simp only [hpending]
        exact .past hbehind (Cursor.codeToken_congr hblanks) rfl
      · exact hbehind.isCode₂

end Beside

/-- A used up source has nothing left but its end. -/
theorem Behind.scan₂ (h : i.Behind c₁ c₂) : c₂.scan = (c₂, c₂.endOfFile) :=
  h.isCode₂.scan_end h.rest₂_eq h.pending₂_eq

/-- The line break behind a source and what follows it, as far as nothing is wrong with that. -/
def leading (source rest : List Glyph)
    (hrest : ∀ g ∈ rest.head?, ∃ c, g = .char c ∧ c ≠ Cursor.byteOrderMark) : Inset where
  before := []
  source
  after := .char '\n' :: rest
  break_after := by simp
  fit_after := hrest
  break_before := nofun

/-- A source behind another one and a line break. -/
def trailing (before source : List Glyph) (hsource : source ≠ []) : Inset where
  before := before ++ [.char '\n']
  source
  after := []
  break_after := nofun
  fit_after := nofun
  break_before := fun _ => ⟨hsource, before, rfl⟩

/-- Behind a source and a line break, the next source is found as if it stood alone. -/
theorem trailing_start {source rest : List Glyph} (hne : rest ≠ [])
    (hfit : ∀ g ∈ rest.head?, ∃ c, g = .char c ∧ c ≠ Cursor.byteOrderMark) {c : Cursor}
    (hwhole : c.InSource (source ++ .char '\n' :: rest)) (hcode : c.IsCode) (hrest : c.rest = rest)
    (hpending : c.pending = false) (htaken : c.taken ≤ c.errors.length) (hnew : c.newErrors = [])
    {file : SourceFile} (hsize : file.size = Glyph.widths rest) (hlines : file.lines = [0])
    (hname : file.name = c.file.name) :
    (trailing source rest hne).Beside c (Cursor.start file c.options rest) := by
  let start : Cursor :=
    { file, options := c.options, rest, inText := c.options.mixed }
  have hstart : Cursor.start file c.options rest = start := by
    have hmark : rest.head? ≠ some (.char Cursor.byteOrderMark) := by
      intro hhead
      obtain ⟨ch, hch, hne⟩ := hfit _ hhead
      cases hch
      exact hne rfl
    rw [Cursor.start]
    dsimp only
    rw [Cursor.arrive_fit hfit]
    exact if_neg hmark
  have heq : source ++ .char '\n' :: rest = (trailing source rest hne).whole := by
    simp [whole, trailing]
  rw [hstart]
  exact {
    inWhole := heq ▸ hwhole
    inSource := ⟨[], rfl, rfl, hsize, by simpa [Glyph.breakEnds] using hlines⟩
    rest_eq := hrest.trans (List.append_nil rest).symm
    options_eq := rfl
    pending_eq := hpending
    name_eq := hname.symm
    isCode₁ := hcode
    isCode₂ := { hcode.toIsCode with
      inText_eq := hcode.mixed_eq
      pool_eq := rfl }
    taken_le₁ := htaken
    taken_le₂ := Nat.le_refl _
    newErrors_eq := hnew }

theorem Beside.scan_onward (h : i.Beside c₁ c₂) : i.Onward Cursor.scan c₁ c₂.scan := by
  have hcode := h.code_onward
  generalize hread₂ : c₂.codeToken = read₂ at hcode
  have hscan₁ := h.isCode₁.scan_eq
  rw [h.isCode₂.scan_eq, hread₂]
  cases hcode with
  | spoiled k => exact .spoiled (k.reaches (.of_eq rfl rfl rfl rfl))
  | same hcursor htoken hend =>
    rw [Cursor.withPool_eq hcursor.isCode₁.pool_eq] at hscan₁
    rw [Cursor.withPool_eq hcursor.isCode₂.pool_eq]
    refine .same ?_ ?_ hend
    · rwa [hscan₁]
    · rwa [hscan₁]
  | last hcursor htoken hkind =>
    rw [Cursor.withPool_eq hcursor.isCode₁.pool_eq] at hscan₁
    rw [Cursor.withPool_eq hcursor.isCode₂.pool_eq]
    refine .last ?_ ?_ hkind
    · rwa [hscan₁]
    · rwa [hscan₁]
  | past hcursor hread hkind =>
    rw [Cursor.withPool_eq hcursor.isCode₂.pool_eq]
    refine .past hcursor ?_ hkind
    rw [hscan₁, hcursor.isCode₁.scan_eq, hread]

end Inset

end TemplateScript
