import Mathlib.Data.List.DropRight
import TemplateScript.Proofs.Cursor.Fidelity
import TemplateScript.Proofs.Cursor.Onward
import TemplateScript.Proofs.Cursor.PragmaLine

/-!
# Inserted semicolons

In code, a line break or the end of the file stands for a semicolon exactly behind a token that may
end a statement. The reader decides this before it has seen what comes next: at a comment it only
guesses, from the glyphs, whether the line ends there. The guess is always right.
-/

namespace TemplateScript

/-- The options under which line breaks end statements and comments are left out. -/
structure ScanOptions.InsertsSemicolons (o : ScanOptions) : Prop extends o.IsCode where
  comments_eq : o.comments = false
  noAutoSemicolons_eq : o.noAutoSemicolons = false

namespace Cursor

variable {c later : Cursor}

/-! ### Walks through code -/

theorem code_walks (c : Cursor) (h : c.options.IsCode) : c.Walks 0 c.code.1 := by
  fun_induction code c with
  | case1 c start last token hend =>
    rw [codeEnd?_eq ((skipBlanks_options c).symm ▸ h)] at hend
    cases hend
  | case2 c start _ head hhead =>
    rw [pragmaLine?_eq ((skipBlanks_options c).symm ▸ h)] at hhead
    cases hhead
  | case3 c start => exact .settle (walks_skipBlanks c) _ _
  | case4 c start => exact walks_skipBlanks c
  | case5 c start => exact .settle (walks_skipBlanks c) _ _
  | case6 c start => exact (walks_skipBlanks c).trans (walks_comment start)
  | case7 c start _ _ g rest hrest hcomment hpending hcomments ih =>
    exact (walks_skipBlanks c).trans ((walks_comment start).trans
      (ih ((comment_options start).trans (skipBlanks_options c) ▸ h)))
  | case8 c start => exact .settle (.advance (walks_skipBlanks c)) _ _
  | case9 c start _ _ g => exact (walks_skipBlanks c).trans (walks_lexeme start g)

/-- A glyph that is no character is reported when a cursor comes to it. -/
theorem arrive_errors_eq_nil (h : c.arrive.errors = []) :
    c.errors = [] ∧ ∀ g ∈ c.rest.head?, ∃ ch, g = .char ch := by
  unfold arrive at h
  split at h
  · simp [report] at h
  · next ch rest hrest =>
    refine ⟨?_, by simp [hrest]⟩
    split at h
    · simp [report] at h
    · exact h
  · next hrest => exact ⟨h, by simp [hrest]⟩

/-- A walk on which nothing is reported passes what is fit to stand in a source, and ends before it.
-/
theorem Walks.isFit (h : c.Walks 0 later) (hhead : ∀ g ∈ c.rest.head?, g.IsFit)
    (herrors : later.errors = []) : ∃ read, c.rest = read ++ later.rest ∧
      (∀ g ∈ read, g.IsFit) ∧ ∀ g ∈ later.rest.head?, g.IsFit := by
  induction h with
  | refl => exact ⟨[], rfl, List.forall_mem_nil _, hhead⟩
  | @advance later h ih =>
    have hbefore : later.errors = [] :=
      List.eq_nil_of_prefix_nil (herrors ▸ (reaches_advance later).errors_grow)
    obtain ⟨read, hread, hfit, hnow⟩ := ih hbefore
    cases hrest : later.rest with
    | nil =>
      have hstays : later.advance.rest = later.rest := by rw [advance_rest, hrest, List.tail_nil]
      rw [hstays]
      exact ⟨read, hread, hfit, hnow⟩
    | cons g rest =>
      have hg : g.IsFit := hnow g (by rw [hrest]; rfl)
      refine ⟨read ++ [g], ?_, ?_, ?_⟩
      · rw [hread, advance_rest, hrest]
        simp
      · exact List.forall_mem_append.2 ⟨hfit, List.forall_mem_singleton.2 hg⟩
      · rw [advance_rest, hrest]
        exact fit_of_advance_errors hrest herrors
  | report h cause hoffset _ ih => simp [Cursor.report] at herrors
  | settle h pending nesting ih => exact ih herrors

/-! ### Where a line ends -/

/-- What is left begins, behind blanks and comments, with a line break or with the end. -/
def Breaking (glyphs : List Glyph) : Prop :=
  endsHere glyphs = true ∨ (Glyph.startsWith glyphs "/*" = true ∧ commentEndsLine glyphs = true)

theorem comment_pending (c : Cursor) : c.comment.1.pending = c.pending := by
  unfold comment
  split
  · exact advanceBy_pending _ c
  · dsimp only [blockComment]
    split
    · exact advanceBy_pending _ c
    · rw [advanceBy_pending, advanceBy_pending]

theorem endsHere_of_break {rest : List Glyph} : endsHere (.char '\n' :: rest) = true := by
  unfold endsHere
  rw [List.dropWhile_cons_of_neg (by decide)]
  rfl

/-- The rest of a line that begins with no blank ends here only as it stands. -/
theorem endsHere_cons {g : Glyph} {rest : List Glyph} (hg : g.isInlineSpace = false) :
    endsHere (g :: rest) = (g = .char '\n' || startsLineComment (g :: rest)) := by
  unfold endsHere
  rw [List.dropWhile_cons_of_neg (by simp [hg])]

theorem startsLineComment_head {glyphs : List Glyph} (h : startsLineComment glyphs = true) :
    ∃ g rest, glyphs = g :: rest ∧ g.isInlineSpace = false := by
  rcases Bool.or_eq_true_iff.1 h with h | h
  · obtain ⟨rest, rfl⟩ := startsWith_head rfl h
    exact ⟨_, rest, rfl, rfl⟩
  · obtain ⟨rest, rfl⟩ := startsWith_head rfl h
    exact ⟨_, rest, rfl, rfl⟩

/-- In code, a line comment reaches up to the line break. -/
theorem lineComment_ends (h : c.options.IsCode) : endsHere c.lineComment.rest = true := by
  have hdelimited : c.isDelimited = false := by
    unfold isDelimited
    rw [h.mixed_eq]
    rfl
  unfold lineComment
  rw [hdelimited]
  simp only [Bool.false_and, Bool.or_false]
  generalize hstop : (fun glyphs : List Glyph => decide (glyphs.head? = some (.char '\n'))) = stop
  have hrest : (c.advanceBy (Glyph.countUntil stop c.rest.tail + 1)).rest =
      c.rest.tail.drop (Glyph.countUntil stop c.rest.tail) := by
    rw [advanceBy_rest, List.drop_tail]
  rw [hrest]
  by_cases hlt : Glyph.countUntil stop c.rest.tail < c.rest.tail.length
  · have hstops := Glyph.stop_countUntil stop c.rest.tail hlt
    rw [← hstop] at hstops ⊢
    obtain ⟨rest, hbreak⟩ := List.head?_eq_some_iff.1 (of_decide_eq_true hstops)
    rw [hbreak, endsHere_of_break]
  · rw [List.drop_of_length_le (Nat.le_of_not_lt hlt)]
    rfl

/-- A block comment that ends, and whether it was guessed to end its line. -/
theorem blockComment_split (hstart : Glyph.startsWith c.rest "/*" = true)
    (hline : ¬ startsLineComment c.rest = true) (herrors : c.comment.1.errors = []) :
    ∃ body, c.rest = Glyph.ofText "/*" ++ (body ++ (Glyph.ofText "*/" ++ c.comment.1.rest)) ∧
      commentEndsLine c.rest = (body.contains (.char '\n') || endsHere c.comment.1.rest) := by
  have hopening : Glyph.ofText "/*" ++ c.rest.drop 2 = c.rest := ofText_append_drop hstart
  generalize hbody : c.rest.drop 2 = body at hopening
  generalize hinside : Glyph.countUntil (Glyph.startsWith · "*/") body = inside
  have hle : inside ≤ body.length := hinside ▸ Glyph.countUntil_le _ body
  have hlast : (c.advanceBy (inside + 2)).rest = body.drop inside := by
    rw [advanceBy_rest, Nat.add_comm, ← List.drop_drop, hbody]
  have hcomment : c.comment.1 =
      if body.drop inside = [] then (c.advanceBy (inside + 2)).report c.offset .unterminatedComment
      else (c.advanceBy (inside + 2)).advanceBy 2 := by
    unfold comment
    rw [if_neg hline]
    unfold blockComment
    simp only [hbody, hinside, hlast]
  have hlt : inside < body.length := by
    refine Nat.lt_of_le_of_ne hle fun heq => ?_
    rw [hcomment, if_pos (by rw [heq, List.drop_length])] at herrors
    simp [report] at herrors
  have hclosing := Glyph.stop_countUntil (Glyph.startsWith · "*/") body (hinside.symm ▸ hlt)
  rw [hinside] at hclosing
  have hsplit : Glyph.ofText "*/" ++ (body.drop inside).drop 2 = body.drop inside :=
    ofText_append_drop hclosing
  have hrest : c.comment.1.rest = (body.drop inside).drop 2 := by
    have hne : body.drop inside ≠ [] := List.ne_nil_of_length_pos (by
      rw [List.length_drop]
      omega)
    rw [hcomment, if_neg hne, advanceBy_rest, hlast]
  refine ⟨body.take inside, ?_, ?_⟩
  · rw [hrest, hsplit, List.take_append_drop, hopening]
  · unfold commentEndsLine
    rw [if_neg hline]
    simp only [hbody, hinside]
    rw [if_neg (Nat.ne_of_lt hlt), hrest, List.drop_drop]
    split
    · next hbreak => rw [hbreak, Bool.true_or]
    · next hbreak => rw [Bool.eq_false_of_not_eq_true hbreak, Bool.false_or]

theorem Breaking.dropBlanks {glyphs : List Glyph} (h : Breaking glyphs) :
    .char '\n' ∈ glyphs.takeWhile (fun g => g.isInlineSpace || g = .char '\n') ∨
      Breaking (glyphs.dropWhile fun g => g.isInlineSpace || g = .char '\n') := by
  induction glyphs with
  | nil => exact .inr h
  | cons g rest ih =>
    by_cases hbreak : g = .char '\n'
    · rw [List.takeWhile_cons_of_pos (by simp [hbreak])]
      exact .inl (hbreak ▸ List.mem_cons_self)
    by_cases hblank : g.isInlineSpace = true
    · have hrest : Breaking rest := by
        rcases h with h | ⟨h, -⟩
        · unfold endsHere at h
          rw [List.dropWhile_cons_of_pos hblank] at h
          exact .inl h
        · obtain ⟨_, hhead⟩ := startsWith_head rfl h
          rw [(List.cons.inj hhead).1] at hblank
          cases hblank
      rw [List.takeWhile_cons_of_pos (by simp [hblank]),
        List.dropWhile_cons_of_pos (by simp [hblank])]
      exact (ih hrest).imp_left (List.mem_cons_of_mem _)
    · rw [List.dropWhile_cons_of_neg (by simp [hbreak, hblank])]
      exact .inr h

/-! ### What one read finds -/

/-- A token was found that stands in the source, or its end, behind glyphs that count for nothing.
-/
structure Finds (c : Cursor) (gap : List Glyph) (t : Token) (later : Cursor) : Prop where
  rest_eq : c.rest = gap ++ (t.glyphs ++ later.rest)
  offset_eq : later.offset = t.stop
  pos_eq : t.pos = c.offset + Glyph.widths gap
  inserted_eq : t.isInsertedSemicolon = false
  pending_eq : later.pending = t.kind.endsStatement

/-- What is read of code: a semicolon, if one is pending and the line ends, and then the line break
is in what was passed or not far; or a token, which is on the same line if a semicolon is pending.
-/
inductive CodeRead (c : Cursor) : Cursor × Token → Prop
  | inserted (gap : List Glyph) {later : Cursor} {t : Token} (hpending : c.pending = true)
    (ht : t.isInsertedSemicolon = true) (hrest : c.rest = gap ++ later.rest)
    (hoffset : later.offset = c.offset + Glyph.widths gap) (hnone : later.pending = false)
    (hbreak : .char '\n' ∈ gap ∨ Breaking later.rest) : CodeRead c (later, t)
  | found (gap : List Glyph) {later : Cursor} {t : Token} (h : c.Finds gap t later)
    (hjoined : c.pending = true → .char '\n' ∉ gap ∧ t.kind ≠ .eof)
    (hbroken : c.pending = false → Breaking c.rest → .char '\n' ∈ gap ∨ t.kind = .eof) :
    CodeRead c (later, t)

/-- What counts for nothing may be passed first. -/
theorem CodeRead.after {d : Cursor} {read : Cursor × Token} (skipped : List Glyph)
    (h : d.CodeRead read) (hrest : c.rest = skipped ++ d.rest)
    (hoffset : d.offset = c.offset + Glyph.widths skipped) (hpending : d.pending = c.pending)
    (hjoined : c.pending = true → .char '\n' ∉ skipped)
    (hbroken : c.pending = false → Breaking c.rest → .char '\n' ∈ skipped ∨ Breaking d.rest) :
    c.CodeRead read := by
  cases h with
  | @inserted gap later t hpending' ht hrest' hoffset' hnone hbreak =>
    refine .inserted (skipped ++ gap) (hpending ▸ hpending') ht ?_ ?_ hnone ?_
    · rw [hrest, hrest', List.append_assoc]
    · rw [hoffset', hoffset, Glyph.widths_append, Nat.add_assoc]
    · exact hbreak.imp_left (List.mem_append_right _)
  | @found gap later t k hjoined' hbroken' =>
    refine .found (skipped ++ gap) ⟨?_, k.offset_eq, ?_, k.inserted_eq, k.pending_eq⟩ ?_ ?_
    · rw [hrest, k.rest_eq, List.append_assoc]
    · rw [k.pos_eq, hoffset, Glyph.widths_append, Nat.add_assoc]
    · intro hset
      obtain ⟨hgap, hkind⟩ := hjoined' (hpending.trans hset)
      exact ⟨fun h => (List.mem_append.1 h).elim (hjoined hset) hgap, hkind⟩
    · intro hnone hbreaking
      rcases hbroken hnone hbreaking with hskipped | hbreaking
      · exact .inl (List.mem_append_left _ hskipped)
      · exact (hbroken' (hpending.trans hnone) hbreaking).imp_left (List.mem_append_right _)

/-- Blanks may be passed first. -/
theorem CodeRead.afterBlanks {read : Cursor × Token} (h : c.skipBlanks.CodeRead read) :
    c.CodeRead read := by
  have hpending : c.skipBlanks.pending = c.pending := advanceBy_pending _ c
  generalize hp : (fun g : Glyph => g.isInlineSpace || (g = .char '\n' && !c.pending)) = p
  have hsplit : c.skipBlanks.rest = c.rest.dropWhile p := by
    rw [skipBlanks, hp, advanceBy_rest]
    exact List.append_cancel_left
      ((List.prefix_iff_eq_append.1 (List.takeWhile_prefix p)).trans
        List.takeWhile_append_dropWhile.symm)
  have hoffset : c.skipBlanks.offset = c.offset + Glyph.widths (c.rest.takeWhile p) := by
    rw [skipBlanks, hp, offset_advanceBy, Glyph.countWhile,
      ← List.prefix_iff_eq_take.1 (List.takeWhile_prefix p)]
  refine h.after (c.rest.takeWhile p) ?_ hoffset hpending ?_ ?_
  · rw [hsplit, List.takeWhile_append_dropWhile]
  · intro hset hmem
    have hblank := List.mem_takeWhile_imp hmem
    rw [← hp, hset] at hblank
    simp [Glyph.isInlineSpace] at hblank
  · intro hnone hbreaking
    rw [hsplit, ← hp, hnone]
    simpa using hbreaking.dropBlanks

/-- A comment may be passed first, unless it was guessed to end a line that matters. -/
theorem CodeRead.afterComment {read : Cursor × Token} (hoptions : c.options.IsCode)
    (hcomment : c.atComment = true) (herrors : c.comment.1.errors = [])
    (hends : ¬ (c.pending && commentEndsLine c.rest) = true)
    (h : c.comment.1.CodeRead read) : c.CodeRead read := by
  have hpending := comment_pending c
  obtain ⟨passed, hpassed⟩ := reaches_comment c
  by_cases hline : startsLineComment c.rest = true
  · have hnone : c.pending = false := by
      unfold commentEndsLine at hends
      rw [if_pos hline, Bool.and_true] at hends
      exact Bool.eq_false_of_not_eq_true hends
    refine h.after passed hpassed.rest_eq hpassed.offset_eq hpending ?_ ?_
    · rw [hnone]
      nofun
    · intro _ _
      have hrest : c.comment.1.rest = c.lineComment.rest := by
        unfold comment
        rw [if_pos hline]
      rw [hrest]
      exact .inr (.inl (lineComment_ends hoptions))
  · have hstart := (Bool.or_eq_true_iff.1 hcomment).resolve_left hline
    obtain ⟨body, hrest, hguess⟩ := blockComment_split hstart hline herrors
    obtain rfl : passed = Glyph.ofText "/*" ++ (body ++ Glyph.ofText "*/") := by
      have hsplit := hpassed.rest_eq.symm.trans hrest
      rw [← List.append_assoc, ← List.append_assoc] at hsplit
      rw [List.append_cancel_right hsplit, List.append_assoc]
    refine h.after _ hpassed.rest_eq hpassed.offset_eq hpending ?_ ?_
    · intro hset hmem
      rw [hset, Bool.true_and, hguess] at hends
      simp [Glyph.ofText] at hmem hends
      exact hends.1 hmem
    · intro _ hbreaking
      have hguessed : commentEndsLine c.rest = true := by
        rcases hbreaking with hends | hends
        · have hword : "/*".toList = ['/', '*'] := rfl
          obtain ⟨rest, hhead⟩ := startsWith_head hword hstart
          rw [hhead] at hends hline
          rw [endsHere_cons rfl] at hends
          simp [hline] at hends
        · exact hends.2
      rw [hguess, Bool.or_eq_true] at hguessed
      refine hguessed.imp (fun hbody => ?_) .inl
      have hmem : .char '\n' ∈ body := by simpa using hbody
      simp [hmem]

/-- A line that ends here does not begin with code. -/
theorem not_breaking {g : Glyph} {rest : List Glyph} (hrest : c.rest = g :: rest)
    (hblank : g.isInlineSpace = false) (hbreak : g ≠ .char '\n') (hcomment : ¬ c.atComment = true) :
    ¬ Breaking c.rest := by
  unfold atComment at hcomment
  rw [Bool.or_eq_true, not_or] at hcomment
  rintro (hends | ⟨hstart, -⟩)
  · rw [hrest, endsHere_cons hblank, ← hrest] at hends
    simp [hbreak, hcomment.1] at hends
  · exact hcomment.2 hstart

theorem ofWord_ne_illegal (word : String) : Token.Kind.ofWord word ≠ .illegal := by
  have hkeywords : Token.Kind.illegal ∉ Token.Kind.keywords := by decide
  unfold Token.Kind.ofWord
  split
  · nofun
  · split
    · nofun
    · cases hfound : Token.Kind.keywords.find? (·.spelling = word) with
      | none => nofun
      | some kind => exact fun h => hkeywords (h ▸ List.mem_of_find?_eq_some hfound)

theorem number_illegal : c.number.2.kind = .illegal → c.number.1.errors ≠ [] := by
  have hnumbers : Token.Kind.illegal ∉ [Token.Kind.int, .uint, .float, .decimal] := by decide
  rw [number_eq]
  dsimp only
  split
  · exact fun h => absurd (h ▸ numberEnd_kind c) hnumbers
  · exact fun _ => by simp [report]

/-- A lexeme that is no token was reported. -/
theorem lexeme_illegal {g : Glyph} :
    (c.lexeme g).2.kind = .illegal → (c.lexeme g).1.errors ≠ [] := by
  have hmarks : Token.Kind.illegal ∉ Token.Kind.marks := by decide
  unfold lexeme
  split
  · exact fun h => absurd h (ofWord_ne_illegal _)
  · split
    · exact number_illegal
    · split
      · nofun
      · split
        · unfold closing char
          split <;> nofun
        · split
          · unfold closing raw
            dsimp only
            split
            · nofun
            · split <;> nofun
          · split
            · next kind hkind =>
              exact fun h => absurd (h ▸ List.mem_of_find?_eq_some hkind) hmarks
            · exact fun _ => by simp [stray, report]

/-- Behind a lexeme, a semicolon is pending if it may end a statement. -/
theorem lexeme_pending {g : Glyph} (hauto : c.options.noAutoSemicolons = false)
    (herrors : (c.lexeme g).1.errors = []) :
    (c.lexeme g).1.pending = (c.lexeme g).2.kind.endsStatement := by
  have hlegal := mt lexeme_illegal (not_not_intro herrors)
  have hclosing {read : Cursor × Token} (hread : c.lexeme g = c.closing read) :
      (c.lexeme g).1.pending = (c.lexeme g).2.kind.endsStatement := by
    rw [hread] at hlegal ⊢
    change read.2.kind ≠ .illegal at hlegal
    change ((decide (read.2.kind = .illegal) || read.2.kind.endsStatement) &&
      !c.options.noAutoSemicolons) = read.2.kind.endsStatement
    simp [hlegal, hauto]
  obtain ⟨read, hread, -⟩ | ⟨kind, -, hread⟩ | hread := lexeme_cases c g
  · exact hclosing hread
  · exact hclosing hread
  · rw [hread] at herrors
    simp [stray, report] at herrors

/-- A lexeme is found where it stands. -/
theorem finds_lexeme {g : Glyph} {rest : List Glyph} (hoptions : c.options.InsertsSemicolons)
    (htext : c.IsText) (hrest : c.rest = g :: rest) (herrors : (c.lexeme g).1.errors = []) :
    c.Finds [] (c.lexeme g).2 (c.lexeme g).1 := by
  have hglyphs := lexeme_glyphs htext hrest
  have hpos := lexeme_pos c g
  obtain ⟨read, hread⟩ := reaches_lexeme c g
  obtain rfl : (c.lexeme g).2.glyphs = read :=
    List.append_cancel_right (hglyphs.trans hread.rest_eq)
  have hinserted : (c.lexeme g).2.isInsertedSemicolon = false := by
    unfold Token.isInsertedSemicolon
    rw [lexeme_flags, Bool.and_false]
  exact ⟨hglyphs.symm, by rw [hread.offset_eq, Token.stop, hpos], hpos, hinserted,
    lexeme_pending hoptions.noAutoSemicolons_eq herrors⟩

theorem code_read (hoptions : c.options.InsertsSemicolons) (htext : c.IsText)
    (herrors : c.code.1.errors = []) : c.CodeRead (c.code.1, c.code.2.1) := by
  fun_induction code c with
  | case1 c start last token hend =>
    rw [codeEnd?_eq ((skipBlanks_options c).symm ▸ hoptions.toIsCode)] at hend
    cases hend
  | case2 c start _ head hhead =>
    rw [pragmaLine?_eq ((skipBlanks_options c).symm ▸ hoptions.toIsCode)] at hhead
    cases hhead
  | case3 c start _ _ hrest hpending =>
    refine .afterBlanks (.inserted [] hpending rfl rfl rfl rfl (.inr (.inl ?_)))
    rw [show start.rest = [] from hrest]
    rfl
  | case4 c start _ _ hrest hpending =>
    have hnone : start.pending = false := Bool.eq_false_of_not_eq_true hpending
    refine .afterBlanks (.found [] ⟨rfl, rfl, rfl, rfl, hnone⟩ ?_ fun _ _ => .inr rfl)
    rw [hnone]
    rintro ⟨⟩
  | case5 c start _ _ g rest hrest hcomment hends =>
    obtain ⟨hpending, hguess⟩ := Bool.and_eq_true_iff.1 hends
    refine .afterBlanks (.inserted [] hpending rfl rfl rfl rfl (.inr ?_))
    by_cases hline : startsLineComment start.rest = true
    · obtain ⟨g, rest, hhead, hblank⟩ := startsLineComment_head hline
      refine .inl ?_
      change endsHere start.rest = true
      rw [hhead, endsHere_cons hblank, ← hhead, hline, Bool.or_true]
    · exact .inr ⟨(Bool.or_eq_true_iff.1 hcomment).resolve_left hline, hguess⟩
  | case6 c start _ _ g rest hrest hcomment hends hcomments =>
    have hnone : start.options.comments = false := skipBlanks_options c ▸ hoptions.comments_eq
    rw [hnone] at hcomments
    cases hcomments
  | case7 c start _ _ g rest hrest hcomment hends hcomments ih =>
    have hstart : start.options = c.options := skipBlanks_options c
    have hreach := (reaches_skipBlanks c).trans (reaches_comment start)
    have hbefore : start.comment.1.errors = [] :=
      List.eq_nil_of_prefix_nil (herrors ▸ (code_reaches_placed _).1.errors_grow)
    have hread := ih (by rwa [comment_options, hstart]) (htext.reaches hreach) herrors
    exact .afterBlanks (hread.afterComment (hstart ▸ hoptions.toIsCode) hcomment hbefore hends)
  | case8 c start _ _ rest hcomment hrest =>
    have hpending : start.pending = true := by
      have hstops := skipBlanks_stops hrest
      rw [Bool.or_eq_false_iff] at hstops
      have hset : c.pending = true := by simpa using hstops.2
      exact (advanceBy_pending _ c).trans hset
    have hoffset : start.advance.offset = start.offset + Glyph.widths [.char '\n'] := by
      change (advanceBy 1 start).offset = _
      rw [offset_advanceBy, hrest]
      rfl
    refine .afterBlanks (.inserted [.char '\n'] hpending rfl ?_ hoffset rfl (.inl ?_))
    · change start.rest = _ ++ start.advance.rest
      rw [advance_rest, hrest]
      rfl
    · exact List.mem_singleton_self _
  | case9 c start _ _ g rest hrest hcomment hbreak =>
    have hstart : start.options = c.options := skipBlanks_options c
    have hfinds :=
      finds_lexeme (hstart ▸ hoptions) (htext.reaches (reaches_skipBlanks c)) hrest herrors
    have hblank := skipBlanks_stops hrest
    rw [Bool.or_eq_false_iff] at hblank
    refine .afterBlanks
      (.found [] hfinds (fun _ => ⟨List.not_mem_nil, fun h => ?_⟩) fun _ hbreaking => ?_)
    · have hkind := lexeme_isOuter start g
      rw [h] at hkind
      cases hkind
    · exact absurd hbreaking (not_breaking hrest hblank.1 hbreak hcomment)

end Cursor

/-! ### Whole sources -/

/-- The semicolons that were inserted before a token: one if a semicolon is pending and the line
ends before the token, and none otherwise. -/
structure Due (pending : Bool) (gap : List Glyph) (marks : List Token) (u : Token) : Prop where
  inserted : ∀ s ∈ marks, s.isInsertedSemicolon = true
  stands : u.isInsertedSemicolon = false
  length_eq :
    marks.length = if pending && (u.kind = .eof || gap.contains (.char '\n')) then 1 else 0

/-- The tokens of a run of glyphs from an offset on, with the semicolons that are due between them.
-/
inductive Spaced : Bool → Nat → List Glyph → List Token → Prop
  | last {pending : Bool} {offset : Nat} {gap glyphs : List Glyph} {marks : List Token} {e : Token}
    (h : Due pending gap marks e) (hpos : e.pos = offset + Glyph.widths gap)
    (hkind : e.kind = .eof) : Spaced pending offset (gap ++ glyphs) (marks ++ [e])
  | next {pending : Bool} {offset : Nat} {gap glyphs : List Glyph} {marks tokens : List Token}
    {u : Token} (h : Due pending gap marks u) (hpos : u.pos = offset + Glyph.widths gap)
    (hrest : Spaced u.kind.endsStatement u.stop glyphs tokens) :
    Spaced pending offset (gap ++ (u.glyphs ++ glyphs)) (marks ++ u :: tokens)

/-- The first token that stands in the source is where the inserted ones end. -/
theorem first_unique {marks more rest after : List Token} {t u : Token}
    (h : marks ++ t :: rest = more ++ u :: after)
    (hmarks : ∀ s ∈ marks, s.isInsertedSemicolon = true) (ht : t.isInsertedSemicolon = false)
    (hmore : ∀ s ∈ more, s.isInsertedSemicolon = true) (hu : u.isInsertedSemicolon = false) :
    marks = more ∧ t = u ∧ rest = after := by
  have htake {marks : List Token} (rest : List Token) {t : Token}
      (hmarks : ∀ s ∈ marks, s.isInsertedSemicolon = true) (ht : t.isInsertedSemicolon = false) :
      (marks ++ t :: rest).takeWhile Token.isInsertedSemicolon = marks := by
    rw [List.takeWhile_append_of_pos hmarks, List.takeWhile_cons_of_neg (by simp [ht]),
      List.append_nil]
  obtain rfl : marks = more := by
    rw [← htake rest hmarks ht, h, htake after hmore hu]
  obtain ⟨rfl, rfl⟩ := List.cons.inj (List.append_cancel_left h)
  exact ⟨rfl, rfl, rfl⟩

namespace Spaced

variable {pending : Bool} {offset : Nat} {glyphs : List Glyph} {tokens marks after : List Token}
variable {t u : Token}

/-- What is due before the first token that stands in the source. -/
theorem first (h : Spaced pending offset glyphs tokens) (heq : tokens = marks ++ u :: after)
    (hmarks : ∀ s ∈ marks, s.isInsertedSemicolon = true) (hu : u.isInsertedSemicolon = false) :
    ∃ gap rest, glyphs = gap ++ rest ∧ u.pos = offset + Glyph.widths gap ∧
      Due pending gap marks u := by
  cases h with
  | last h hpos hkind =>
    obtain ⟨rfl, rfl, -⟩ := first_unique heq h.inserted h.stands hmarks hu
    exact ⟨_, _, rfl, hpos, h⟩
  | next h hpos hrest =>
    obtain ⟨rfl, rfl, -⟩ := first_unique heq h.inserted h.stands hmarks hu
    exact ⟨_, _, rfl, hpos, h⟩

/-- A token that stands in the source is behind the inserted ones. -/
theorem split_at {marks rest before after : List Token} {u t : Token}
    (h : marks ++ u :: rest = before ++ t :: after)
    (hmarks : ∀ s ∈ marks, s.isInsertedSemicolon = true) (ht : t.isInsertedSemicolon = false) :
    ∃ skipped, u :: rest = skipped ++ t :: after := by
  rcases List.append_eq_append_iff.1 h with ⟨skipped, -, hrest⟩ | ⟨more, hmore, hrest⟩
  · exact ⟨skipped, hrest⟩
  · cases more with
    | nil => exact ⟨[], hrest.symm⟩
    | cons s more =>
      obtain ⟨rfl, -⟩ := List.cons.inj hrest
      have hinserted := hmarks t (by rw [hmore]; simp)
      rw [ht] at hinserted
      cases hinserted

/-- What is due between a token that stands in the source and the next one. -/
theorem between (h : Spaced pending offset glyphs tokens) {before : List Token}
    (heq : tokens = before ++ t :: (marks ++ u :: after)) (ht : t.isInsertedSemicolon = false)
    (hmarks : ∀ s ∈ marks, s.isInsertedSemicolon = true) (hu : u.isInsertedSemicolon = false) :
    ∃ skipped gap rest, glyphs = skipped ++ (gap ++ rest) ∧
      t.stop = offset + Glyph.widths skipped ∧ u.pos = t.stop + Glyph.widths gap ∧
      Due t.kind.endsStatement gap marks u := by
  induction h generalizing before with
  | last h hpos hkind =>
    obtain ⟨skipped, hskipped⟩ := split_at heq h.inserted ht
    have hlength := congrArg List.length hskipped
    simp at hlength
    omega
  | @next pending offset gap glyphs marks' tokens u' h hpos hrest ih =>
    obtain ⟨skipped, hskipped⟩ := split_at heq h.inserted ht
    cases skipped with
    | nil =>
      obtain ⟨rfl, hrest'⟩ := List.cons.inj hskipped
      obtain ⟨gap', rest, hglyphs, hpos', hdue⟩ := hrest.first hrest' hmarks hu
      refine ⟨gap ++ u'.glyphs, gap', rest, ?_, ?_, hpos', hdue⟩
      · rw [hglyphs, List.append_assoc]
      · rw [Token.stop, hpos, Glyph.widths_append, Nat.add_assoc]
    | cons s skipped =>
      obtain ⟨rfl, hrest'⟩ := List.cons.inj hskipped
      obtain ⟨passed, gap', rest, hglyphs, hstop, hpos', hdue⟩ := ih hrest'
      refine ⟨gap ++ (u'.glyphs ++ passed), gap', rest, ?_, ?_, hpos', hdue⟩
      · rw [hglyphs]
        simp
      · rw [hstop, Token.stop, hpos, Glyph.widths_append, Glyph.widths_append]
        omega

end Spaced

namespace Cursor

variable {c later : Cursor}

theorem IsCode.code (h : c.IsCode) : c.code.1.IsCode where
  toIsCode := (code_walks c h.toIsCode).options_eq ▸ h.toIsCode
  inText_eq := (code_walks c h.toIsCode).inText_eq.trans h.inText_eq
  pool_eq := (code_walks c h.toIsCode).pool_eq.trans h.pool_eq

theorem IsCode.scan_code (h : c.IsCode) : c.scan = (c.code.1, c.code.2.1) := by
  rw [h.scan_eq]
  exact congrArg (·, c.code.2.1) (withPool_eq h.code.pool_eq)

theorem IsCode.scanToEnd_succ (h : c.IsCode) (limit : Nat) :
    scanToEnd (limit + 1) c =
      if c.code.2.1.kind = .eof then (c.code.1, [c.code.2.1])
      else ((scanToEnd limit c.code.1).1, c.code.2.1 :: (scanToEnd limit c.code.1).2) := by
  rw [scanToEnd, h.scan_code]

theorem walks_scanToEnd (h : c.IsCode) (limit : Nat) : c.Walks 0 (scanToEnd limit c).1 := by
  induction limit generalizing c with
  | zero => exact .refl
  | succ limit ih =>
    rw [h.scanToEnd_succ]
    split
    · exact code_walks c h.toIsCode
    · exact (code_walks c h.toIsCode).trans (ih h.code)

/-- A read that finds a token makes no semicolon due, or none was. -/
theorem due_nil {gap : List Glyph} {t : Token} (hstands : t.isInsertedSemicolon = false)
    (hjoined : c.pending = true → .char '\n' ∉ gap ∧ t.kind ≠ .eof) :
    Due c.pending gap [] t where
  inserted := List.forall_mem_nil _
  stands := hstands
  length_eq := by
    cases hset : c.pending with
    | false => rfl
    | true =>
      obtain ⟨hgap, hkind⟩ := hjoined hset
      simp [hgap, hkind]

/-- A semicolon that was inserted is due if the line ends before the next token. -/
theorem due_one {gap : List Glyph} {s t : Token} (hs : s.isInsertedSemicolon = true)
    (hstands : t.isInsertedSemicolon = false) (hends : .char '\n' ∈ gap ∨ t.kind = .eof) :
    Due true gap [s] t where
  inserted := by simpa using hs
  stands := hstands
  length_eq := by
    rcases hends with hgap | hkind
    · simp [hgap]
    · simp [hkind]

/-- In code in which nothing is wrong, semicolons are where they are due. The induction needs to
know as well what becomes of a semicolon that was just inserted, in front of what is left. -/
theorem spaced_scanToEnd {limit : Nat} (hcode : c.IsCode)
    (hoptions : c.options.InsertsSemicolons) (htext : c.IsText) (hlimit : c.weight < limit)
    (herrors : (scanToEnd limit c).1.errors = []) :
    Spaced c.pending c.offset c.rest (scanToEnd limit c).2 ∧
      (c.pending = false → ∀ (gap : List Glyph) (offset : Nat) (s : Token),
        s.isInsertedSemicolon = true → c.offset = offset + Glyph.widths gap →
        .char '\n' ∈ gap ∨ Breaking c.rest →
        Spaced true offset (gap ++ c.rest) (s :: (scanToEnd limit c).2)) := by
  induction limit generalizing c with
  | zero => exact absurd hlimit (Nat.not_lt_zero _)
  | succ limit ih =>
    have hlighter := scan_weight_lt c
    have hwalk := code_walks c hcode.toIsCode
    rw [hcode.scan_code] at hlighter
    rw [hcode.scanToEnd_succ] at herrors ⊢
    have hnow : c.code.1.errors = [] := by
      split at herrors
      · exact herrors
      · exact List.eq_nil_of_prefix_nil
          (herrors ▸ (walks_scanToEnd hcode.code limit).reaches.errors_grow)
    have hread := code_read hoptions htext hnow
    have hnext (hkind : c.code.2.1.kind ≠ .eof) :=
      ih hcode.code (hwalk.options_eq ▸ hoptions) (htext.reaches hwalk.reaches)
        (Nat.lt_of_lt_of_le (hlighter hkind) (Nat.le_of_lt_succ hlimit))
    generalize c.code.1 = later at hread hnext herrors ⊢
    generalize c.code.2.1 = t at hread hnext herrors ⊢
    cases hread with
    | found gap hfinds hjoined hbroken =>
      have hdue := due_nil hfinds.inserted_eq hjoined
      rw [hfinds.rest_eq]
      have hbroken (hnone : c.pending = false) {passed : List Glyph}
          (h : .char '\n' ∈ passed ∨ Breaking c.rest) :
          .char '\n' ∈ passed ++ gap ∨ t.kind = .eof := by
        rcases h with h | h
        · exact .inl (List.mem_append_left _ h)
        · exact (hbroken hnone h).imp_left (List.mem_append_right _)
      by_cases hkind : t.kind = .eof
      · rw [if_pos hkind]
        refine ⟨.last hdue hfinds.pos_eq hkind, fun hnone passed offset s hs hoffset hbreak => ?_⟩
        have hone := due_one hs hfinds.inserted_eq (hbroken hnone (hfinds.rest_eq ▸ hbreak))
        rw [← List.append_assoc]
        refine .last hone ?_ hkind
        rw [hfinds.pos_eq, hoffset, Glyph.widths_append, Nat.add_assoc]
      · rw [if_neg hkind] at herrors ⊢
        obtain ⟨hrest, -⟩ := hnext hkind herrors
        rw [hfinds.pending_eq, hfinds.offset_eq] at hrest
        refine ⟨.next hdue hfinds.pos_eq hrest, fun hnone passed offset s hs hoffset hbreak => ?_⟩
        have hone := due_one hs hfinds.inserted_eq (hbroken hnone (hfinds.rest_eq ▸ hbreak))
        rw [← List.append_assoc]
        refine .next hone ?_ hrest
        rw [hfinds.pos_eq, hoffset, Glyph.widths_append, Nat.add_assoc]
    | inserted gap hpending ht hrest hoffset hnone hbreak =>
      have hkind : t.kind ≠ .eof := by
        intro hkind
        unfold Token.isInsertedSemicolon at ht
        rw [hkind] at ht
        cases ht
      rw [if_neg hkind] at herrors ⊢
      obtain ⟨-, hinserted⟩ := hnext hkind herrors
      rw [hpending, hrest]
      exact ⟨hinserted hnone gap c.offset t ht hoffset hbreak, nofun⟩

/-- A source in which nothing is wrong begins with what is fit to stand in it. -/
theorem start_head {file : SourceFile} {options : ScanOptions} {glyphs : List Glyph}
    (herrors : (start file options glyphs).errors = []) :
    ∀ g ∈ (start file options glyphs).rest.head?, g.IsFit := by
  unfold start at herrors ⊢
  dsimp only at herrors ⊢
  split at herrors
  · next hmark =>
    obtain ⟨rest, hrest⟩ := List.head?_eq_some_iff.1 hmark
    have hnext := fit_of_advance_errors hrest herrors
    rw [if_pos hmark, advance_rest, hrest]
    exact hnext
  · next hmark =>
    rw [if_neg hmark]
    intro g hg
    have hchar := (arrive_errors_eq_nil herrors).2
    rw [arrive_rest] at hg hmark
    obtain ⟨ch, rfl⟩ := hchar g hg
    refine ⟨ch, rfl, ?_⟩
    rintro rfl
    exact hmark hg

/-- A source in which nothing is wrong holds what is fit to stand in it. -/
theorem fit_of_errors (hcode : c.IsCode) (hhead : ∀ g ∈ c.rest.head?, g.IsFit)
    (herrors : c.scanAll.1.errors = []) : ∀ g ∈ c.rest, g.IsFit := by
  have hpool : c.PoolInner := by
    unfold PoolInner
    rw [hcode.pool_eq]
    exact List.forall_mem_nil _
  obtain ⟨read, hread, hfit, -⟩ := (walks_scanToEnd hcode c.bound).isFit hhead herrors
  rw [scanToEnd_rest hpool (weight_lt_bound c), List.append_nil] at hread
  rwa [hread]

/-- A source in which nothing is wrong is a text. -/
theorem isText_of_errors (hcode : c.IsCode) (hhead : ∀ g ∈ c.rest.head?, g.IsFit)
    (herrors : c.scanAll.1.errors = []) : c.IsText :=
  fun g hg => (fit_of_errors hcode hhead herrors g hg).imp fun _ h => h.1

/-- What stands between two tokens holds a line break if it does so in bytes. -/
theorem contains_between {glyphs skipped gap rest : List Glyph} {bytes : List UInt8}
    (hbytes : glyphs.flatMap Glyph.bytes = bytes) (hglyphs : glyphs = skipped ++ (gap ++ rest))
    (hchars : ∀ g ∈ gap, ∃ ch, g = .char ch) :
    ((bytes.take (Glyph.widths skipped + Glyph.widths gap)).drop
      (Glyph.widths skipped)).contains 0x0A = gap.contains (.char '\n') := by
  have hslice : (bytes.take (Glyph.widths skipped + Glyph.widths gap)).drop
      (Glyph.widths skipped) = gap.flatMap Glyph.bytes := by
    rw [← hbytes, hglyphs, List.flatMap_append, List.flatMap_append,
      ← Glyph.length_flatMap_bytes, ← Glyph.length_flatMap_bytes, List.drop_take, List.drop_left,
      Nat.add_sub_cancel_left, List.take_left]
  rw [hslice, Glyph.contains_flatMap_bytes hchars]

/-- In code in which nothing is wrong, a semicolon is inserted between a token and the next one if
and only if the token may end a statement and a line break stands between them or the file ends;
and never more than one. None is inserted before the first token. -/
theorem scanAll_semicolons (file : SourceFile) (options : ScanOptions) (bytes : List UInt8)
    (hsize : file.size = bytes.length) (hoptions : options.InsertsSemicolons) :
    ∃ c, start? file options (Glyph.ofBytes bytes) = .ok c ∧
      (c.scanAll.1.errors = [] →
        (∀ marks u after, c.scanAll.2 = marks ++ u :: after →
          (∀ s ∈ marks, s.isInsertedSemicolon = true) → u.isInsertedSemicolon = false →
          marks = []) ∧
        ∀ before t marks u after, c.scanAll.2 = before ++ t :: (marks ++ u :: after) →
          t.isInsertedSemicolon = false → (∀ s ∈ marks, s.isInsertedSemicolon = true) →
          u.isInsertedSemicolon = false →
          marks.length =
            if t.kind.endsStatement &&
              (u.kind = .eof || ((bytes.take u.pos).drop t.stop).contains 0x0A) then 1
            else 0) := by
  let c := start file options (Glyph.ofBytes bytes)
  refine ⟨c, if_pos (hsize.trans (Glyph.widths_ofBytes bytes).symm), fun herrors => ?_⟩
  have hcode : c.IsCode := {
    toIsCode := start_options file options _ ▸ hoptions.toIsCode
    inText_eq := (start_inText file options _).trans hoptions.mixed_eq
    pool_eq := start_pool file options _ }
  have hnow : c.errors = [] := by
    have hprefix := (walks_scanToEnd hcode c.bound).reaches.errors_grow
    rw [show (scanToEnd c.bound c).1.errors = [] from herrors] at hprefix
    exact List.eq_nil_of_prefix_nil hprefix
  have htext : c.IsText := isText_of_errors hcode (start_head hnow) herrors
  obtain ⟨hspaced, -⟩ := spaced_scanToEnd hcode (start_options file options _ ▸ hoptions) htext
    (weight_lt_bound c) herrors
  rw [start_pending] at hspaced
  obtain ⟨mark, hmark, hoffset, -⟩ := start_rest file options (Glyph.ofBytes bytes)
  rw [hoffset] at hspaced
  constructor
  · intro marks u after htokens hmarks hu
    obtain ⟨gap, rest, -, -, hdue⟩ := hspaced.first htokens hmarks hu
    exact List.eq_nil_of_length_eq_zero hdue.length_eq
  · intro before t marks u after htokens ht hmarks hu
    obtain ⟨skipped, gap, rest, hglyphs, hstop, hpos, hdue⟩ :=
      hspaced.between htokens ht hmarks hu
    have hchars : ∀ g ∈ gap, ∃ ch, g = .char ch := by
      intro g hg
      refine htext g ?_
      change g ∈ (start file options (Glyph.ofBytes bytes)).rest
      rw [hglyphs]
      simp [hg]
    have hsplit : Glyph.ofBytes bytes = (mark ++ skipped) ++ (gap ++ rest) := by
      rw [hmark, List.append_assoc]
      exact congrArg (mark ++ ·) hglyphs
    rw [← Glyph.widths_append] at hstop
    rw [hpos, hstop, contains_between (Glyph.flatMap_bytes_ofBytes bytes) hsplit hchars]
    exact hdue.length_eq

/-- Lines that end behind tokens and behind comments, and one that ends where no statement may. -/
theorem scanAll_semicolons_lines : ∃ c,
    start? ⟨"main", 1, 32, [0]⟩ { noPragma := true }
      (Glyph.ofBytes (utf8 "x = /* a\n */ f(1,\n2) // b\ny /**/")) = .ok c ∧
    c.scanAll.1.errors = [] ∧
    ∀ marks u after, c.scanAll.2 = marks ++ u :: after →
      (∀ s ∈ marks, s.isInsertedSemicolon = true) → u.isInsertedSemicolon = false →
      marks = [] := by
  obtain ⟨c, hstart, hc⟩ := scanAll_semicolons ⟨"main", 1, 32, [0]⟩ { noPragma := true }
    (utf8 "x = /* a\n */ f(1,\n2) // b\ny /**/") (by decide) ⟨⟨rfl, rfl⟩, rfl, rfl⟩
  have herrors : c.scanAll.1.errors = [] := by
    have hrun : (start ⟨"main", 1, 32, [0]⟩ { noPragma := true }
        (Glyph.ofBytes (utf8 "x = /* a\n */ f(1,\n2) // b\ny /**/"))).scanAll.1.errors = [] := by
      decide +kernel
    unfold start? at hstart
    split at hstart
    · rwa [← Except.ok.inj hstart]
    · cases hstart
  exact ⟨c, hstart, herrors, (hc herrors).1⟩

end Cursor

end TemplateScript
