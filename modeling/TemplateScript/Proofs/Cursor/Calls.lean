import TemplateScript.Proofs.Cursor.Plain
import TemplateScript.Proofs.Cursor.Weight
import TemplateScript.Proofs.Text.Glyph

/-!
# The end of a token stream

Whoever reads tokens may ask for the next one, take the errors, or change the options, in any order.
However this is done, the end of the file comes after at most two tokens for every byte; and once it
has come, it is all that ever comes, and nothing more is reported.
-/

namespace TemplateScript

namespace Cursor

/-- What may be asked of a cursor from outside. -/
inductive Call where
  | scan
  | takeErrors
  | setMixed (on : Bool)
  | setDelimiters (opening closing : Option String)
  | setFloatsAsDecimal (on : Bool)
  | setCharAsString (on : Bool)
  | setValueSugar (on : Bool)
deriving DecidableEq, Repr

/-- The cursor after a call that asks for no token. -/
def settle (c : Cursor) : Call → Cursor
  | .scan => c
  | .takeErrors => c.takeErrors
  | .setMixed on => c.setMixed on
  | .setDelimiters opening closing => c.setDelimiters opening closing
  | .setFloatsAsDecimal on => c.setFloatsAsDecimal on
  | .setCharAsString on => c.setCharAsString on
  | .setValueSugar on => c.setValueSugar on

/-- Do what is asked, one call after the other. The tokens that come are collected. -/
def performAll : List Call → Cursor → Cursor × List Token
  | [], c => (c, [])
  | .scan :: calls, c =>
    let (last, tokens) := performAll calls c.scan.1
    (last, c.scan.2 :: tokens)
  | call :: calls, c => performAll calls (c.settle call)

variable {c : Cursor}

theorem performAll_cons {call : Call} (hcall : call ≠ .scan) (calls : List Call) (c : Cursor) :
    performAll (call :: calls) c = performAll calls (c.settle call) := by
  cases call with
  | scan => exact absurd rfl hcall
  | takeErrors => rfl
  | setMixed on => rfl
  | setDelimiters opening closing => rfl
  | setFloatsAsDecimal on => rfl
  | setCharAsString on => rfl
  | setValueSugar on => rfl

theorem performAll_append (calls later : List Call) (c : Cursor) :
    performAll (calls ++ later) c =
      ((performAll later (performAll calls c).1).1,
        (performAll calls c).2 ++ (performAll later (performAll calls c).1).2) := by
  induction calls generalizing c with
  | nil => rfl
  | cons call calls ih =>
    by_cases hcall : call = .scan
    · subst hcall
      rw [List.cons_append, performAll, performAll, ih]
      rfl
    · rw [List.cons_append, performAll_cons hcall, performAll_cons hcall, ih]

/-- What a call that asks for no token may change. -/
theorem settle_eq (c : Cursor) (call : Call) : ∃ options inText inValue pending nesting taken,
    c.settle call = { c with options, inText, inValue, pending, nesting, taken } ∧
      (pending = c.pending ∨ pending = false) ∧ (inText = c.inText ∨ pending = false) := by
  cases call with
  | setMixed on =>
    unfold settle setMixed
    dsimp only
    split
    · exact ⟨_, _, _, _, _, _, rfl, .inl rfl, .inl rfl⟩
    · exact ⟨_, _, _, _, _, _, rfl, .inr rfl, .inr rfl⟩
  | scan => exact ⟨_, _, _, _, _, _, rfl, .inl rfl, .inl rfl⟩
  | takeErrors => exact ⟨_, _, _, _, _, _, rfl, .inl rfl, .inl rfl⟩
  | setDelimiters opening closing => exact ⟨_, _, _, _, _, _, rfl, .inl rfl, .inl rfl⟩
  | setFloatsAsDecimal on => exact ⟨_, _, _, _, _, _, rfl, .inl rfl, .inl rfl⟩
  | setCharAsString on => exact ⟨_, _, _, _, _, _, rfl, .inl rfl, .inl rfl⟩
  | setValueSugar on => exact ⟨_, _, _, _, _, _, rfl, .inl rfl, .inl rfl⟩

/-! ### The end comes -/

theorem settle_weight_le (c : Cursor) (call : Call) : (c.settle call).weight ≤ c.weight := by
  obtain ⟨options, inText, inValue, pending, nesting, taken, heq, hpending, -⟩ := settle_eq c call
  rw [heq]
  unfold weight
  dsimp only
  rcases hpending with rfl | rfl
  · exact Nat.le_refl _
  · exact Nat.add_le_add_left (Nat.zero_le _) _

/-- Among more tokens than the cursor weighs, there is the end. -/
theorem exists_eof_of_weight_lt {calls : List Call} {count : Nat} (hweight : c.weight < count)
    (hcount : count ≤ calls.count .scan) :
    ∃ e ∈ (performAll calls c).2.take count, e.kind = .eof := by
  induction calls generalizing c count with
  | nil => exact absurd hweight (Nat.not_lt.2 (Nat.le_trans hcount (Nat.zero_le _)))
  | cons call calls ih =>
    by_cases hcall : call = .scan
    · subst hcall
      obtain ⟨count, rfl⟩ : ∃ n, count = n + 1 := ⟨count - 1, by omega⟩
      rw [List.count_cons_self] at hcount
      rw [performAll, List.take_succ_cons]
      by_cases hend : c.scan.2.kind = .eof
      · exact ⟨_, List.mem_cons_self, hend⟩
      · have hlighter := scan_weight_lt c hend
        obtain ⟨e, he, hkind⟩ := ih (Nat.lt_of_lt_of_le hlighter (Nat.le_of_lt_succ hweight))
          (Nat.le_of_succ_le_succ hcount)
        exact ⟨e, List.mem_cons_of_mem _ he, hkind⟩
    · rw [List.count_cons_of_ne hcall] at hcount
      rw [performAll_cons hcall]
      exact ih (Nat.lt_of_le_of_lt (settle_weight_le c call) hweight) hcount

theorem start_pending (file : SourceFile) (options : ScanOptions) (glyphs : List Glyph) :
    (start file options glyphs).pending = false := by
  unfold start
  dsimp only
  split
  · dsimp only
    obtain ⟨_, h⟩ := arrive_eq { file, options, rest := glyphs, inText := options.mixed }
    rw [advance_pending, h]
  · obtain ⟨_, h⟩ := arrive_eq { file, options, rest := glyphs, inText := options.mixed }
    rw [h]

theorem start_inText (file : SourceFile) (options : ScanOptions) (glyphs : List Glyph) :
    (start file options glyphs).inText = options.mixed := by
  unfold start
  dsimp only
  obtain ⟨_, h⟩ := arrive_eq { file, options, rest := glyphs, inText := options.mixed }
  split
  · rw [advance_inText, h]
  · rw [h]

theorem start_rest_length_le (file : SourceFile) (options : ScanOptions) (glyphs : List Glyph) :
    (start file options glyphs).rest.length ≤ glyphs.length := by
  unfold start
  dsimp only
  split
  · simp
  · simp

end Cursor

theorem Glyph.length_ofBytes_le (bytes : List UInt8) : (ofBytes bytes).length ≤ bytes.length := by
  rw [← widths_ofBytes bytes]
  induction ofBytes bytes with
  | nil => exact Nat.le_refl _
  | cons g rest ih =>
    have := g.width_pos
    rw [List.length_cons, widths]
    omega

namespace Cursor

variable {c : Cursor}

theorem start_weight_le (file : SourceFile) (options : ScanOptions) (bytes : List UInt8) :
    (start file options (Glyph.ofBytes bytes)).weight ≤ 2 * bytes.length := by
  have hrest := start_rest_length_le file options (Glyph.ofBytes bytes)
  have hlength := Glyph.length_ofBytes_le bytes
  unfold weight
  rw [start_pool, start_pending, List.length_nil, Bool.toNat_false]
  omega

/-! ### The end stays -/

/-- Nothing is left but the end of the file. -/
structure AtEnd (c : Cursor) : Prop where
  rest_eq : c.rest = []
  pool_eq : c.pool = []
  pending_eq : c.inText = false → c.pending = false

/-- At the end of the file, with a token for it and a list of errors that are final. -/
structure Ended (e : Token) (errors : List ScanError) (c : Cursor) : Prop extends c.AtEnd where
  token_eq : c.endOfFile = e
  errors_eq : c.errors = errors

theorem textExtent_nil (pragmas : Bool) (opening : String) (isLineStart : Bool) :
    textExtent pragmas opening isLineStart 0 [] = (0, false) := by
  unfold textExtent
  rfl

theorem startsWith_nil (word : String) : Glyph.startsWith [] word = false := by
  unfold Glyph.startsWith
  by_cases hword : word = ""
  · simp [hword]
  · obtain ⟨ch, rest, hchars⟩ := List.exists_cons_of_ne_nil (mt String.toList_eq_nil_iff.1 hword)
    simp [Glyph.ofText, hchars]

theorem skipBlanks_nil (h : c.rest = []) : c.skipBlanks = c := by
  rw [skipBlanks, h]
  rfl

theorem codeEnd?_nil (h : c.rest = []) : c.codeEnd? = none := by
  unfold codeEnd?
  dsimp only
  rw [h, startsWith_nil, startsWith_nil, Bool.false_and, Bool.or_false, Bool.and_false]
  rfl

theorem pragmaLine?_nil (h : c.rest = []) : c.pragmaLine? = none := by
  unfold pragmaLine?
  rw [h]
  split <;> rfl

theorem templateText_nil (h : c.rest = []) :
    c.templateText = ({ c with trimNext := false }, c.endOfFile, []) := by
  have hrun : c.textRun = (0, false) := by rw [textRun, h, textExtent_nil]
  have hend : c.textEnd = { c with trimNext := false } := by
    rw [textEnd, hrun]
    rfl
  have hkept : c.textKept = [] := by rw [textKept, h, List.take_nil, List.drop_nil]
  have hopening : Glyph.startsWith c.textEnd.rest c.options.delimiters.opening = false := by
    rw [hend, h, startsWith_nil]
  have hpragma : c.textEnd.pragmaLine? = none := pragmaLine?_nil (by rw [hend, h])
  rw [templateText_eq, hopening, hpragma, hkept, hend]
  rfl

theorem code_nil (h : c.rest = []) (hpending : c.pending = false) :
    c.code = (c, c.endOfFile, []) := by
  rw [code, skipBlanks_nil h]
  simp only [codeEnd?_nil h, pragmaLine?_nil h]
  split
  · rw [hpending]
    rfl
  · next hrest =>
    rw [h] at hrest
    cases hrest

/-- The end of the file is handed out for ever. -/
theorem Ended.scan {e : Token} {errors : List ScanError} (h : c.Ended e errors) :
    c.scan.2 = e ∧ c.scan.1.Ended e errors := by
  unfold Cursor.scan
  rw [h.pool_eq]
  dsimp only
  split
  · rw [templateText_nil h.rest_eq]
    exact ⟨h.token_eq, { h with pool_eq := rfl }⟩
  · next htext =>
    rw [code_nil h.rest_eq (h.pending_eq (Bool.eq_false_of_not_eq_true htext))]
    exact ⟨h.token_eq, { h with pool_eq := rfl }⟩

theorem Ended.settle {e : Token} {errors : List ScanError} (h : c.Ended e errors) (call : Call) :
    (c.settle call).Ended e errors := by
  obtain ⟨options, inText, inValue, pending, nesting, taken, heq, hpending, htext⟩ :=
    settle_eq c call
  rw [heq]
  exact { h with
    pending_eq := fun hcode => by
      rcases htext with rfl | hset
      · rcases hpending with rfl | hset
        · exact h.pending_eq hcode
        · exact hset
      · exact hset }

/-- Once the end has come, nothing else comes, and nothing more is reported. -/
theorem Ended.performAll {e : Token} {errors : List ScanError} (h : c.Ended e errors)
    (calls : List Call) :
    (∀ t ∈ (c.performAll calls).2, t = e) ∧ (performAll calls c).1.Ended e errors := by
  induction calls generalizing c with
  | nil => exact ⟨by simp [Cursor.performAll], h⟩
  | cons call calls ih =>
    by_cases hcall : call = .scan
    · subst hcall
      obtain ⟨htoken, hscan⟩ := h.scan
      obtain ⟨htokens, hlast⟩ := ih hscan
      refine ⟨fun t ht => ?_, hlast⟩
      rcases List.mem_cons.1 ht with rfl | ht
      · exact htoken
      · exact htokens t ht
    · rw [performAll_cons hcall]
      exact ih (h.settle call)

/-! ### Where the end is found -/

/-- Behind a line break, a line starts. -/
theorem advance_lineStart {rest : List Glyph} (h : c.rest = .char '\n' :: rest) :
    c.advance.offset = c.advance.lineStart := by
  unfold advance
  rw [h]
  dsimp only
  obtain ⟨errors, harrive⟩ := arrive_eq
    { c.leave (.char '\n') with rest, offset := c.offset + (Glyph.char '\n').width }
  rw [harrive]
  rfl

/-- Text ends where it is followed by the end of the file, by code or by a pragma line. -/
theorem textExtent_stops (skip : Nat) {isLineStart : Bool} (opening : String)
    (hline : isLineStart = true → c.offset = c.lineStart) :
    let last := c.advanceBy
      (textExtent (!c.options.noPragma) opening isLineStart skip c.rest).1
    last.rest = [] ∨ Glyph.startsWith last.rest opening = true ∨ last.pragmaLine?.isSome := by
  induction hrest : c.rest generalizing c skip isLineStart with
  | nil =>
    refine .inl ?_
    rw [advanceBy_rest, hrest, List.drop_nil]
  | cons g rest ih =>
    have hadvance : c.advance.rest = rest := by rw [advance_rest, hrest, List.tail_cons]
    have hbreak (h : decide (g = .char '\n') = true) : c.advance.offset = c.advance.lineStart :=
      advance_lineStart (by rw [hrest, of_decide_eq_true h])
    have hnext (skip : Nat) {isLineStart : Bool}
        (hline : isLineStart = true → c.advance.offset = c.advance.lineStart) :=
      ih (c := c.advance) skip hline hadvance
    rw [advance_options] at hnext
    cases skip with
    | succ skip => exact hnext skip hbreak
    | zero =>
      rw [textExtent]
      split
      · next hpragma =>
        simp only [Bool.and_eq_true, Bool.not_eq_true'] at hpragma
        obtain ⟨⟨hpragmas, hstart⟩, hhead⟩ := hpragma
        refine .inr (.inr ?_)
        have hcond : ¬ (c.options.noPragma = true ∨ c.offset ≠ c.lineStart) := by
          rw [hpragmas]
          simpa using hline hstart
        rw [advanceBy, pragmaLine?, if_neg hcond, hrest]
        exact hhead
      · split
        · exact hnext opening.length fun hfalse => absurd hfalse Bool.false_ne_true
        · split
          · next hopening =>
            refine .inr (.inl ?_)
            rw [advanceBy, hrest]
            exact hopening
          · exact hnext 0 hbreak

/-- The end of the file is read as text where nothing but the end is left. -/
theorem templateText_eof (h : c.templateText.2.1.kind = .eof) :
    c.templateText = (c.textEnd, c.textEnd.endOfFile, []) ∧ c.textEnd.rest = [] := by
  have hstops := @textExtent_stops c 0 (c.offset = c.lineStart) c.options.delimiters.opening
    of_decide_eq_true
  change c.textEnd.rest = [] ∨ Glyph.startsWith c.textEnd.rest _ = true ∨
    c.textEnd.pragmaLine?.isSome at hstops
  have htoken {kept : List Glyph} {token : Token}
      (h : textToken? c.offset c.textBlanks kept c.textRun.2 = some token) : token.kind ≠ .eof := by
    unfold textToken? at h
    split at h
    · cases h
    · rw [← Option.some.inj h]
      rintro ⟨⟩
  have hdelimiter : c.textDelimiter.2.kind ≠ .eof := by
    unfold textDelimiter openingDelimiter
    dsimp only
    split <;> rintro ⟨⟩
  rw [templateText_eq] at h ⊢
  dsimp only at h ⊢
  split at h
  · split at h
    · next hsome => exact absurd h (htoken hsome)
    · exact absurd h hdelimiter
  · next hopening =>
    rw [if_neg hopening]
    split at h
    · next hsome => exact absurd h (htoken hsome)
    · split at h
      · cases h
      · next hpragma =>
        have hnone : Glyph.startsWith c.textEnd.rest c.options.delimiters.opening = false := by
          simpa [hpragma] using hopening
        rw [hpragma, hnone] at hstops
        exact ⟨rfl, by simpa using hstops⟩

/-- What ends code in a template is the end of a value or of a block. -/
theorem codeEnd?_kind {last : Cursor} {token : Token} (h : c.codeEnd? = some (last, token)) :
    token.kind = .valueEnd ∨ token.kind = .codeEnd := by
  unfold codeEnd? at h
  dsimp only at h
  split at h
  · obtain ⟨-, rfl⟩ := Prod.mk.inj (Option.some.inj h)
    dsimp only
    split
    · exact .inl rfl
    · exact .inr rfl
  · cases h

/-- The end of the file is read as code where nothing is left. -/
theorem code_eof (h : c.code.2.1.kind = .eof) :
    ∃ last, c.code = (last, last.endOfFile, []) ∧ last.rest = [] ∧ last.pending = false := by
  fun_induction code c with
  | case1 c start last token hend =>
    rcases codeEnd?_kind hend with hkind | hkind <;> cases hkind.symm.trans h
  | case2 => cases h
  | case3 => cases h
  | case4 c start _ _ hrest hpending =>
    exact ⟨start, rfl, hrest, Bool.eq_false_of_not_eq_true hpending⟩
  | case5 => cases h
  | case6 c start =>
    cases start.comment_kind.symm.trans h
  | case7 c start _ _ g rest hrest hcomment hpending hcomments ih => exact ih h
  | case8 => cases h
  | case9 c start _ _ g rest hrest hcomment hbreak =>
    have hkind := lexeme_isOuter start g
    rw [show (start.lexeme g).2.kind = .eof from h] at hkind
    cases hkind

theorem scan_weight_le (c : Cursor) : c.scan.1.weight ≤ c.weight := by
  by_cases hkind : c.scan.2.kind = .eof
  · unfold scan at hkind ⊢
    unfold weight
    split at hkind
    · next hpool =>
      rw [hpool, List.length_cons]
      dsimp only
      omega
    · next hpool =>
      dsimp only at hkind ⊢
      split at hkind
      · next htext =>
        obtain ⟨heq, hrest⟩ := templateText_eof hkind
        rw [if_pos htext, heq]
        dsimp only
        rw [hrest, textEnd_pending]
        exact Nat.add_le_add_right (Nat.zero_le _) _
      · next htext =>
        obtain ⟨last, heq, hrest, hpending⟩ := code_eof hkind
        rw [if_neg htext, heq]
        dsimp only
        rw [hrest, hpending]
        exact Nat.zero_le _
  · exact Nat.le_of_lt (scan_weight_lt c hkind)

/-- However tokens are asked for, the cursor gets no heavier, not even with the last of them. -/
theorem performAll_weight (calls : List Call) (c : Cursor) :
    (performAll calls c).1.weight +
      ((performAll calls c).2.getLast?.any (·.kind ≠ .eof)).toNat ≤ c.weight := by
  induction calls generalizing c with
  | nil => exact Nat.le_refl _
  | cons call calls ih =>
    by_cases hcall : call = .scan
    · subst hcall
      have hlast := ih c.scan.1
      have hle := scan_weight_le c
      have hlt := scan_weight_lt c
      rw [performAll]
      dsimp only
      rw [List.getLast?_cons]
      cases hget : (performAll calls c.scan.1).2.getLast? with
      | some t =>
        rw [hget] at hlast
        exact Nat.le_trans hlast hle
      | none =>
        rw [hget] at hlast
        by_cases hkind : c.scan.2.kind = .eof
        · simpa [hkind] using Nat.le_trans hlast hle
        · have hlighter := hlt hkind
          simp only [Option.any_none, Bool.toNat_false] at hlast
          simp only [Option.getD_none, Option.any_some, hkind, ne_eq, not_false_eq_true,
            decide_true, Bool.toNat_true]
          omega
    · rw [performAll_cons hcall]
      exact Nat.le_trans (ih _) (settle_weight_le c call)

/-- A token that waits is no comment, and not the end of the file. -/
def PoolInner (c : Cursor) : Prop := ∀ t ∈ c.pool, t.kind ≠ .comment ∧ t.kind ≠ .eof

theorem bodyTokens_inner (c : Cursor) :
    ∀ t ∈ c.bodyTokens.2, t.kind ≠ .comment ∧ t.kind ≠ .eof := by
  intro t ht
  have houter := bodyTokens_isOuter c t ht
  constructor
  · intro hkind
    rw [hkind] at houter
    cases houter
  · intro hkind
    rw [hkind] at houter
    cases houter

theorem pragma_inner (c : Cursor) (head : Nat) :
    ∀ t ∈ (c.pragma head).2.2, t.kind ≠ .comment ∧ t.kind ≠ .eof := by
  intro t ht
  rcases List.mem_append.1 ht with ht | ht
  · exact bodyTokens_inner _ t ht
  · rw [List.mem_singleton.1 ht]
    exact ⟨nofun, nofun⟩

theorem templateText_inner (c : Cursor) :
    ∀ t ∈ c.templateText.2.2, t.kind ≠ .comment ∧ t.kind ≠ .eof := by
  have hdelimiter : c.textDelimiter.2.kind ≠ .comment ∧ c.textDelimiter.2.kind ≠ .eof := by
    unfold textDelimiter openingDelimiter
    dsimp only
    split <;> exact ⟨nofun, nofun⟩
  rw [templateText_eq]
  dsimp only
  split
  · split
    · intro t ht
      rw [List.mem_singleton.1 ht]
      exact hdelimiter
    · simp
  · split
    · simp
    · split
      · exact pragma_inner _ _
      · simp

theorem code_inner (c : Cursor) : ∀ t ∈ c.code.2.2, t.kind ≠ .comment ∧ t.kind ≠ .eof := by
  fun_induction code c with
  | case2 c start _ head => exact pragma_inner start head
  | case7 c start _ _ g rest hrest hcomment hpending hcomments ih => exact ih
  | case1 | case3 | case4 | case5 | case6 | case8 | case9 => simp

theorem PoolInner.scan (h : c.PoolInner) : c.scan.1.PoolInner := by
  unfold Cursor.scan
  split
  · next hpool => exact fun t ht => h t (hpool ▸ List.mem_cons_of_mem _ ht)
  · dsimp only
    split
    · exact templateText_inner c
    · exact code_inner c

theorem PoolInner.settle (h : c.PoolInner) (call : Call) : (c.settle call).PoolInner := by
  obtain ⟨options, inText, inValue, pending, nesting, taken, heq, -⟩ := settle_eq c call
  rw [heq]
  exact h

theorem PoolInner.performAll (h : c.PoolInner) (calls : List Call) :
    (performAll calls c).1.PoolInner := by
  induction calls generalizing c with
  | nil => exact h
  | cons call calls ih =>
    by_cases hcall : call = .scan
    · subst hcall
      exact ih h.scan
    · rw [performAll_cons hcall]
      exact ih (h.settle call)

/-- Where the end of the file is handed out, it has come. -/
theorem ended_of_eof (h : c.PoolInner) (hkind : c.scan.2.kind = .eof) :
    c.scan.1.Ended c.scan.2 c.scan.1.errors := by
  unfold Cursor.scan at hkind ⊢
  split at hkind
  · next token pool hpool => exact absurd hkind (h token (hpool ▸ List.mem_cons_self)).2
  · dsimp only at hkind ⊢
    split at hkind
    · next hpool htext =>
      obtain ⟨heq, hrest⟩ := templateText_eof hkind
      have hinText : c.textEnd.inText = true := (advanceBy_inText _ c).trans htext
      rw [if_pos htext, heq]
      exact ⟨⟨hrest, rfl, fun hcode => by rw [hinText] at hcode; cases hcode⟩, rfl, rfl⟩
    · next hpool htext =>
      obtain ⟨last, heq, hrest, hpending⟩ := code_eof hkind
      rw [if_neg htext, heq]
      exact ⟨⟨hrest, rfl, fun _ => hpending⟩, rfl, rfl⟩

/-- Reading to the end uses up the source. -/
theorem scanToEnd_rest {limit : Nat} (hpool : c.PoolInner) (hlimit : c.weight < limit) :
    (scanToEnd limit c).1.rest = [] := by
  induction limit generalizing c with
  | zero => exact absurd hlimit (Nat.not_lt_zero _)
  | succ limit ih =>
    rw [scanToEnd]
    dsimp only
    split
    · next hkind => exact (ended_of_eof hpool hkind).rest_eq
    · next hkind =>
      have hlighter := scan_weight_lt c hkind
      exact ih hpool.scan (by omega)

/-- The calls up to the end of the file are all that count. -/
theorem performAll_ended {calls : List Call} (h : c.PoolInner) {e : Token}
    (he : e ∈ (performAll calls c).2) (hkind : e.kind = .eof) :
    (performAll calls c).1.Ended e (performAll calls c).1.errors := by
  induction calls generalizing c with
  | nil => cases he
  | cons call calls ih =>
    by_cases hcall : call = .scan
    · subst hcall
      rcases List.mem_cons.1 he with rfl | he
      · obtain ⟨-, hlast⟩ := (ended_of_eof h hkind).performAll calls
        exact { hlast with errors_eq := rfl }
      · exact ih h.scan he
    · rw [performAll_cons hcall] at he ⊢
      exact ih (h.settle call) he

theorem poolInner_start (file : SourceFile) (options : ScanOptions) (glyphs : List Glyph) :
    (start file options glyphs).PoolInner := by
  simp [PoolInner, start_pool]

/-- However tokens are asked for and options changed, the end of the file is among the first
`2 * n + 1` tokens of a source of `n` bytes. Behind it nothing comes but the same token again, and
nothing more is reported. -/
theorem performAll_ends (file : SourceFile) (options : ScanOptions) (bytes : List UInt8)
    (calls : List Call) (hsize : file.size = bytes.length) :
    ∃ c, start? file options (Glyph.ofBytes bytes) = .ok c ∧
      (2 * bytes.length + 1 ≤ calls.count .scan →
        ∃ e ∈ (performAll calls c).2.take (2 * bytes.length + 1), e.kind = .eof) ∧
      ∀ e ∈ (performAll calls c).2, e.kind = .eof → ∀ later : List Call,
        (∀ t ∈ (performAll later (performAll calls c).1).2, t = e) ∧
          (performAll later (performAll calls c).1).1.errors = (performAll calls c).1.errors := by
  refine ⟨start file options (Glyph.ofBytes bytes), ?_, fun hcount => ?_, ?_⟩
  · exact if_pos (hsize.trans (Glyph.widths_ofBytes bytes).symm)
  · exact exists_eof_of_weight_lt (Nat.lt_succ_of_le (start_weight_le file options bytes)) hcount
  · intro e he hkind later
    have hended := performAll_ended (poolInner_start file options _) he hkind
    obtain ⟨htokens, hlast⟩ := hended.performAll later
    exact ⟨htokens, hlast.errors_eq⟩

/-- A template without delimiters that is switched to code between the first two of its tokens. -/
theorem performAll_ends_switched : ∃ c,
    start? ⟨"page", 1, 1, [0]⟩ { mixed := true, delimiters := ⟨"", ""⟩ } (Glyph.ofBytes [0x78]) =
      .ok c ∧
    ∃ e, e.kind = .eof ∧ ∀ later,
      ∀ t ∈ (performAll later (performAll [.scan, .setMixed false, .scan, .scan] c).1).2, t = e := by
  obtain ⟨c, hstart, hends, hstays⟩ := performAll_ends ⟨"page", 1, 1, [0]⟩
    { mixed := true, delimiters := ⟨"", ""⟩ } [0x78] [.scan, .setMixed false, .scan, .scan] rfl
  obtain ⟨e, he, hkind⟩ := hends (by decide)
  exact ⟨c, hstart, e, hkind, fun later => (hstays e (List.mem_of_mem_take he) hkind later).1⟩

end Cursor

end TemplateScript
