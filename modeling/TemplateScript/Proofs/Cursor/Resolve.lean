import TemplateScript.Proofs.Cursor.Tiling
import TemplateScript.Proofs.Source.Places

/-!
# Where a cursor reports

A cursor reports only about points that it has passed, and its line table covers those, so all that
it reports is at the right place. The body of a pragma line is read ahead by a cursor that sees no
more of the source, but its head has no line break, so the same line table covers it.
-/

namespace TemplateScript

/-- The place is one of a source, as it is by all lines of the source. -/
structure Place.StandsIn (name : String) (source : List Glyph) (p : Place) : Prop where
  offset_le : p.offset ≤ Glyph.widths source
  place_eq : p = Glyph.place name source p.offset

namespace Cursor

variable {name : String} {source : List Glyph} {c later : Cursor}

/-- Up to the cursor, places are those by all lines of the source. -/
theorem InSource.place_eq (h : c.InSource source) {offset : Nat} (hoffset : offset ≤ c.offset) :
    c.file.place offset = Glyph.place c.file.name source offset := by
  unfold Glyph.place SourceFile.place
  rw [h.lines_takeWhile hoffset]

/-- Where a cursor stands does not depend on how much of the source it sees. -/
theorem Reaches.inSource_part (k : c.Reaches later)
    (h : ∃ tail, InSource source { c with rest := c.rest ++ tail }) :
    ∃ tail, InSource source { later with rest := later.rest ++ tail } := by
  obtain ⟨tail, htail⟩ := h
  obtain ⟨read, hread⟩ := k
  exact ⟨tail, htail.reaches ⟨read, by simp [hread.rest_eq], hread.offset_eq, hread.file_eq,
    hread.errors_grow⟩⟩

/-- The cursor sees a part of the source it stands in, and all that it has reported is at the right
place. -/
structure Resolved (name : String) (source : List Glyph) (c : Cursor) : Prop where
  name_eq : c.file.name = name
  part : ∃ tail, InSource source { c with rest := c.rest ++ tail }
  errors : ∀ e ∈ c.errors, e.place.StandsIn name source

namespace Resolved

theorem place (h : c.Resolved name source) {offset : Nat} (hoffset : offset ≤ c.offset) :
    (c.file.place offset).StandsIn name source := by
  obtain ⟨tail, htail⟩ := h.part
  have hend : c.offset ≤ Glyph.widths source := by
    obtain ⟨read, hsource, hread, -⟩ := htail
    rw [hsource, Glyph.widths_append]
    exact Nat.le_trans (Nat.le_of_eq hread) (Nat.le_add_right ..)
  have hplace : c.file.place offset = Glyph.place name source offset :=
    h.name_eq ▸ htail.place_eq hoffset
  refine ⟨?_, ?_⟩
  · rw [place_offset]
    exact Nat.le_trans hoffset hend
  · rw [place_offset]
    exact hplace

theorem of_eq (h : c.Resolved name source) (hrest : later.rest = c.rest)
    (hoffset : later.offset = c.offset) (hfile : later.file = c.file)
    (herrors : later.errors = c.errors) : later.Resolved name source :=
  ⟨hfile ▸ h.name_eq, (Reaches.of_eq hrest hoffset hfile herrors).inSource_part h.part,
    herrors ▸ h.errors⟩

/-- What is reported up to the cursor is at the right place. -/
theorem report (h : c.Resolved name source) {offset : Nat} (hoffset : offset ≤ c.offset)
    (cause : ScanCause) : (c.report offset cause).Resolved name source :=
  ⟨h.name_eq, (reaches_report c offset cause).inSource_part h.part,
    List.forall_mem_append.2 ⟨h.errors, List.forall_mem_singleton.2 (h.place hoffset)⟩⟩

theorem arrive (h : c.Resolved name source) : c.arrive.Resolved name source := by
  unfold Cursor.arrive
  split
  · exact h.report (Nat.le_refl _) _
  · split
    · exact h.report (Nat.le_refl _) _
    · exact h
  · exact h

theorem advance (h : c.Resolved name source) : c.advance.Resolved name source := by
  unfold Cursor.advance
  split
  · exact h
  · next g rest hrest =>
    refine arrive ⟨?_, Reaches.inSource_part ⟨[g], past_advance hrest⟩ h.part, ?_⟩
    · unfold leave
      split
      · exact (SourceFile.addLine_name ..).trans h.name_eq
      · exact h.name_eq
    · unfold leave
      split <;> exact h.errors

/-- A walk reports only about points that it has passed. -/
theorem walks (h : c.Resolved name source) (k : c.Walks 0 later) : later.Resolved name source := by
  induction k with
  | refl => exact h
  | advance _ ih => exact ih.advance
  | report _ cause hoffset _ ih =>
    exact ih.report (hoffset.elim (fun hzero => Nat.le_trans hzero (Nat.zero_le _)) id) cause
  | settle _ pending nesting ih => exact ih.of_eq rfl rfl rfl rfl

theorem advanceBy (h : c.Resolved name source) (n : Nat) : (c.advanceBy n).Resolved name source :=
  h.walks (walks_advanceBy n c)

/-! ### Pragma lines -/

theorem bodyTokens (h : c.Resolved name source) : c.bodyTokens.1.Resolved name source := by
  fun_induction Cursor.bodyTokens c with
  | case1 c => exact h.walks (walks_skipBlanks c)
  | case2 c _ _ _ _ ih => exact ih ((h.walks (walks_skipBlanks c)).walks (walks_comment _))
  | case3 c g _ _ _ more ih => exact ih ((h.walks (walks_skipBlanks c)).walks (walks_lexeme _ g))

end Resolved

/-- The head of a pragma line is a number sign, blanks and the marker. -/
theorem pragmaHead?_eq_some {glyphs : List Glyph} {head : Nat}
    (h : pragmaHead? glyphs = some head) :
    ∃ blanks, (∀ g ∈ blanks, g.isTabOrSpace = true) ∧
      glyphs.take head = .char '#' :: (blanks ++ Glyph.ofText pragmaMarker) := by
  unfold pragmaHead? at h
  split at h
  · cases h
  · next g rest =>
    dsimp only at h
    split at h
    · next hhead =>
      obtain ⟨rfl, hmarker⟩ := hhead
      obtain rfl := Option.some.inj h
      let blanks := rest.takeWhile Glyph.isTabOrSpace
      have hblanks : blanks ++ rest.drop blanks.length = rest :=
        List.prefix_iff_eq_append.1 (List.takeWhile_prefix _)
      have hrest : rest = blanks ++ Glyph.ofText pragmaMarker ++
          (rest.drop blanks.length).drop pragmaMarker.length := by
        rw [List.append_assoc,
          show blanks.length = Glyph.countWhile Glyph.isTabOrSpace rest from rfl,
          ofText_append_drop hmarker]
        exact hblanks.symm
      have hlength : 1 + Glyph.countWhile Glyph.isTabOrSpace rest + pragmaMarker.length =
          (blanks ++ Glyph.ofText pragmaMarker).length + 1 := by
        rw [List.length_append, Nat.add_assoc, Nat.add_comm 1]
        rfl
      refine ⟨blanks, fun g hg => List.mem_takeWhile_imp hg, ?_⟩
      rw [hlength, List.take_succ_cons, hrest, List.take_left]
    · cases h

/-- The head of a pragma line has no line break. -/
theorem pragmaHead?_breakEnds {glyphs : List Glyph} {head : Nat}
    (h : pragmaHead? glyphs = some head) (offset : Nat) :
    Glyph.breakEnds offset (glyphs.take head) = [] := by
  obtain ⟨blanks, hblanks, htake⟩ := pragmaHead?_eq_some h
  rw [htake]
  refine Glyph.breakEnds_eq_nil (fun hbreak => ?_) offset
  rcases List.mem_cons.1 hbreak with hsign | hmem
  · cases hsign
  · rcases List.mem_append.1 hmem with hblank | hmarker
    · cases hblanks _ hblank
    · exact absurd hmarker (by decide)

namespace Resolved

theorem pragma (h : c.Resolved name source) {head : Nat} (hhead : c.pragmaLine? = some head) :
    (c.pragma head).1.Resolved name source := by
  let size := Glyph.countUntil endsPragma (c.rest.drop head)
  have hbreaks : Glyph.breakEnds c.offset (c.rest.take head) = [] := by
    unfold pragmaLine? at hhead
    split at hhead
    · cases hhead
    · exact pragmaHead?_breakEnds hhead _
  have hstart : (c.bodyStart head size).Resolved name source := by
    obtain ⟨tail, before, hsource, hoffset, hfile⟩ := h.part
    refine arrive ⟨h.name_eq, ⟨(c.rest.drop head).drop size ++ tail, before ++ c.rest.take head,
      ?_, ?_, hfile.size_eq, ?_⟩, h.errors⟩
    · rw [hsource]
      simp only [List.append_assoc, ← List.append_assoc (List.take size _), List.take_append_drop]
      rw [← List.append_assoc (List.take head _), List.take_append_drop]
    · change c.offset + _ = _
      rw [Glyph.widths_append, ← hoffset]
    · change c.file.lines = _
      have hlines : c.file.lines = _ := hfile.lines_eq
      rw [hlines, Glyph.breakEnds_append, ← hoffset, Nat.zero_add]
      change _ = 0 :: (_ ++ Glyph.breakEnds c.offset _).filter _
      rw [hbreaks, List.append_nil]
  have hlast : Resolved name source
      { c with errors := (c.bodyStart head size).bodyTokens.1.errors } :=
    ⟨h.name_eq, h.part, hstart.bodyTokens.errors⟩
  exact (hlast.advanceBy (head + size)).advance.of_eq rfl rfl rfl rfl

/-! ### Templates and tokens -/

theorem textEnd (h : c.Resolved name source) : c.textEnd.Resolved name source :=
  (h.advanceBy _).of_eq rfl rfl rfl rfl

theorem enterCode (h : c.Resolved name source) (length : Nat) (isValue : Bool) :
    (c.enterCode length isValue).Resolved name source :=
  (h.advanceBy length).of_eq rfl rfl rfl rfl

theorem templateText (h : c.Resolved name source) : c.templateText.1.Resolved name source := by
  have hcode : c.textCode.Resolved name source := h.textEnd.enterCode ..
  rw [templateText_eq]
  dsimp only
  split
  · split
    · exact hcode
    · exact hcode
  · split
    · exact h.textEnd
    · split
      · next hhead => exact h.textEnd.pragma hhead
      · exact h.textEnd

theorem codeEnd (h : c.Resolved name source) {token : Token}
    (hend : c.codeEnd? = some (later, token)) : later.Resolved name source := by
  unfold codeEnd? at hend
  dsimp only at hend
  split at hend
  · obtain ⟨rfl, rfl⟩ := Prod.mk.inj (Option.some.inj hend)
    exact (h.advanceBy _).of_eq rfl rfl rfl rfl
  · cases hend

theorem code (h : c.Resolved name source) : c.code.1.Resolved name source := by
  have hblanks (c : Cursor) (h : c.Resolved name source) : c.skipBlanks.Resolved name source :=
    h.walks (walks_skipBlanks c)
  fun_induction Cursor.code c with
  | case1 c start last token hend => exact (hblanks c h).codeEnd hend
  | case2 c start _ head hhead => exact (hblanks c h).pragma hhead
  | case3 c start => exact (hblanks c h).of_eq rfl rfl rfl rfl
  | case4 c start => exact hblanks c h
  | case5 c start => exact (hblanks c h).of_eq rfl rfl rfl rfl
  | case6 c start => exact (hblanks c h).walks (walks_comment start)
  | case7 c start =>
    rename_i ih
    exact ih ((hblanks c h).walks (walks_comment start))
  | case8 c start => exact (hblanks c h).advance.of_eq rfl rfl rfl rfl
  | case9 c start _ _ g => exact (hblanks c h).walks (walks_lexeme start g)

theorem scan (h : c.Resolved name source) : c.scan.1.Resolved name source := by
  unfold Cursor.scan
  split
  · exact h.of_eq rfl rfl rfl rfl
  · dsimp only
    split
    · exact h.templateText.of_eq rfl rfl rfl rfl
    · exact h.code.of_eq rfl rfl rfl rfl

theorem settle (h : c.Resolved name source) (call : Call) :
    (c.settle call).Resolved name source := by
  obtain ⟨options, inText, inValue, pending, nesting, taken, heq, -⟩ := settle_eq c call
  rw [heq]
  exact h.of_eq rfl rfl rfl rfl

/-- However tokens are asked for and options changed, all that is reported is at the right place. -/
theorem performAll (h : c.Resolved name source) (calls : List Call) :
    (performAll calls c).1.Resolved name source := by
  induction calls generalizing c with
  | nil => exact h
  | cons call calls ih =>
    by_cases hcall : call = .scan
    · subst hcall
      exact ih h.scan
    · rw [performAll_cons hcall]
      exact ih (h.settle call)

end Resolved

theorem resolved_start {file : SourceFile} (options : ScanOptions)
    (hsize : file.size = Glyph.widths source) (hlines : file.lines = [0]) :
    (start file options source).Resolved file.name source := by
  have hc : Resolved file.name source { file, options, rest := source, inText := options.mixed } :=
    ⟨rfl, ⟨[], [], by simp, rfl, hsize, by simpa [Glyph.breakEnds] using hlines⟩, by simp⟩
  unfold start
  dsimp only
  split
  · exact hc.arrive.advance.of_eq rfl rfl rfl rfl
  · exact hc.arrive

/-- When all of a source has been read, the line table holds all of its lines. -/
theorem InSource.lines_eq (h : c.InSource source) (hrest : c.rest = []) :
    c.file.lines = Glyph.lineStarts source := by
  obtain ⟨read, hsource, -, hfile⟩ := h
  rw [hrest, List.append_nil] at hsource
  rw [hfile.lines_eq, hfile.size_eq, hsource, Glyph.lineStarts]

end Cursor

end TemplateScript
