import TemplateScript.Proofs.Cursor.Raw
import TemplateScript.Proofs.Recovery.Tokens
import TemplateScript.Text.Heredoc

/-!
# Heredocs

A heredoc keeps its text as it is: what stands on lines of its own between two fences is read as one
token, and the value of that token is what stood there. All that a text may not hold is a fence, and
no carriage return may stand before the last line break, which would lose it.

The cursor counts backquotes and the value is cut out by bytes, so the two are shown apart. The
cursor stops at the last fence because every fence before it would reach into the text or over one
of the line breaks next to it.
-/

namespace TemplateScript

namespace Text

/-- The heredoc of a text, between fences of so many backquotes. -/
def heredoc (fence : Nat) (content : String) : String :=
  String.ofList (List.replicate fence backquote ++
    ('\n' :: (content.toList ++ ['\n']) ++ List.replicate fence backquote))

variable {fence : Nat} {content : String}

theorem toList_heredoc (fence : Nat) (content : String) :
    (heredoc fence content).toList = List.replicate fence backquote ++
      ('\n' :: (content.toList ++ ['\n']) ++ List.replicate fence backquote) :=
  String.toList_ofList

/-! ### Its value -/

/-- As many bytes as some characters have are these characters. -/
theorem takeBytes?_append (front back : List Char) :
    takeBytes? (Glyph.widths (front.map .char)) (front ++ back) = some front := by
  induction front with
  | nil =>
    cases back with
    | nil => rfl
    | cons c back => rw [List.nil_append, List.map_nil, Glyph.widths, takeBytes?, if_pos rfl]
  | cons c front ih =>
    have hpos := c.utf8Size_pos
    have hsize : Glyph.widths ((c :: front).map .char) =
        c.utf8Size + Glyph.widths (front.map .char) := rfl
    rw [List.cons_append, takeBytes?, hsize, if_neg (by omega), if_pos (by omega),
      Nat.add_sub_cancel_left, ih]
    rfl

/-- Of a text that does not end with a carriage return, only a line break is dropped. -/
theorem dropTrailingBreak_cons {reversed : List Char} (h : reversed.head? ≠ some '\r') :
    dropTrailingBreak ('\n' :: reversed) = reversed := by
  unfold dropTrailingBreak
  split
  · next heq =>
    obtain ⟨-, rfl⟩ := List.cons.inj heq
    exact absurd rfl h
  · next heq => exact (List.cons.inj heq).2.symm
  · next hno => exact absurd rfl (hno reversed)

theorem widths_fence (fence : Nat) :
    Glyph.widths ((List.replicate fence backquote).map .char) = fence := by
  induction fence with
  | zero => rfl
  | succ fence ih =>
    rw [List.replicate_succ, List.map_cons, Glyph.widths, ih, Nat.add_comm]
    rfl

theorem utf8ByteSize_heredoc (fence : Nat) (content : String) :
    (heredoc fence content).utf8ByteSize =
      Glyph.widths (('\n' :: (content.toList ++ ['\n'])).map .char) + 2 * fence := by
  rw [← Glyph.widths_ofText, Glyph.ofText, toList_heredoc, List.map_append, List.map_append,
    Glyph.widths_append, Glyph.widths_append, widths_fence]
  omega

/-- The value of a heredoc is its text. -/
theorem heredocValue_heredoc (fence : Nat) (hreturn : content.toList.getLast? ≠ some '\r') :
    heredocValue (heredoc fence content) = content := by
  have hfence : ((heredoc fence content).toList.takeWhile (· = backquote)).length = fence := by
    rw [toList_heredoc, List.takeWhile_append_of_pos (by simp), List.cons_append,
      List.takeWhile_cons_of_neg (by decide), List.append_nil, List.length_replicate]
  have hbody : takeBytes? ((heredoc fence content).utf8ByteSize - 2 * fence)
      ((heredoc fence content).toList.drop fence) = some ('\n' :: (content.toList ++ ['\n'])) := by
    rw [utf8ByteSize_heredoc, Nat.add_sub_cancel, toList_heredoc,
      List.drop_left' List.length_replicate, takeBytes?_append]
  have hlong : ¬ (heredoc fence content).utf8ByteSize < 2 * fence := by
    rw [utf8ByteSize_heredoc]
    omega
  have hlead : dropLeadingBreak ('\n' :: (content.toList ++ ['\n'])) = content.toList ++ ['\n'] :=
    rfl
  unfold heredocValue
  dsimp only
  rw [hfence, if_neg hlong, hbody, Option.getD_some, hlead, List.reverse_append,
    List.reverse_singleton, List.singleton_append,
    dropTrailingBreak_cons (by rwa [List.head?_reverse]), List.reverse_reverse, String.ofList_toList]

end Text

/-! ### Where it ends -/

/-- Whether a run of one element stands before another element does not depend on what follows. -/
theorem replicate_isPrefix_of_ne {α : Type} {a b : α} {n : Nat} {front back : List α} (hne : b ≠ a)
    (h : List.replicate n a <+: front ++ b :: back) : List.replicate n a <+: front := by
  obtain ⟨later, hlater⟩ := h
  rcases List.append_eq_append_iff.1 hlater with ⟨more, hfront, -⟩ | ⟨more, hrun, hback⟩
  · exact ⟨more, hfront.symm⟩
  · cases more with
    | nil => exact ⟨[], by rw [List.append_nil, hrun, List.append_nil]⟩
    | cons b' more =>
      obtain ⟨rfl, -⟩ := List.cons.inj hback
      have hmem : b ∈ List.replicate n a := by
        rw [hrun]
        exact List.mem_append_right _ List.mem_cons_self
      exact absurd (List.eq_of_mem_replicate hmem) hne

/-- A run that stands in a list behind another element stands in the rest. -/
theorem replicate_isInfix_of_ne {α : Type} {a b : α} {n : Nat} {back : List α} (hpos : 0 < n)
    (hne : b ≠ a) (h : List.replicate n a <:+: b :: back) : List.replicate n a <:+: back := by
  rcases List.infix_cons_iff.1 h with hprefix | hinfix
  · have hnil : List.replicate n a <+: [] :=
      replicate_isPrefix_of_ne hne (show _ <+: [] ++ b :: back from hprefix)
    have hempty := congrArg List.length (List.prefix_nil.1 hnil)
    rw [List.length_replicate, List.length_nil] at hempty
    omega
  · exact hinfix

theorem Glyph.countUntil_of_first {stop : List Glyph → Bool} {front back : List Glyph}
    (hno : ∀ g later, g :: later <:+ front → stop (g :: later ++ back) = false)
    (hstop : stop back = true) : countUntil stop (front ++ back) = front.length := by
  induction front with
  | nil =>
    cases back with
    | nil => rfl
    | cons g back => rw [List.nil_append, countUntil, if_pos hstop, List.length_nil]
  | cons g front ih =>
    have hnow := hno g front List.suffix_rfl
    rw [List.cons_append] at hnow
    rw [List.cons_append, countUntil, hnow, if_neg Bool.false_ne_true,
      ih fun g later h => hno g later (h.trans (List.suffix_cons ..)), List.length_cons]

namespace Cursor

open Text

variable {c : Cursor} {options : ScanOptions} {fence : Nat} {content : String} {tail : List Glyph}

/-- The glyphs of a heredoc. -/
theorem glyphs_heredoc (fence : Nat) (content : String) :
    Glyph.ofText (heredoc fence content) = List.replicate fence fenceGlyph ++
      (.char '\n' :: (Glyph.ofText content ++ [.char '\n']) ++ List.replicate fence fenceGlyph) := by
  rw [Glyph.ofText, toList_heredoc]
  simp [Glyph.ofText, fenceGlyph]

theorem exists_glyphs_heredoc (hpos : 0 < fence) (content : String) :
    ∃ more, Glyph.ofText (heredoc fence content) = fenceGlyph :: more := by
  obtain ⟨n, rfl⟩ := Nat.exists_eq_add_of_le' hpos
  exact ⟨_, glyphs_heredoc _ _⟩

/-- There is no fence in the glyphs of a text that holds none. -/
theorem not_isInfix_glyphs (hruns : ¬ List.replicate fence backquote <:+: content.toList) :
    ¬ List.replicate fence fenceGlyph <:+: Glyph.ofText content := by
  rintro ⟨before, behind, heq⟩
  obtain ⟨most, behind', hmost, hsplit, -⟩ := List.map_eq_append_iff.1 heq.symm
  obtain ⟨before', run, hchars, -, hrun⟩ := List.map_eq_append_iff.1 hsplit
  refine hruns ⟨before', behind', ?_⟩
  have hchar : Function.Injective Glyph.char := fun _ _ => Glyph.char.inj
  have hmap : run.map Glyph.char = (List.replicate fence backquote).map .char := by
    rw [hrun, List.map_replicate]
    rfl
  rw [← List.map_injective_iff.2 hchar hmap, ← hchars, ← hmost]

theorem fence_heredoc (hrest : c.rest = Glyph.ofText (heredoc fence content)) :
    c.fence = fence := by
  rw [Cursor.fence, hrest, glyphs_heredoc, Glyph.countWhile,
    List.takeWhile_append_of_pos (by simp), List.cons_append,
    List.takeWhile_cons_of_neg (by decide), List.append_nil, List.length_replicate]

/-- The next fence is the one behind the text. -/
theorem inside_heredoc (hpos : 0 < fence)
    (hruns : ¬ List.replicate fence backquote <:+: content.toList)
    (hrest : c.rest = Glyph.ofText (heredoc fence content)) :
    c.inside = (Glyph.ofText content).length + 2 := by
  have hlast : fenceGlyph ≠ .char '\n' := by decide
  rw [inside, fence_heredoc hrest, hrest, glyphs_heredoc, List.drop_left' List.length_replicate,
    Glyph.countUntil_of_first]
  · simp
  · intro g later hsuffix
    rw [Bool.eq_false_iff]
    intro hfence
    -- The suffix ends with the last line break, so the fence would have to stand before that.
    rw [← List.cons_append, List.suffix_concat_iff] at hsuffix
    obtain hnil | ⟨front, hfront, hinner⟩ := hsuffix
    · cases hnil
    rw [hfront, List.append_assoc] at hfence
    have hprefix := replicate_isPrefix_of_ne hlast.symm (List.isPrefixOf_iff_prefix.1 hfence)
    have hinfix := hprefix.isInfix.trans hinner.isInfix
    exact not_isInfix_glyphs hruns (replicate_isInfix_of_ne hpos hlast.symm hinfix)
  · exact List.isPrefixOf_iff_prefix.2 List.prefix_rfl

/-- A heredoc is one lexeme, to its end. -/
theorem lexeme_heredoc (hfence : 3 ≤ fence)
    (hruns : ¬ List.replicate fence backquote <:+: content.toList)
    (hrest : c.rest = Glyph.ofText (heredoc fence content)) :
    c.lexeme fenceGlyph = c.closing (c.advanceBy c.rest.length,
      ⟨.rawHeredoc, heredoc fence content, c.offset, {}⟩) := by
  have hopens := fence_heredoc hrest
  have hinside := inside_heredoc (Nat.lt_of_lt_of_le (by decide) hfence) hruns hrest
  have hlength : c.rest.length = fence + (c.inside + fence) := by
    rw [hinside, hrest, glyphs_heredoc]
    simp
    omega
  have hends : c.RawEnds := by
    intro hne
    rw [List.length_drop, hlength, hopens]
    omega
  have hend : c.rawEnd = c.advanceBy c.rest.length := by
    rw [rawEnd_of_ends hends, rawSize, hopens, if_neg (by omega), hlength]
  have hraw : c.raw = (c.advanceBy c.rest.length,
      ⟨.rawHeredoc, heredoc fence content, c.offset, {}⟩) := by
    have htext : c.textTo (c.advanceBy c.rest.length) = heredoc fence content :=
      textTo_eq (by rw [advanceBy_rest, List.drop_length, List.append_nil, hrest])
    rw [raw_eq, hend, htext, rawKind, hopens, if_neg (by omega)]
  obtain ⟨more, hmore⟩ := exists_glyphs_heredoc (Nat.lt_of_lt_of_le (by decide) hfence) content
  have hhead : c.rest.head? = some fenceGlyph := by rw [hrest, hmore, List.head?_cons]
  rw [lexeme, atWord, atNumber, Number.startsWithDigit, hhead]
  exact congrArg c.closing hraw

/-- The source that is the heredoc of a text is one token, with an inserted semicolon behind it, and
the value of the token is the text. -/
theorem scanAll_heredoc (file : SourceFile) (options : ScanOptions) (fence : Nat)
    (content : String) (hmixed : options.mixed = false) (hauto : options.noAutoSemicolons = false)
    (hfence : 3 ≤ fence) (hruns : ¬ List.replicate fence backquote <:+: content.toList)
    (hmark : byteOrderMark ∉ content.toList) (hreturn : content.toList.getLast? ≠ some '\r')
    (hsize : file.size = (heredoc fence content).utf8ByteSize) :
    ∃ c, start? file options (Glyph.ofBytes (utf8 (heredoc fence content))) = .ok c ∧
      c.scanAll.2 = [⟨.rawHeredoc, heredoc fence content, 0, {}⟩,
        ⟨.semicolon, "\n", (heredoc fence content).utf8ByteSize, { inserted := true }⟩,
        ⟨.eof, "", (heredoc fence content).utf8ByteSize, {}⟩] ∧
      c.scanAll.1.errors = [] ∧
      heredocValue (heredoc fence content) = content := by
  let c := start file options (Glyph.ofBytes (utf8 (heredoc fence content)))
  have hglyphs : Glyph.ofBytes (utf8 (heredoc fence content)) =
      Glyph.ofText (heredoc fence content) := Glyph.ofBytes_toUTF8 _
  have hwidths : Glyph.widths (Glyph.ofText (heredoc fence content)) =
      (heredoc fence content).utf8ByteSize := hglyphs ▸ Glyph.widths_ofBytes _
  have hfit : ∀ g ∈ Glyph.ofText (heredoc fence content), g.IsFit := by
    intro g hg
    obtain ⟨ch, hch, rfl⟩ := List.mem_map.1 hg
    refine ⟨ch, rfl, ?_⟩
    rintro rfl
    rw [toList_heredoc] at hch
    simp [byteOrderMark, backquote] at hch
    exact hmark hch
  have hstart : c = { file, options, rest := Glyph.ofText (heredoc fence content) } := by
    have hfresh : c = _ := start_fit fun g hg => hfit g (hglyphs ▸ List.mem_of_mem_head? hg)
    rw [hfresh, hglyphs, hmixed]
  have hrest : c.rest = Glyph.ofText (heredoc fence content) := by rw [hstart]
  have hscript : c.InScript options false (Glyph.ofText (heredoc fence content)) := by
    rw [hstart]
    exact ⟨rfl, hfit, rfl, rfl, rfl, rfl, rfl, rfl⟩
  obtain ⟨more, hmore⟩ := exists_glyphs_heredoc (Nat.lt_of_lt_of_le (by decide) hfence) content
  have hend := hscript.advanceBy c.rest.length
  have hscan : c.scan = ({ c.advanceBy c.rest.length with pending := true },
      ⟨.rawHeredoc, heredoc fence content, c.offset, {}⟩) := by
    rw [hmore] at hscript
    obtain ⟨-, hscan⟩ := InScript.scan_eq (n := 0) hscript hmixed rfl
    rw [hscan, Cursor.advanceBy, lexeme_heredoc hfence hruns hrest, closing, hscript.options_eq,
      hauto, ← hend.pool_eq]
    rfl
  have hne : c.rest ≠ [] := by simp [hrest, hmore]
  have hall := scanAll_single hne hscript.inText_eq hscript.pool_eq (by rintro ⟨⟩) hscan
  rw [hrest, hwidths, show c.offset = 0 by rw [hstart], Nat.zero_add] at hall
  refine ⟨c, if_pos (hsize.trans (hglyphs ▸ hwidths.symm)), by rw [hall], ?_,
    heredocValue_heredoc fence hreturn⟩
  rw [hall]
  exact (hrest ▸ hend).errors_eq

/-- A text that begins and ends with backquotes, one fewer than the fences have. -/
theorem scanAll_heredoc_backquotes : ∃ c,
    start? ⟨"main", 1, 17, [0]⟩ {} (Glyph.ofBytes (utf8 (heredoc 3 "\x60\x60\r\né\n\x60\x60"))) =
        .ok c ∧
      c.scanAll.1.errors = [] := by
  obtain ⟨c, hstart, -, herrors, -⟩ := scanAll_heredoc ⟨"main", 1, 17, [0]⟩ {} 3
    "\x60\x60\r\né\n\x60\x60" rfl rfl (by decide) (by decide +kernel) (by decide +kernel)
    (by decide +kernel) (by decide +kernel)
  exact ⟨c, hstart, herrors⟩

end Cursor

end TemplateScript
