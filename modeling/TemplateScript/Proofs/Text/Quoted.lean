import Mathlib.Algebra.Group.Nat.Defs
import TemplateScript.Cursor.Literal
import TemplateScript.Tree.Build

/-!
# Texts between quotes

Between two quotes each character of a text is written as itself or as one escape. Here is what may
stand there and which text it spells, so that whoever writes a literal, reads one off a source or
takes its value only has to agree with that.
-/

namespace TemplateScript

namespace Text

/-- What may stand behind a backslash for one character, in a literal between such quotes. A quote
of the other sort is not escaped, and an escape by number names a character that its digits may
name. -/
inductive IsEscape (quote : Char) : List Char → Char → Prop
  | named {mark c : Char} (h : namedEscape? mark = some c)
    (hquote : mark = quote ∨ (mark ≠ '"' ∧ mark ≠ '\'')) : IsEscape quote [mark] c
  | number {mark : Char} {rest : List Char} {radix count code : Nat}
    (hmark : numberEscape? mark = some (radix, count))
    (hlength : ((mark :: rest).drop (if radix = 8 then 0 else 1)).length = count)
    (hvalue : value? radix ((mark :: rest).drop (if radix = 8 then 0 else 1)) = some code)
    (hlimit : code ≤ Cursor.escapeLimit count) (hvalid : code.isValidChar) :
    IsEscape quote (mark :: rest) (Char.ofNat code)

/-- What may stand between two such quotes, and the text that it spells. -/
inductive Spells (quote : Char) : List Char → List Char → Prop
  | nil : Spells quote [] []
  | char {c : Char} {inner text : List Char} (hc : c ∉ ['\n', '\\', quote])
    (h : Spells quote inner text) : Spells quote (c :: inner) (c :: text)
  | escape {body inner text : List Char} {c : Char} (hbody : IsEscape quote body c)
    (h : Spells quote inner text) : Spells quote ('\\' :: (body ++ inner)) (c :: text)

variable {quote : Char} {body inner text : List Char} {c : Char}

theorem Spells.append {more rest : List Char} (h : Spells quote inner text)
    (hmore : Spells quote more rest) : Spells quote (inner ++ more) (text ++ rest) := by
  induction h with
  | nil => exact hmore
  | char hc h ih => exact .char hc ih
  | escape hbody h ih =>
    rw [List.cons_append, List.append_assoc]
    exact .escape hbody ih

/-! ### Taking the value -/

/-- The marks of escapes by number are no names. -/
theorem namedEscape?_of_number {mark : Char} {radix count : Nat}
    (h : numberEscape? mark = some (radix, count)) : namedEscape? mark = none := by
  unfold numberEscape? at h
  split at h
  · rfl
  · rfl
  · rfl
  · split at h
    · next hdigit =>
      cases hnamed : namedEscape? mark with
      | none => rfl
      | some named =>
        unfold namedEscape? at hnamed
        split at hnamed
        all_goals first | exact absurd hdigit (by decide) | cases hnamed
    · cases h

theorem IsEscape.escape?_eq (h : IsEscape quote body c) (rest : List Char) :
    escape? (body ++ rest) = some (c, body.length) := by
  cases h with
  | named h hquote =>
    rw [List.cons_append, escape?, h]
    rfl
  | @number mark digits radix count code hmark hlength hvalue hlimit hvalid =>
    have hdigits : ((mark :: (digits ++ rest)).drop (if radix = 8 then 0 else 1)).take count =
        (mark :: digits).drop (if radix = 8 then 0 else 1) := by
      rw [← List.cons_append, List.drop_append_of_le_length, List.take_left' hlength]
      split <;> simp
    have htotal : (if radix = 8 then 0 else 1) + count = (mark :: digits).length := by
      rw [← hlength, List.length_drop, List.length_cons]
      split <;> omega
    rw [List.cons_append, escape?, namedEscape?_of_number hmark, hmark]
    simp only [Option.bind_eq_bind, Option.bind_some, hdigits, hlength, Nat.lt_irrefl, if_false,
      hvalue, scalar?, if_pos hvalid, htotal]
    rfl

/-- Characters that belong to an escape already read are passed over. -/
theorem unescapeAfter_length (body rest : List Char) :
    unescapeAfter body.length (body ++ rest) = unescapeAfter 0 rest := by
  induction body with
  | nil => rfl
  | cons c body ih => exact ih

theorem Spells.unescape (h : Spells quote inner text) : unescapeAfter 0 inner = some text := by
  induction h with
  | nil => rfl
  | char hc h ih =>
    rw [unescapeAfter, if_neg fun heq => hc (by simp [heq]), ih]
    rfl
  | @escape body inner text c hbody h ih =>
    rw [unescapeAfter, if_pos rfl, hbody.escape?_eq]
    simp only [Option.bind_eq_bind, Option.bind_some, unescapeAfter_length, ih]
    rfl

/-- The value of a literal between quotes is the text that it spells. -/
theorem Spells.unquote_eq (h : Spells quote inner text) (hquote : quote ≠ backquote) :
    unquote (String.ofList (quote :: (inner ++ [quote]))) = some (String.ofList text) := by
  unfold unquote
  rw [String.toList_ofList]
  dsimp only
  rw [List.getLast?_concat, List.dropLast_concat, if_neg (not_not_intro rfl), if_neg hquote,
    h.unescape]
  rfl

/-! ### Digits -/

theorem valueFrom?_append (radix acc : Nat) (digits more : List Char) :
    valueFrom? radix acc (digits ++ more) =
      (valueFrom? radix acc digits).bind fun value => valueFrom? radix value more := by
  induction digits generalizing acc with
  | nil => rfl
  | cons d digits ih =>
    rw [List.cons_append, valueFrom?, valueFrom?]
    cases digit? radix d with
    | none => rfl
    | some value => exact ih _

theorem digit?_digitChar : ∀ d < 16, digit? 16 d.digitChar = some d := by decide

theorem value?_toDigits (n : Nat) : value? 16 (Nat.toDigits 16 n) = some n := by
  induction n using Nat.strongRecOn with
  | ind n ih =>
    by_cases hlt : n < 16
    · rw [Nat.toDigits_of_lt_base hlt, value?, valueFrom?, digit?_digitChar n hlt]
      simp [valueFrom?]
    · have hle : 16 ≤ n := Nat.le_of_not_lt hlt
      have hrest := ih (n / 16) (Nat.div_lt_self (by omega) (by decide))
      rw [value?] at hrest
      rw [Nat.toDigits_of_base_le (by decide) hle, value?, valueFrom?_append, hrest,
        Option.bind_some, valueFrom?, digit?_digitChar _ (Nat.mod_lt n (by decide)),
        Option.bind_some, valueFrom?, Nat.div_add_mod']

/-- A number is read back from its digits, with zeros before them or without. -/
theorem value?_hex (least n : Nat) : value? 16 (hex least n) = some n := by
  have hzeros (k : Nat) : valueFrom? 16 0 (List.replicate k '0') = some 0 := by
    induction k with
    | zero => rfl
    | succ k ih => exact ih
  unfold hex value?
  rw [valueFrom?_append, hzeros, Option.bind_some]
  exact value?_toDigits n

theorem length_hex {least n : Nat} (hleast : 0 < least) (hn : n < 16 ^ least) :
    (hex least n).length = least := by
  have hle := (Nat.length_toDigits_le_iff (b := 16) (by decide) hleast).2 hn
  unfold hex
  rw [List.length_append, List.length_replicate]
  omega

/-! ### Writing literals -/

/-- A control character is written as an escape by number. -/
theorem isEscape_control (h : isControl c = true) :
    IsEscape quote ('u' :: hex 4 c.toNat) c := by
  have hlt : c.toNat < 0xA0 := by
    simp only [isControl, Bool.or_eq_true, Bool.and_eq_true, decide_eq_true_eq] at h
    omega
  have hmark : numberEscape? 'u' = some (16, 4) := rfl
  have hescape : IsEscape quote ('u' :: hex 4 c.toNat) (Char.ofNat c.toNat) :=
    .number hmark (length_hex (by decide) (Nat.lt_trans hlt (by decide))) (value?_hex 4 c.toNat)
      (Nat.le_trans (Nat.le_of_lt hlt) (by decide)) c.valid
  rwa [Char.ofNat_toNat] at hescape

/-- A character is written as one that stands for itself, or as an escape. Between single quotes
this is so of all that are no quotes. -/
theorem spells_quotedChar (hquote : quote = '"' ∨ quote = '\'' ∧ c ≠ '"' ∧ c ≠ '\'') :
    Spells quote (quotedChar c) [c] := by
  have hnamed {mark named : Char} (h : namedEscape? mark = some named)
      (hmark : mark ≠ '"' ∧ mark ≠ '\'') : Spells quote ['\\', mark] [named] :=
    .escape (.named h (.inr hmark)) .nil
  unfold quotedChar
  split
  · next hc =>
    obtain rfl : quote = '"' := hquote.resolve_right fun h => h.2.1 hc
    rw [hc]
    exact .escape (.named rfl (.inl rfl)) .nil
  split
  · next hc =>
    rw [hc]
    exact hnamed rfl (by decide)
  split
  · next hc =>
    rw [hc]
    exact hnamed rfl (by decide)
  split
  · next hc =>
    rw [hc]
    exact hnamed rfl (by decide)
  split
  · next hc =>
    rw [hc]
    exact hnamed rfl (by decide)
  split
  · next hc =>
    have hescape : Spells quote ('\\' :: (('u' :: hex 4 c.toNat) ++ [])) [c] :=
      .escape (isEscape_control hc) .nil
    rwa [List.append_nil] at hescape
  · next hdouble hback hbreak _ _ _ =>
    have hne : c ≠ quote := by
      rcases hquote with rfl | ⟨rfl, -, hsingle⟩
      · exact hdouble
      · exact hsingle
    exact .char (by simp [hbreak, hback, hne]) .nil

/-- What stands between the quotes of a text's literal. -/
theorem spells_quote (text : List Char) : Spells '"' (text.flatMap quotedChar) text := by
  induction text with
  | nil => exact .nil
  | cons c text ih => exact (spells_quotedChar (.inl rfl)).append ih

/-- What stands between the quotes of a character's literal. -/
theorem exists_spells_quoteChar (c : Char) :
    ∃ inner, Spells '\'' inner [c] ∧ quoteChar c = String.ofList ('\'' :: (inner ++ ['\''])) := by
  unfold quoteChar
  refine ⟨_, ?_, rfl⟩
  split
  · next hc =>
    rw [hc]
    exact .char (by decide) .nil
  split
  · next hc =>
    rw [hc]
    exact .escape (.named rfl (.inl rfl)) .nil
  · next hdouble hsingle => exact spells_quotedChar (.inr ⟨rfl, hdouble, hsingle⟩)

theorem unquote_quote (text : String) : unquote (Text.quote text) = some text := by
  have hvalue := (spells_quote text.toList).unquote_eq (by decide)
  rwa [String.ofList_toList] at hvalue

/-- A text is the value of its literal, and a character is that of the literal it is built with. -/
theorem unquote_written :
    (∀ text : String, unquote (Text.quote text) = some text) ∧
      ∀ c : Char, ∃ l, Build.char c = .literal l ∧ unquote l.text = some (String.singleton c) := by
  constructor
  · exact unquote_quote
  · intro c
    obtain ⟨inner, hspells, hliteral⟩ := exists_spells_quoteChar c
    refine ⟨_, rfl, ?_⟩
    have hvalue := hspells.unquote_eq (by decide)
    rwa [← hliteral] at hvalue

example : unquote (Text.quote "\t\"é\x7f") = some "\t\"é\x7f" := by cbv

end Text

end TemplateScript
