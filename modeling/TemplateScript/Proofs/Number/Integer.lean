import Mathlib.Data.Nat.Digits.Defs
import Mathlib.Tactic.Ring
import TemplateScript.Number.Integer

/-!
# The value of an integer

The value of an integer is the positional value of its digits, of any number of them. Underscores do
not count, and they do not hide what stands before the digits either: they are dropped before the
mark of a radix is looked for, and neither a digit nor an underscore is taken for one.
-/

namespace TemplateScript

namespace Number

/-- The text is an integer of a radix with some digits. In base ten the digits stand alone, and an
underscore may not come first; otherwise a zero and the letter of the radix stand before them. -/
inductive IsInteger : Nat → List Char → List Char → Prop
  | plain {digits : List Char} (hfirst : digits.head?.any (Text.isDigit 10) = true)
    (hall : ∀ ch ∈ digits, ch = '_' ∨ Text.isDigit 10 ch = true) : IsInteger 10 digits digits
  | marked {radix : Nat} {mark : Char} {digits : List Char} (hmark : radix? mark = some radix)
    (hany : ∃ ch ∈ digits, Text.isDigit radix ch = true)
    (hall : ∀ ch ∈ digits, ch = '_' ∨ Text.isDigit radix ch = true) :
    IsInteger radix digits ('0' :: mark :: digits)

/-- The positional value of the digits, among which there may be underscores. -/
def positional (radix : Nat) (digits : List Char) : Nat :=
  Nat.ofDigits radix (digits.filterMap (Text.digit? radix)).reverse

variable {radix : Nat} {digits text : List Char}

/-- A digit counts as much as its place says. -/
theorem positional_cons_digit {ch : Char} {d : Nat} (h : Text.digit? radix ch = some d) :
    positional radix (ch :: digits) = positional radix digits +
      radix ^ (digits.filterMap (Text.digit? radix)).length * d := by
  rw [positional, List.filterMap_cons_some h, List.reverse_cons, Nat.ofDigits_append,
    Nat.ofDigits_singleton, List.length_reverse, positional]

/-- Reading digits from the left gives what their places say. -/
theorem valueFrom?_eq (hall : ∀ ch ∈ digits, ch = '_' ∨ Text.isDigit radix ch = true) (acc : Nat) :
    Text.valueFrom? radix acc (digits.filter (· ≠ '_')) =
      some (positional radix digits +
        radix ^ (digits.filterMap (Text.digit? radix)).length * acc) := by
  induction digits generalizing acc with
  | nil => simp [Text.valueFrom?, positional]
  | cons ch digits ih =>
    have hrest := ih fun ch hch => hall ch (List.mem_cons_of_mem _ hch)
    by_cases hline : ch = '_'
    · subst hline
      exact hrest acc
    · obtain ⟨d, hd⟩ := Option.isSome_iff_exists.1
        ((hall ch List.mem_cons_self).resolve_left hline)
      rw [List.filter_cons_of_pos (by simpa using hline), Text.valueFrom?, hd, Option.bind_some,
        hrest, positional_cons_digit hd, List.filterMap_cons_some hd, List.length_cons]
      congr 1
      ring

/-- At least one digit has a value. -/
theorem positional?_eq (hany : ∃ ch ∈ digits, Text.isDigit radix ch = true)
    (hall : ∀ ch ∈ digits, ch = '_' ∨ Text.isDigit radix ch = true) :
    positional? radix (digits.filter (· ≠ '_')) = some (positional radix digits) := by
  obtain ⟨ch, hch, hdigit⟩ := hany
  have hline : ch ≠ '_' := by
    rintro rfl
    cases hdigit
  have hne : digits.filter (· ≠ '_') ≠ [] :=
    List.ne_nil_of_mem (List.mem_filter.2 ⟨hch, by simpa using hline⟩)
  rw [positional?, if_neg hne, Text.value?, valueFrom?_eq hall, Nat.mul_zero, Nat.add_zero]

/-- No decimal digit is the letter of a radix. -/
theorem radix?_of_isDigit {ch : Char} (h : Text.isDigit 10 ch = true) : radix? ch = none := by
  unfold radix?
  split <;> first | rfl | cases h

theorem exists_isDigit_of_head (hfirst : digits.head?.any (Text.isDigit radix) = true) :
    ∃ ch ∈ digits, Text.isDigit radix ch = true := by
  obtain ⟨ch, hch, hdigit⟩ := (Option.any_eq_true _ _).1 hfirst
  exact ⟨ch, List.mem_of_mem_head? hch, hdigit⟩

/-- The value of an integer is the positional value of its digits. -/
theorem IsInteger.integer?_eq (h : IsInteger radix digits text) :
    integer? (String.ofList text) = some (positional radix digits) := by
  unfold integer?
  rw [String.toList_ofList]
  cases h with
  | plain hfirst hall =>
    have hvalue := positional?_eq (exists_isDigit_of_head hfirst) hall
    dsimp only
    split
    · next c rest hdigits =>
      have hmem : c ∈ digits.filter (· ≠ '_') := by
        rw [hdigits]
        exact List.mem_cons_of_mem _ List.mem_cons_self
      obtain ⟨hmem, hline⟩ := List.mem_filter.1 hmem
      have hdigit := (hall c hmem).resolve_left (by simpa using hline)
      rw [radix?_of_isDigit hdigit]
      exact hvalue
    · exact hvalue
  | @marked _ mark _ hmark hany hall =>
    have hline : mark ≠ '_' := by
      rintro rfl
      cases hmark
    rw [List.filter_cons_of_pos (by decide), List.filter_cons_of_pos (by simpa using hline)]
    simp only [hmark]
    exact positional?_eq hany hall

/-! ### Decimal digits -/

theorem digit?_digitChar : ∀ d < 10, Text.digit? 10 d.digitChar = some d := by decide

/-- One more digit behind the others. -/
theorem positional_concat {ch : Char} {d : Nat} (h : Text.digit? radix ch = some d) :
    positional radix (digits ++ [ch]) = d + radix * positional radix digits := by
  unfold positional
  rw [List.filterMap_append, List.filterMap_cons_some h, List.filterMap_nil, List.reverse_append,
    List.reverse_singleton, List.singleton_append, Nat.ofDigits_cons]

/-- The decimal digits of a number are worth it. -/
theorem positional_toDigits (n : Nat) : positional 10 (Nat.toDigits 10 n) = n := by
  induction n using Nat.strongRecOn with
  | ind n ih =>
    by_cases hlt : n < 10
    · rw [Nat.toDigits_of_lt_base hlt]
      have hone : positional 10 ([] ++ [n.digitChar]) = n + 10 * positional 10 [] :=
        positional_concat (digit?_digitChar n hlt)
      rw [List.nil_append] at hone
      rw [hone]
      rfl
    · have hrest := ih (n / 10) (Nat.div_lt_self (by omega) (by decide))
      rw [Nat.toDigits_of_base_le (by decide) (Nat.le_of_not_lt hlt),
        positional_concat (digit?_digitChar _ (Nat.mod_lt n (by decide))), hrest]
      exact Nat.mod_add_div n 10

/-- The decimal digits of a number are an integer. -/
theorem isInteger_toDigits (n : Nat) : IsInteger 10 (Nat.toDigits 10 n) (Nat.toDigits 10 n) := by
  have hall (n : Nat) : ∀ ch ∈ Nat.toDigits 10 n, Text.isDigit 10 ch = true := by
    induction n using Nat.strongRecOn with
    | ind n ih =>
      have hlast : Text.isDigit 10 (n % 10).digitChar = true := by
        rw [Text.isDigit, digit?_digitChar _ (Nat.mod_lt n (by decide))]
        rfl
      by_cases hlt : n < 10
      · rw [Nat.toDigits_of_lt_base hlt]
        rw [Nat.mod_eq_of_lt hlt] at hlast
        exact List.forall_mem_singleton.2 hlast
      · rw [Nat.toDigits_of_base_le (by decide) (Nat.le_of_not_lt hlt)]
        have hrest := ih (n / 10) (Nat.div_lt_self (by omega) (by decide))
        exact List.forall_mem_append.2 ⟨hrest, List.forall_mem_singleton.2 hlast⟩
  refine .plain ?_ fun ch hch => .inr (hall n ch hch)
  cases hdigits : Nat.toDigits 10 n with
  | nil => exact absurd hdigits Nat.toDigits_ne_nil
  | cons ch rest => exact hall n ch (hdigits ▸ List.mem_cons_self)

end Number

end TemplateScript
