import TemplateScript.Proofs.Cursor.Fidelity

/-!
# Streams of templates are well bracketed

The tokens of a template are texts, pragma lines and blocks of code between their delimiters. A
block ends only where all brackets that it opened are closed; and where they are, it does end at the
closing delimiter, whatever else the delimiter could be read as. The words that stand for braces are
no brackets here, and what a pragma line opens stays in it.
-/

namespace TemplateScript

/-- The open brackets after one more token of a block. A word that stands for a brace keeps its
text, and is none. -/
def Nesting.past (n : Nesting) (t : Token) : Nesting := if t.literal = "" then n.after t.kind else n

/-- Where a stream of tokens stands. -/
inductive Region where
  /-- Outside the blocks; behind a text there is no other one. -/
  | text (mayHaveText : Bool)
  /-- In a block that is a value or not, with brackets open since its begin. -/
  | block (isValue : Bool) (nesting : Nesting)

namespace Token

/-- The tokens of a pragma line: lexemes between the two tokens that bracket them. -/
def IsPragmaLine (tokens : List Token) : Prop :=
  ∃ first body last, tokens = first :: (body ++ [last]) ∧ first.kind = .pragmaStart ∧
    last.kind = .pragmaEnd ∧ ∀ t ∈ body, t.kind.isOuter = false

/-- The delimiter begins or ends a block of the given sort. -/
def Begins (t : Token) (isValue : Bool) : Prop :=
  t.kind = if isValue then .valueBegin else .codeBegin

@[inherit_doc Begins]
def Ends (t : Token) (isValue : Bool) : Prop := t.kind = if isValue then .valueEnd else .codeEnd

end Token

/-- The tokens from a region on, up to the end of the file, are well bracketed. Where `ends` holds,
code ends if no bracket is open. -/
inductive Bracketed (ends : Nat → Prop) : Region → List Token → Prop
  | eof {region : Region} {t : Token} (hkind : t.kind = .eof) : Bracketed ends region [t]
  | text {t : Token} {tokens : List Token} (hkind : t.kind = .text) (hliteral : t.literal ≠ "")
    (h : Bracketed ends (.text false) tokens) : Bracketed ends (.text true) (t :: tokens)
  | pragma {mayHaveText : Bool} {line tokens : List Token} (hline : Token.IsPragmaLine line)
    (h : Bracketed ends (.text true) tokens) : Bracketed ends (.text mayHaveText) (line ++ tokens)
  | opening {mayHaveText isValue : Bool} {t : Token} {tokens : List Token}
    (hkind : t.Begins isValue) (h : Bracketed ends (.block isValue {}) tokens) :
    Bracketed ends (.text mayHaveText) (t :: tokens)
  | inner {isValue : Bool} {nesting : Nesting} {t : Token} {tokens : List Token}
    (hkind : t.kind = .comment ∨ t.kind.isOuter = false)
    (hends : nesting.isOpen = false → ¬ ends t.pos)
    (h : Bracketed ends (.block isValue (nesting.past t)) tokens) :
    Bracketed ends (.block isValue nesting) (t :: tokens)
  | pragmaInside {isValue : Bool} {nesting : Nesting} {line tokens : List Token}
    (hline : Token.IsPragmaLine line) (h : Bracketed ends (.block isValue nesting) tokens) :
    Bracketed ends (.block isValue nesting) (line ++ tokens)
  | closing {isValue : Bool} {nesting : Nesting} {t : Token} {tokens : List Token}
    (hkind : t.Ends isValue) (hnesting : nesting.isOpen = false)
    (h : Bracketed ends (.text true) tokens) : Bracketed ends (.block isValue nesting) (t :: tokens)

namespace Glyph

/-! ### Glyphs behind a byte -/

/-- Behind the first glyph of some bytes are the glyphs of the bytes behind it. -/
theorem ofBytes_tail {source : List UInt8} {g : Glyph} {rest : List Glyph}
    (h : ofBytes source = g :: rest) : rest = ofBytes (source.drop g.width) := by
  cases source with
  | nil => cases h
  | cons a tail =>
    cases hhead : head? (a :: tail) with
    | none =>
      rw [ofBytes_byte hhead] at h
      obtain ⟨rfl, rfl⟩ := List.cons.inj h
      rfl
    | some c =>
      rw [ofBytes_char hhead] at h
      obtain ⟨rfl, rfl⟩ := List.cons.inj h
      rfl

theorem ofBytes_drop {source : List UInt8} {read rest : List Glyph}
    (h : ofBytes source = read ++ rest) : rest = ofBytes (source.drop (widths read)) := by
  induction read generalizing source with
  | nil => exact h.symm
  | cons g read ih =>
    have hrest := ih (ofBytes_tail h).symm
    rwa [List.drop_drop] at hrest

end Glyph

namespace Cursor

variable {c later : Cursor} {source : List UInt8} {options : ScanOptions}

/-- The cursor reads a source as a template, with options that are fixed. -/
structure InTemplate (source : List UInt8) (options : ScanOptions) (c : Cursor) : Prop where
  rest_eq : c.rest = Glyph.ofBytes (source.drop c.offset)
  options_eq : c.options = options
  mixed_eq : options.mixed = true
  closing_ne : options.delimiters.closing ≠ ""

theorem InTemplate.reaches (h : c.InTemplate source options) (hreaches : c.Reaches later)
    (hoptions : later.options = c.options) : later.InTemplate source options := by
  obtain ⟨read, hread⟩ := hreaches
  refine { h with rest_eq := ?_, options_eq := hoptions.trans h.options_eq }
  have hrest := Glyph.ofBytes_drop (h.rest_eq.symm.trans hread.rest_eq)
  rwa [List.drop_drop, ← hread.offset_eq] at hrest

/-- The cursor stands in a region. Behind a text, what comes next is the end of the file or a pragma
line. -/
def Within (c : Cursor) : Region → Prop
  | .text mayHaveText =>
    c.inText = true ∧ (mayHaveText = false → c.rest = [] ∨ c.pragmaLine?.isSome = true)
  | .block isValue nesting => c.inText = false ∧ c.inValue = isValue ∧ c.nesting = nesting

/-- What is read in a region belongs there, and leads to another one, unless it is the end of the
file. -/
def ReadsIn (ends : Nat → Prop) (region : Region) (read : Cursor × Token × List Token) : Prop :=
  read.2.1.kind = .eof ∨ ∃ next, read.1.Within next ∧
    ∀ tokens, Bracketed ends next tokens →
      Bracketed ends region (read.2.1 :: (read.2.2 ++ tokens))

variable {ends : Nat → Prop} {isValue mayHaveText : Bool} {nesting : Nesting}

theorem textToken?_text {start : Nat} {blanks kept : List Glyph} {escaped : Bool} {t : Token}
    (h : textToken? start blanks kept escaped = some t) : t.kind = .text ∧ t.literal ≠ "" := by
  have hkept := textToken_kept h
  unfold textToken? at h
  rw [if_neg hkept] at h
  obtain rfl := Option.some.inj h
  exact ⟨rfl, Glyph.text_ne hkept⟩

/-- The block that the delimiter behind a text begins. -/
theorem textDelimiter_begins (c : Cursor) :
    c.textDelimiter.2.Begins (c.textDelimiter.2.kind = .valueBegin) := by
  unfold Token.Begins textDelimiter openingDelimiter
  dsimp only
  split <;> rfl

theorem Within.withPool {region : Region} (h : c.Within region) (pool : List Token) :
    Within { c with pool } region := by
  cases region with
  | text mayHaveText => exact h
  | block isValue nesting => exact h

end Cursor

end TemplateScript
