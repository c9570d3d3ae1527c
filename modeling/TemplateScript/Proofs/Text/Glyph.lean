import TemplateScript.Text.Glyph

/-!
# Glyphs and their bytes

A glyph stands for the bytes it was read from, and the glyphs of a source for all of its bytes: none
is lost, and none is made up. A character is read exactly where its encoding stands, so the glyphs
of an encoded text are its characters.
-/

namespace TemplateScript

/-! ### Encoded characters -/

/-- What a lead byte says of itself and of the byte behind it, in numbers. The range of that byte is
narrower where an overlong form, a surrogate or a code point past the last one would begin. -/
theorem Lead.cases {a : UInt8} {lead : Lead} (h : Lead.of? a = some lead) :
    (a.toNat < 0x80 ∧ lead.owed = 0 ∧ lead.bits = a.toNat) ∨
    (0x80 ≤ lead.low.toNat ∧ lead.high.toNat ≤ 0xBF ∧
      ((0xC2 ≤ a.toNat ∧ a.toNat < 0xE0 ∧ lead.owed = 1 ∧ lead.bits = a.toNat - 0xC0) ∨
      (0xE0 ≤ a.toNat ∧ a.toNat < 0xF0 ∧ lead.owed = 2 ∧ lead.bits = a.toNat - 0xE0 ∧
        (a.toNat = 0xE0 → 0xA0 ≤ lead.low.toNat) ∧ (a.toNat = 0xED → lead.high.toNat ≤ 0x9F)) ∨
      (0xF0 ≤ a.toNat ∧ a.toNat < 0xF5 ∧ lead.owed = 3 ∧ lead.bits = a.toNat - 0xF0 ∧
        (a.toNat = 0xF0 → 0x90 ≤ lead.low.toNat) ∧
        (a.toNat = 0xF4 → lead.high.toNat ≤ 0x8F)))) := by
  unfold Lead.of? at h
  simp only [UInt8.lt_iff_toNat_lt, ← UInt8.toNat_inj, UInt8.reduceToNat] at h
  split at h
  · next hone =>
    obtain rfl := Option.some.inj h
    exact .inl ⟨hone, rfl, rfl⟩
  split at h
  · cases h
  all_goals
    right
    split at h
  · obtain rfl := Option.some.inj h
    exact ⟨Nat.le_refl _, Nat.le_refl _, .inl ⟨by omega, by omega, rfl, rfl⟩⟩
  · split at h
    · obtain rfl := Option.some.inj h
      simp only [apply_ite UInt8.toNat, UInt8.reduceToNat]
      grind
    · split at h
      · obtain rfl := Option.some.inj h
        simp only [apply_ite UInt8.toNat, UInt8.reduceToNat]
        grind
      · cases h

theorem toNat_ofNat_lt {n : Nat} (h : n < 256) : (UInt8.ofNat n).toNat = n := by
  rw [UInt8.toNat_ofNat']
  exact Nat.mod_eq_of_lt h

theorem Lead.of?_one {n : Nat} (h : n < 0x80) :
    Lead.of? (UInt8.ofNat n) = some ⟨0, 0x80, 0xBF, n⟩ := by
  unfold Lead.of?
  simp only [UInt8.lt_iff_toNat_lt, UInt8.reduceToNat, toNat_ofNat_lt (show n < 256 by omega)]
  rw [if_pos h]

theorem Lead.of?_two {n : Nat} (h : 0xC2 ≤ n) (h' : n < 0xE0) :
    Lead.of? (UInt8.ofNat n) = some ⟨1, 0x80, 0xBF, n - 0xC0⟩ := by
  unfold Lead.of?
  simp only [UInt8.lt_iff_toNat_lt, UInt8.reduceToNat, toNat_ofNat_lt (show n < 256 by omega)]
  rw [if_neg (by omega), if_neg (by omega), if_pos h']

theorem Lead.of?_three {n : Nat} (h : 0xE0 ≤ n) (h' : n < 0xF0) :
    Lead.of? (UInt8.ofNat n) =
      some ⟨2, if n = 0xE0 then 0xA0 else 0x80, if n = 0xED then 0x9F else 0xBF, n - 0xE0⟩ := by
  unfold Lead.of?
  simp only [UInt8.lt_iff_toNat_lt, ← UInt8.toNat_inj, UInt8.reduceToNat,
    toNat_ofNat_lt (show n < 256 by omega)]
  rw [if_neg (by omega), if_neg (by omega), if_neg (by omega), if_pos h']

theorem Lead.of?_four {n : Nat} (h : 0xF0 ≤ n) (h' : n < 0xF5) :
    Lead.of? (UInt8.ofNat n) =
      some ⟨3, if n = 0xF0 then 0x90 else 0x80, if n = 0xF4 then 0x8F else 0xBF, n - 0xF0⟩ := by
  unfold Lead.of?
  simp only [UInt8.lt_iff_toNat_lt, ← UInt8.toNat_inj, UInt8.reduceToNat,
    toNat_ofNat_lt (show n < 256 by omega)]
  rw [if_neg (by omega), if_neg (by omega), if_neg (by omega), if_neg (by omega), if_pos h']

theorem continuations_zero (low high : UInt8) (rest : List UInt8) :
    continuations 0 low high rest = [] := by
  cases rest <;> rfl

/-- If all bytes that are owed are there, the first of them is, and so are the others. -/
theorem continuations_succ {owed : Nat} {low high : UInt8} {rest : List UInt8}
    (h : (continuations (owed + 1) low high rest).length = owed + 1) :
    ∃ b tail, rest = b :: tail ∧ low.toNat ≤ b.toNat ∧ b.toNat ≤ high.toNat ∧
      continuations (owed + 1) low high rest = b :: continuations owed 0x80 0xBF tail ∧
      (continuations owed 0x80 0xBF tail).length = owed := by
  cases rest with
  | nil => cases h
  | cons b tail =>
    rw [continuations] at h ⊢
    split at h
    · next hb =>
      rw [if_pos hb]
      exact ⟨b, tail, rfl, hb.1, hb.2, rfl, Nat.succ.inj h⟩
    · cases h

/-- A byte in range is the next one that is owed. -/
theorem continuations_cons {owed : Nat} {low high b : UInt8} {tail : List UInt8}
    (hlow : low.toNat ≤ b.toNat) (hhigh : b.toNat ≤ high.toNat) :
    continuations (owed + 1) low high (b :: tail) = b :: continuations owed 0x80 0xBF tail := by
  rw [continuations]
  exact if_pos ⟨hlow, hhigh⟩

theorem toNat_tail (n : Nat) : (UInt8.ofNat (n % 64 + 128)).toNat = n % 64 + 128 :=
  toNat_ofNat_lt (by omega)

theorem continuations_tail (owed n : Nat) (rest : List UInt8) :
    continuations (owed + 1) 0x80 0xBF (UInt8.ofNat (n % 64 + 128) :: rest) =
      UInt8.ofNat (n % 64 + 128) :: continuations owed 0x80 0xBF rest := by
  refine continuations_cons ?_ ?_
  · rw [toNat_tail]
    exact Nat.le_add_left ..
  · rw [toNat_tail]
    change n % 64 + 128 ≤ 191
    omega

/-- The bytes of the character with a number, by how many there are. -/
theorem utf8EncodeChar_ofNat {n : Nat} (h : n.isValidChar) :
    String.utf8EncodeChar (Char.ofNat n) =
      if n ≤ 127 then [UInt8.ofNat n]
      else if n ≤ 2047 then [UInt8.ofNat (n / 64 % 32 + 192), UInt8.ofNat (n % 64 + 128)]
      else if n ≤ 65535 then
        [UInt8.ofNat (n / 4096 % 16 + 224), UInt8.ofNat (n / 64 % 64 + 128),
          UInt8.ofNat (n % 64 + 128)]
      else
        [UInt8.ofNat (n / 262144 % 8 + 240), UInt8.ofNat (n / 4096 % 64 + 128),
          UInt8.ofNat (n / 64 % 64 + 128), UInt8.ofNat (n % 64 + 128)] := by
  have hval : (Char.ofNat n).val.toNat = n := by
    rw [Char.ofNat, dif_pos h]
    rfl
  unfold String.utf8EncodeChar
  simp only [hval]

theorem ofNat_eq {a : UInt8} {n : Nat} (h : n = a.toNat) : UInt8.ofNat n = a := by
  subst h
  exact UInt8.ofNat_toNat

namespace Glyph

/-- The character at the head of some bytes is what they encode. -/
theorem encode_of_head? {a : UInt8} {rest : List UInt8} {c : Char}
    (h : head? (a :: rest) = some c) : String.utf8EncodeChar c <+: a :: rest := by
  rw [head?] at h
  cases hlead : Lead.of? a with
  | none =>
    rw [hlead] at h
    cases h
  | some lead =>
    rw [hlead] at h
    have hcases := Lead.cases hlead
    obtain ⟨owed, low, high, bits⟩ := lead
    dsimp only at h hcases
    split at h
    · next hlength =>
      obtain ⟨hone, rfl, rfl⟩ | ⟨hlow, hhigh, htwo | hthree | hfour⟩ := hcases
      · rw [continuations_zero, List.foldl_nil] at h
        obtain rfl := Option.some.inj h
        rw [utf8EncodeChar_ofNat (.inl (by omega)), if_pos (by omega), ofNat_eq rfl]
        simp
      · obtain ⟨ha, ha', rfl, hbits⟩ := htwo
        obtain ⟨b, tail, rfl, hb, hb', heq, -⟩ := continuations_succ hlength
        rw [heq, continuations_zero, hbits] at h
        simp only [List.foldl_cons, List.foldl_nil] at h
        obtain rfl := Option.some.inj h
        generalize hn : (a.toNat - 0xC0) * 64 + (b.toNat - 0x80) = n
        rw [utf8EncodeChar_ofNat (.inl (by omega)), if_neg (by omega), if_pos (by omega),
          ofNat_eq (a := a) (by omega), ofNat_eq (a := b) (by omega)]
        simp
      · obtain ⟨ha, ha', rfl, hbits, hlong, hsurrogate⟩ := hthree
        obtain ⟨b, tail, rfl, hb, hb', heq, hlength⟩ := continuations_succ hlength
        obtain ⟨b₂, tail, rfl, hb₂, hb₂', heq₂, -⟩ := continuations_succ hlength
        rw [heq, heq₂, continuations_zero, hbits] at h
        simp only [List.foldl_cons, List.foldl_nil] at h
        obtain rfl := Option.some.inj h
        simp only [UInt8.reduceToNat] at hb₂ hb₂'
        generalize hn : ((a.toNat - 0xE0) * 64 + (b.toNat - 0x80)) * 64 + (b₂.toNat - 0x80) = n
        have hvalid : n.isValidChar := by
          unfold Nat.isValidChar
          omega
        rw [utf8EncodeChar_ofNat hvalid, if_neg (by omega), if_neg (by omega), if_pos (by omega),
          ofNat_eq (a := a) (by omega), ofNat_eq (a := b) (by omega),
          ofNat_eq (a := b₂) (by omega)]
        simp
      · obtain ⟨ha, ha', rfl, hbits, hlong, hlast⟩ := hfour
        obtain ⟨b, tail, rfl, hb, hb', heq, hlength⟩ := continuations_succ hlength
        obtain ⟨b₂, tail, rfl, hb₂, hb₂', heq₂, hlength⟩ := continuations_succ hlength
        obtain ⟨b₃, tail, rfl, hb₃, hb₃', heq₃, -⟩ := continuations_succ hlength
        rw [heq, heq₂, heq₃, continuations_zero, hbits] at h
        simp only [List.foldl_cons, List.foldl_nil] at h
        obtain rfl := Option.some.inj h
        simp only [UInt8.reduceToNat] at hb₂ hb₂' hb₃ hb₃'
        generalize hn : (((a.toNat - 0xF0) * 64 + (b.toNat - 0x80)) * 64 + (b₂.toNat - 0x80)) * 64 +
          (b₃.toNat - 0x80) = n
        have hvalid : n.isValidChar := by
          unfold Nat.isValidChar
          omega
        rw [utf8EncodeChar_ofNat hvalid, if_neg (by omega), if_neg (by omega), if_neg (by omega),
          ofNat_eq (a := a) (by omega), ofNat_eq (a := b) (by omega),
          ofNat_eq (a := b₂) (by omega), ofNat_eq (a := b₃) (by omega)]
        simp
    · cases h

theorem head?_cons {a : UInt8} {rest : List UInt8} {lead : Lead} (hlead : Lead.of? a = some lead)
    (hlength : (continuations lead.owed lead.low lead.high rest).length = lead.owed) :
    head? (a :: rest) = some (Char.ofNat ((continuations lead.owed lead.low lead.high rest).foldl
      (fun bits b => bits * 64 + (b.toNat - 0x80)) lead.bits)) := by
  rw [head?, hlead]
  exact if_pos hlength

/-- A character is read where its encoding stands. -/
theorem head?_encode (c : Char) (rest : List UInt8) :
    head? (String.utf8EncodeChar c ++ rest) = some c := by
  obtain ⟨n, hvalid, rfl⟩ : ∃ n, n.isValidChar ∧ Char.ofNat n = c :=
    ⟨c.toNat, c.valid, Char.ofNat_toNat c⟩
  have hlt := hvalid
  unfold Nat.isValidChar at hlt
  rw [utf8EncodeChar_ofNat hvalid]
  split
  · have hlead := Lead.of?_one (n := n) (by omega)
    rw [List.singleton_append, head?_cons hlead (by rw [continuations_zero]; rfl),
      continuations_zero, List.foldl_nil]
  split
  · have hlead := Lead.of?_two (n := n / 64 % 32 + 192) (by omega) (by omega)
    have hrun := continuations_tail 0 n rest
    rw [continuations_zero] at hrun
    rw [List.cons_append, List.singleton_append, head?_cons hlead (by rw [hrun]; rfl), hrun]
    simp only [List.foldl_cons, List.foldl_nil, toNat_tail]
    refine congrArg (fun n => some (Char.ofNat n)) ?_
    omega
  split
  · have hlead := Lead.of?_three (n := n / 4096 % 16 + 224) (by omega) (by omega)
    generalize hlow : (if n / 4096 % 16 + 224 = 0xE0 then 0xA0 else 0x80 : UInt8) = low at hlead
    generalize hhigh : (if n / 4096 % 16 + 224 = 0xED then 0x9F else 0xBF : UInt8) = high at hlead
    have hrun : continuations 2 low high
        (UInt8.ofNat (n / 64 % 64 + 128) :: UInt8.ofNat (n % 64 + 128) :: rest) =
        [UInt8.ofNat (n / 64 % 64 + 128), UInt8.ofNat (n % 64 + 128)] := by
      rw [continuations_cons ?_ ?_, continuations_tail, continuations_zero]
      · rw [← hlow, apply_ite UInt8.toNat, toNat_tail]
        simp only [UInt8.reduceToNat]
        split <;> omega
      · rw [← hhigh, apply_ite UInt8.toNat, toNat_tail]
        simp only [UInt8.reduceToNat]
        split <;> omega
    rw [List.cons_append, List.cons_append, List.singleton_append,
      head?_cons hlead (by rw [hrun]; rfl), hrun]
    simp only [List.foldl_cons, List.foldl_nil, toNat_tail]
    refine congrArg (fun n => some (Char.ofNat n)) ?_
    omega
  · have hlead := Lead.of?_four (n := n / 262144 % 8 + 240) (by omega) (by omega)
    generalize hlow : (if n / 262144 % 8 + 240 = 0xF0 then 0x90 else 0x80 : UInt8) = low at hlead
    generalize hhigh : (if n / 262144 % 8 + 240 = 0xF4 then 0x8F else 0xBF : UInt8) = high at hlead
    have hrun : continuations 3 low high (UInt8.ofNat (n / 4096 % 64 + 128) ::
        UInt8.ofNat (n / 64 % 64 + 128) :: UInt8.ofNat (n % 64 + 128) :: rest) =
        [UInt8.ofNat (n / 4096 % 64 + 128), UInt8.ofNat (n / 64 % 64 + 128),
          UInt8.ofNat (n % 64 + 128)] := by
      rw [continuations_cons ?_ ?_, continuations_tail, continuations_tail, continuations_zero]
      · rw [← hlow, apply_ite UInt8.toNat, toNat_tail]
        simp only [UInt8.reduceToNat]
        split <;> omega
      · rw [← hhigh, apply_ite UInt8.toNat, toNat_tail]
        simp only [UInt8.reduceToNat]
        split <;> omega
    rw [List.cons_append, List.cons_append, List.cons_append, List.singleton_append,
      head?_cons hlead (by rw [hrun]; rfl), hrun]
    simp only [List.foldl_cons, List.foldl_nil, toNat_tail]
    refine congrArg (fun n => some (Char.ofNat n)) ?_
    omega

/-! ### Whole sources -/

/-- The bytes that a glyph was read from. -/
def bytes : Glyph → List UInt8
  | .char c => String.utf8EncodeChar c
  | .byte b => [b]

theorem length_bytes (g : Glyph) : g.bytes.length = g.width := by
  cases g with
  | char c => exact String.length_utf8EncodeChar c
  | byte b => rfl

theorem length_flatMap_bytes (glyphs : List Glyph) :
    (glyphs.flatMap bytes).length = widths glyphs := by
  induction glyphs with
  | nil => rfl
  | cons g rest ih => rw [List.flatMap_cons, List.length_append, length_bytes, ih, widths]

theorem ofBytesAfter_eq (skip : Nat) (source : List UInt8) :
    ofBytesAfter skip source = ofBytes (source.drop skip) := by
  induction source generalizing skip with
  | nil =>
    rw [List.drop_nil]
    cases skip <;> rfl
  | cons a rest ih =>
    cases skip with
    | zero => rfl
    | succ skip => exact ih skip

theorem ofBytes_char {a : UInt8} {rest : List UInt8} {c : Char} (h : head? (a :: rest) = some c) :
    ofBytes (a :: rest) = .char c :: ofBytes ((a :: rest).drop c.utf8Size) := by
  have hsize : c.utf8Size - 1 + 1 = c.utf8Size := Nat.sub_add_cancel c.utf8Size_pos
  rw [ofBytes, ofBytesAfter, h]
  change Glyph.char c :: ofBytesAfter (c.utf8Size - 1) rest = _
  rw [ofBytesAfter_eq, ← hsize, List.drop_succ_cons, hsize]

theorem ofBytes_byte {a : UInt8} {rest : List UInt8} (h : head? (a :: rest) = none) :
    ofBytes (a :: rest) = .byte a :: ofBytes rest := by
  rw [ofBytes, ofBytesAfter, h]
  rfl

/-- The byte of a line break stands for a line break and is part of nothing else. -/
theorem mem_utf8EncodeChar {ch : Char} : 0x0A ∈ String.utf8EncodeChar ch ↔ ch = '\n' := by
  obtain ⟨n, hvalid, rfl⟩ : ∃ n, n.isValidChar ∧ Char.ofNat n = ch :=
    ⟨ch.toNat, ch.valid, Char.ofNat_toNat ch⟩
  have hchar : Char.ofNat n = '\n' ↔ n = 10 := by
    refine ⟨fun h => ?_, fun h => h ▸ rfl⟩
    have htoNat : (Char.ofNat n).toNat = n := by
      rw [Char.ofNat, dif_pos hvalid]
      rfl
    rw [← htoNat, h]
    rfl
  have hbyte {m : Nat} (hm : m < 256) : 0x0A = UInt8.ofNat m ↔ m = 10 := by
    rw [← UInt8.toNat_inj, toNat_ofNat_lt hm]
    exact eq_comm
  have hbound := hvalid
  unfold Nat.isValidChar at hbound
  rw [utf8EncodeChar_ofNat hvalid, hchar]
  split
  · rw [List.mem_singleton, hbyte (by omega)]
  split
  · simp only [List.mem_cons, List.not_mem_nil, or_false]
    rw [hbyte (by omega), hbyte (by omega)]
    omega
  split
  · simp only [List.mem_cons, List.not_mem_nil, or_false]
    rw [hbyte (by omega), hbyte (by omega), hbyte (by omega)]
    omega
  · simp only [List.mem_cons, List.not_mem_nil, or_false]
    rw [hbyte (by omega), hbyte (by omega), hbyte (by omega), hbyte (by omega)]
    omega

theorem contains_flatMap_bytes {glyphs : List Glyph} (h : ∀ g ∈ glyphs, ∃ ch, g = .char ch) :
    (glyphs.flatMap bytes).contains 0x0A = glyphs.contains (.char '\n') := by
  rw [Bool.eq_iff_iff, List.contains_iff_mem, List.contains_iff_mem, List.mem_flatMap]
  constructor
  · rintro ⟨g, hg, hbyte⟩
    obtain ⟨ch, rfl⟩ := h g hg
    rwa [← mem_utf8EncodeChar.1 hbyte]
  · exact fun hmem => ⟨_, hmem, mem_utf8EncodeChar.2 rfl⟩

/-- No byte of a source is lost, and none is made up. -/
theorem flatMap_bytes_ofBytes (source : List UInt8) : (ofBytes source).flatMap bytes = source := by
  induction hn : source.length using Nat.strongRecOn generalizing source with
  | ind n ih =>
    cases source with
    | nil => rfl
    | cons a rest =>
      cases hhead : head? (a :: rest) with
      | none =>
        rw [ofBytes_byte hhead, List.flatMap_cons, ih rest.length (by rw [← hn]; simp) rest rfl]
        rfl
      | some c =>
        obtain ⟨tail, htail⟩ := encode_of_head? hhead
        have hlength := String.length_utf8EncodeChar c
        have hdrop : (a :: rest).drop c.utf8Size = tail := by
          rw [← htail, ← hlength, List.drop_left]
        have hlt : tail.length < n := by
          have := c.utf8Size_pos
          rw [← hn, ← htail, List.length_append]
          omega
        rw [ofBytes_char hhead, List.flatMap_cons, hdrop, ih _ hlt tail rfl, ← htail]
        rfl

theorem widths_ofBytes (source : List UInt8) : widths (ofBytes source) = source.length := by
  rw [← length_flatMap_bytes, flatMap_bytes_ofBytes]

theorem ofBytes_encode (c : Char) (rest : List UInt8) :
    ofBytes (String.utf8EncodeChar c ++ rest) = .char c :: ofBytes rest := by
  have hhead := head?_encode c rest
  have hlength := String.length_utf8EncodeChar c
  have hdrop : (String.utf8EncodeChar c ++ rest).drop c.utf8Size = rest := by
    rw [← hlength, List.drop_left]
  cases hbytes : String.utf8EncodeChar c ++ rest with
  | nil =>
    rw [hbytes] at hhead
    cases hhead
  | cons a tail =>
    rw [hbytes] at hhead hdrop
    rw [ofBytes_char hhead, hdrop]

/-- The bytes of a text are those of its characters. -/
theorem toUTF8_toList (text : String) :
    text.toUTF8.data.toList = text.toList.flatMap String.utf8EncodeChar := by
  change text.toByteArray.data.toList = _
  rw [← String.utf8Encode_toList, List.utf8Encode, List.data_toByteArray, List.toList_toArray]

/-- The glyphs of an encoded text are its characters. -/
theorem ofBytes_toUTF8 (text : String) : ofBytes text.toUTF8.data.toList = ofText text := by
  rw [toUTF8_toList, ofText]
  induction text.toList with
  | nil => rfl
  | cons c rest ih => rw [List.flatMap_cons, ofBytes_encode, ih, List.map_cons]

theorem widths_ofText (text : String) : widths (ofText text) = text.utf8ByteSize := by
  rw [← ofBytes_toUTF8, widths_ofBytes]
  rfl

/-- A line break goes on with no character. -/
theorem continuations_break {owed : Nat} {low high : UInt8} (hlow : 0x0A < low.toNat)
    (bytes rest : List UInt8) :
    continuations owed low high (bytes ++ 0x0A :: rest) = continuations owed low high bytes := by
  induction bytes generalizing owed low high with
  | nil =>
    cases owed with
    | zero => rfl
    | succ owed =>
      rw [List.nil_append, continuations]
      refine if_neg fun hb => ?_
      have : low.toNat ≤ 0x0A := UInt8.le_iff_toNat_le.1 hb.1
      omega
  | cons b bytes ih =>
    cases owed with
    | zero => rfl
    | succ owed =>
      rw [List.cons_append, continuations, continuations, ih (by decide)]

theorem head?_break {a : UInt8} (bytes rest : List UInt8) :
    head? (a :: (bytes ++ 0x0A :: rest)) = head? (a :: bytes) := by
  rw [head?, head?]
  cases hlead : Lead.of? a with
  | none => rfl
  | some lead =>
    obtain ⟨-, howed, -⟩ | ⟨hlow, -⟩ := Lead.cases hlead
    · dsimp only
      rw [howed, continuations_zero, continuations_zero]
    · dsimp only
      rw [continuations_break (by omega)]

/-- A line break stands for itself, whatever is broken off before it. -/
theorem ofBytes_break (bytes rest : List UInt8) :
    ofBytes (bytes ++ 0x0A :: rest) = ofBytes bytes ++ .char '\n' :: ofBytes rest := by
  induction hn : bytes.length using Nat.strongRecOn generalizing bytes with
  | ind n ih =>
    cases bytes with
    | nil =>
      have hhead : head? (0x0A :: rest) = some '\n' := by
        have := head?_encode '\n' rest
        rwa [show String.utf8EncodeChar '\n' = [0x0A] by decide] at this
      exact ofBytes_char hhead
    | cons a bytes =>
      have hhead := head?_break (a := a) bytes rest
      cases hchar : head? (a :: bytes) with
      | none =>
        rw [List.cons_append, ofBytes_byte (hhead.trans hchar), ofBytes_byte hchar,
          ih bytes.length (by rw [← hn]; simp) bytes rfl, List.cons_append]
      | some c =>
        obtain ⟨tail, htail⟩ := encode_of_head? hchar
        have hsize := String.length_utf8EncodeChar c
        have hdrop (more : List UInt8) :
            (String.utf8EncodeChar c ++ more).drop c.utf8Size = more := by
          rw [← hsize, List.drop_left]
        have hlt : tail.length < n := by
          have := c.utf8Size_pos
          rw [← hn, ← htail, List.length_append]
          omega
        rw [List.cons_append, ofBytes_char (hhead.trans hchar), ofBytes_char hchar,
          ← List.cons_append, ← htail, List.append_assoc, hdrop, hdrop, ih _ hlt tail rfl,
          List.cons_append]

end Glyph

end TemplateScript
