import Mathlib.Tactic

/-! # UTF-8 and UTF-16

* `utf8`: the bytes of a text; `String.utf8EncodeChar` is the encoding of a character.
* `utf16`: its units; a character beyond the first plane has two of them.
* `utf8EncodeChar_two` and so on: the bytes of a character by its size; `exists_char_two` and so
  on: which bytes are those of a character.
* `utf16_injective`: no two texts have the same units.
-/

namespace Unicode

/-- The bytes of a text. -/
def utf8 (text : List Char) : List UInt8 := text.flatMap String.utf8EncodeChar

/-- The units of a character. -/
def utf16Char (c : Char) : List Nat :=
  if c.toNat < 0x10000 then [c.toNat]
  else [0xD800 + (c.toNat - 0x10000) / 0x400, 0xDC00 + (c.toNat - 0x10000) % 0x400]

/-- The units of a text. -/
def utf16 (text : List Char) : List Nat := text.flatMap utf16Char

@[simp] theorem utf8_nil : utf8 [] = [] := rfl

@[simp] theorem utf8_cons (c : Char) (text : List Char) :
    utf8 (c :: text) = String.utf8EncodeChar c ++ utf8 text := List.flatMap_cons

@[simp] theorem utf16_nil : utf16 [] = [] := rfl

@[simp] theorem utf16_cons (c : Char) (text : List Char) :
    utf16 (c :: text) = utf16Char c ++ utf16 text := List.flatMap_cons

/-! ## Characters of each size -/

theorem isValidChar (c : Char) : c.toNat < 0xD800 ∨ 0xDFFF < c.toNat ∧ c.toNat < 0x110000 :=
  c.valid

section Encode

variable {c : Char}

theorem utf8EncodeChar_one (h : c.toNat < 0x80) :
    String.utf8EncodeChar c = [.ofNat c.toNat] := by
  have hle : c.val.toNat ≤ 0x7f := Nat.le_of_lt_succ h
  unfold String.utf8EncodeChar
  exact if_pos hle

theorem utf8EncodeChar_two (h : 0x80 ≤ c.toNat) (h' : c.toNat < 0x800) :
    String.utf8EncodeChar c = [.ofNat (c.toNat / 64 % 32 + 0xc0), .ofNat (c.toNat % 64 + 0x80)] := by
  have hlt : ¬c.val.toNat ≤ 0x7f := Nat.not_le.2 h
  have hle : c.val.toNat ≤ 0x7ff := Nat.le_of_lt_succ h'
  unfold String.utf8EncodeChar
  exact (if_neg hlt).trans (if_pos hle)

theorem utf8EncodeChar_three (h : 0x800 ≤ c.toNat) (h' : c.toNat < 0x10000) :
    String.utf8EncodeChar c = [.ofNat (c.toNat / 4096 % 16 + 0xe0),
      .ofNat (c.toNat / 64 % 64 + 0x80), .ofNat (c.toNat % 64 + 0x80)] := by
  have h1 : ¬c.val.toNat ≤ 0x7f := Nat.not_le.2 (le_trans (by norm_num) h)
  have h2 : ¬c.val.toNat ≤ 0x7ff := Nat.not_le.2 h
  have hle : c.val.toNat ≤ 0xffff := Nat.le_of_lt_succ h'
  unfold String.utf8EncodeChar
  exact (if_neg h1).trans ((if_neg h2).trans (if_pos hle))

theorem utf8EncodeChar_four (h : 0x10000 ≤ c.toNat) :
    String.utf8EncodeChar c = [.ofNat (c.toNat / 262144 % 8 + 0xf0),
      .ofNat (c.toNat / 4096 % 64 + 0x80), .ofNat (c.toNat / 64 % 64 + 0x80),
      .ofNat (c.toNat % 64 + 0x80)] := by
  have h1 : ¬c.val.toNat ≤ 0x7f := Nat.not_le.2 (le_trans (by norm_num) h)
  have h2 : ¬c.val.toNat ≤ 0x7ff := Nat.not_le.2 (le_trans (by norm_num) h)
  have h3 : ¬c.val.toNat ≤ 0xffff := Nat.not_le.2 h
  unfold String.utf8EncodeChar
  exact (if_neg h1).trans ((if_neg h2).trans (if_neg h3))

end Encode

/-- A number that is a character's. -/
theorem exists_char {v : Nat} (h : v < 0xD800 ∨ 0xDFFF < v ∧ v < 0x110000) :
    ∃ c : Char, c.toNat = v := by
  refine ⟨Char.ofNatAux v h, ?_⟩
  change (BitVec.ofNatLT v _).toNat = v
  exact BitVec.toNat_ofNatLT ..

theorem ofNat_eq {b : UInt8} {n : Nat} (h : n = b.toNat) : UInt8.ofNat n = b := by
  rw [h, UInt8.ofNat_toNat]

section Decode

variable {b0 b1 b2 b3 : UInt8}

theorem exists_char_one (h0 : b0.toNat < 0x80) :
    ∃ c : Char, c.toNat = b0.toNat ∧ String.utf8EncodeChar c = [b0] := by
  obtain ⟨c, hc⟩ := exists_char (v := b0.toNat) (by omega)
  exact ⟨c, hc, by rw [utf8EncodeChar_one (by omega), ofNat_eq hc]⟩

theorem exists_char_two (h0 : 0xc2 ≤ b0.toNat ∧ b0.toNat < 0xe0)
    (h1 : 0x80 ≤ b1.toNat ∧ b1.toNat < 0xc0) :
    ∃ c : Char, c.toNat = b0.toNat % 32 * 64 + b1.toNat % 64 ∧
      String.utf8EncodeChar c = [b0, b1] := by
  obtain ⟨c, hc⟩ := exists_char (v := b0.toNat % 32 * 64 + b1.toNat % 64) (by omega)
  refine ⟨c, hc, ?_⟩
  rw [utf8EncodeChar_two (by omega) (by omega), ofNat_eq (b := b0) (by omega),
    ofNat_eq (b := b1) (by omega)]

theorem exists_char_three (h0 : 0xe0 ≤ b0.toNat ∧ b0.toNat < 0xf0)
    (h1 : 0x80 ≤ b1.toNat ∧ b1.toNat < 0xc0) (h2 : 0x80 ≤ b2.toNat ∧ b2.toNat < 0xc0)
    (hlong : b0.toNat = 0xe0 → 0xa0 ≤ b1.toNat) (hsurrogate : b0.toNat = 0xed → b1.toNat < 0xa0) :
    ∃ c : Char, c.toNat = b0.toNat % 16 * 4096 + b1.toNat % 64 * 64 + b2.toNat % 64 ∧
      c.toNat < 0x10000 ∧ String.utf8EncodeChar c = [b0, b1, b2] := by
  obtain ⟨c, hc⟩ := exists_char
    (v := b0.toNat % 16 * 4096 + b1.toNat % 64 * 64 + b2.toNat % 64) (by omega)
  refine ⟨c, hc, by omega, ?_⟩
  rw [utf8EncodeChar_three (by omega) (by omega), ofNat_eq (b := b0) (by omega),
    ofNat_eq (b := b1) (by omega), ofNat_eq (b := b2) (by omega)]

theorem exists_char_four (h0 : 0xf0 ≤ b0.toNat ∧ b0.toNat ≤ 0xf4)
    (h1 : 0x80 ≤ b1.toNat ∧ b1.toNat < 0xc0) (h2 : 0x80 ≤ b2.toNat ∧ b2.toNat < 0xc0)
    (h3 : 0x80 ≤ b3.toNat ∧ b3.toNat < 0xc0) (hlong : b0.toNat = 0xf0 → 0x90 ≤ b1.toNat)
    (hlast : b0.toNat = 0xf4 → b1.toNat < 0x90) :
    ∃ c : Char, c.toNat = b0.toNat % 8 * 262144 + b1.toNat % 64 * 4096 + b2.toNat % 64 * 64 +
      b3.toNat % 64 ∧ 0x10000 ≤ c.toNat ∧ String.utf8EncodeChar c = [b0, b1, b2, b3] := by
  obtain ⟨c, hc⟩ := exists_char (v := b0.toNat % 8 * 262144 + b1.toNat % 64 * 4096 +
    b2.toNat % 64 * 64 + b3.toNat % 64) (by omega)
  refine ⟨c, hc, by omega, ?_⟩
  rw [utf8EncodeChar_four (by omega), ofNat_eq (b := b0) (by omega), ofNat_eq (b := b1) (by omega),
    ofNat_eq (b := b2) (by omega), ofNat_eq (b := b3) (by omega)]

end Decode

theorem utf8EncodeChar_ne_nil (c : Char) : String.utf8EncodeChar c ≠ [] := by
  unfold String.utf8EncodeChar
  dsimp only
  split_ifs <;> exact List.cons_ne_nil _ _

/-- Only the first character has a byte that is 0. -/
theorem zero_notMem_utf8EncodeChar {c : Char} (h : c.toNat ≠ 0) :
    0 ∉ String.utf8EncodeChar c := by
  have hne : ∀ {n : Nat}, 0 < n → n < 256 → (0 : UInt8) ≠ .ofNat n := by
    intro n hpos hlt heq
    have h := congrArg UInt8.toNat heq
    rw [UInt8.toNat_ofNat', UInt8.toNat_zero, Nat.mod_eq_of_lt hlt] at h
    exact hpos.ne h
  by_cases h1 : c.toNat < 0x80
  · rw [utf8EncodeChar_one h1, List.mem_singleton]
    exact hne (by omega) (by omega)
  by_cases h2 : c.toNat < 0x800
  · rw [utf8EncodeChar_two (by omega) h2]
    simp only [List.mem_cons, List.not_mem_nil, or_false, not_or]
    exact ⟨hne (by omega) (by omega), hne (by omega) (by omega)⟩
  by_cases h3 : c.toNat < 0x10000
  · rw [utf8EncodeChar_three (by omega) h3]
    simp only [List.mem_cons, List.not_mem_nil, or_false, not_or]
    exact ⟨hne (by omega) (by omega), hne (by omega) (by omega), hne (by omega) (by omega)⟩
  · rw [utf8EncodeChar_four (by omega)]
    simp only [List.mem_cons, List.not_mem_nil, or_false, not_or]
    exact ⟨hne (by omega) (by omega), hne (by omega) (by omega), hne (by omega) (by omega),
      hne (by omega) (by omega)⟩

/-! ## Units -/

theorem toNat_injective {c d : Char} (h : c.toNat = d.toNat) : c = d :=
  Char.ext (UInt32.toNat_inj.1 h)

/-- A text begins with the character that its units begin with. -/
theorem utf16Char_append_inj {c d : Char} {l l' : List Nat}
    (h : utf16Char c ++ l = utf16Char d ++ l') : c = d ∧ l = l' := by
  have hc := isValidChar c
  have hd := isValidChar d
  unfold utf16Char at h
  split_ifs at h with h1 h2 h2
  · simp only [List.cons_append, List.nil_append, List.cons.injEq] at h
    exact ⟨toNat_injective h.1, h.2⟩
  · simp only [List.cons_append, List.nil_append, List.cons.injEq] at h
    exact absurd h.1 (by omega)
  · simp only [List.cons_append, List.nil_append, List.cons.injEq] at h
    exact absurd h.1 (by omega)
  · simp only [List.cons_append, List.nil_append, List.cons.injEq] at h
    exact ⟨toNat_injective (by omega), h.2.2⟩

theorem utf16Char_ne_nil (c : Char) : utf16Char c ≠ [] := by
  unfold utf16Char
  split_ifs <;> exact List.cons_ne_nil _ _

theorem utf16_injective {text text' : List Char} (h : utf16 text = utf16 text') : text = text' := by
  induction text generalizing text' with
  | nil =>
    cases text' with
    | nil => rfl
    | cons d text' => exact absurd (List.append_eq_nil_iff.1 h.symm).1 (utf16Char_ne_nil d)
  | cons c text ih =>
    cases text' with
    | nil => exact absurd (List.append_eq_nil_iff.1 h).1 (utf16Char_ne_nil c)
    | cons d text' =>
      obtain ⟨rfl, hrest⟩ := utf16Char_append_inj h
      rw [ih hrest]

end Unicode
