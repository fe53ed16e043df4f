import CvCuda.Cvcuda.SplitUtf8

/-! # Text decoding accepts UTF-8

* `turn_encode`: a turn takes the bytes of a character to its units.
* `turn_next`: whatever a turn takes is the bytes of a character.
* `turn_ne_none`: it stops at the terminator.
* `splitUtf8_utf8`, `splitUtf8_eq_nil`: the units of a text, and nothing for other bytes.
-/

namespace Cvcuda.SplitUtf8

open Unicode

/-! ## Bits -/

section Bits

variable {b : Nat}

theorem and_80 (h : b < 256) : b &&& 0x80 = 0 ↔ b < 0x80 := by
  revert b
  decide +kernel

theorem and_e0 (h : b < 256) : b &&& 0xe0 = 0xc0 ↔ 0xc0 ≤ b ∧ b < 0xe0 := by
  revert b
  decide +kernel

theorem and_f0 (h : b < 256) : b &&& 0xf0 = 0xe0 ↔ 0xe0 ≤ b ∧ b < 0xf0 := by
  revert b
  decide +kernel

theorem and_f8 (h : b < 256) : b &&& 0xf8 = 0xf0 ↔ 0xf0 ≤ b ∧ b < 0xf8 := by
  revert b
  decide +kernel

theorem and_c0 (h : b < 256) : b &&& 0xc0 = 0x80 ↔ 0x80 ≤ b ∧ b < 0xc0 := by
  revert b
  decide +kernel

theorem and_07 (b : Nat) : b &&& 0x07 = b % 8 := Nat.and_two_pow_sub_one_eq_mod b 3

theorem and_0f (b : Nat) : b &&& 0x0f = b % 16 := Nat.and_two_pow_sub_one_eq_mod b 4

theorem and_1f (b : Nat) : b &&& 0x1f = b % 32 := Nat.and_two_pow_sub_one_eq_mod b 5

theorem and_3f (b : Nat) : b &&& 0x3f = b % 64 := Nat.and_two_pow_sub_one_eq_mod b 6

theorem and_3ff (b : Nat) : 0x3ff &&& b = b % 1024 := by
  rw [Nat.and_comm]
  exact Nat.and_two_pow_sub_one_eq_mod b 10

/-- The units of a pair. -/
theorem or_d800 (h : b < 1024) : 0xD800 ||| b = 0xD800 + b :=
  (Nat.two_pow_add_eq_or_of_lt (i := 10) h 54).symm

theorem or_dc00 (h : b < 1024) : 0xDC00 ||| b = 0xDC00 + b :=
  (Nat.two_pow_add_eq_or_of_lt (i := 10) h 55).symm

/-- What four bytes stand for is no surrogate. -/
theorem and_fffff800_ne (h : 0x10000 ≤ b) (h' : b < 2 ^ 32) : b &&& 0xFFFFF800 ≠ 0xD800 := by
  intro heq
  have hshift := congrArg (· >>> 11) heq
  rw [Nat.shiftRight_and_distrib, show 0xFFFFF800 >>> 11 = 2 ^ 21 - 1 by rfl,
    Nat.and_two_pow_sub_one_eq_mod, Nat.shiftRight_eq_div_pow] at hshift
  omega

end Bits

/-! ## A turn -/

@[simp] theorem byte_cons_zero (b : UInt8) (str : List UInt8) : byte (b :: str) 0 = some b.toNat :=
  rfl

@[simp] theorem byte_cons_succ (b : UInt8) (str : List UInt8) (i : Nat) :
    byte (b :: str) (i + 1) = byte str i := rfl

section Turn

variable {b0 b1 b2 b3 : UInt8} {str : List UInt8}

theorem toNat_lt (b : UInt8) : b.toNat < 256 := b.toNat_lt

theorem turn_one (h0 : b0.toNat < 0x80) : turn (b0 :: str) = some (.next [b0.toNat] str) := by
  unfold turn
  simp only [byte_cons_zero, Option.bind_eq_bind, Option.bind_some, and_80 (toNat_lt b0)]
  rw [if_pos h0]
  rfl

theorem turn_two (h0 : 0xc2 ≤ b0.toNat ∧ b0.toNat < 0xe0) (h1 : 0x80 ≤ b1.toNat ∧ b1.toNat < 0xc0) :
    turn (b0 :: b1 :: str) = some (.next [b0.toNat % 32 * 64 + b1.toNat % 64] str) := by
  unfold turn
  simp only [byte_cons_zero, byte_cons_succ, Option.bind_eq_bind, Option.bind_some,
    and_80 (toNat_lt b0), and_e0 (toNat_lt b0), and_c0 (toNat_lt b1), ne_eq, and_1f, and_3f,
    Nat.shiftLeft_eq]
  rw [if_neg (by omega), if_pos (by omega), if_neg (by omega), if_neg (by omega)]
  rfl

theorem turn_three (h0 : 0xe0 ≤ b0.toNat ∧ b0.toNat < 0xf0)
    (h1 : 0x80 ≤ b1.toNat ∧ b1.toNat < 0xc0) (h2 : 0x80 ≤ b2.toNat ∧ b2.toNat < 0xc0)
    (hlong : b0.toNat = 0xe0 → 0xa0 ≤ b1.toNat) (hsurrogate : b0.toNat = 0xed → b1.toNat < 0xa0) :
    turn (b0 :: b1 :: b2 :: str) =
      some (.next [b0.toNat % 16 * 4096 + b1.toNat % 64 * 64 + b2.toNat % 64] str) := by
  unfold turn
  simp only [byte_cons_zero, byte_cons_succ, Option.bind_eq_bind, Option.bind_some,
    and_80 (toNat_lt b0), and_e0 (toNat_lt b0), and_f0 (toNat_lt b0), and_c0 (toNat_lt b1),
    and_c0 (toNat_lt b2), ne_eq, and_0f, and_3f, Nat.shiftLeft_eq]
  rw [if_neg (by omega), if_neg (by omega), if_pos (by omega), if_neg (by omega),
    if_neg (by omega), if_neg (by omega), if_neg (by omega)]
  rfl

theorem turn_four (h0 : 0xf0 ≤ b0.toNat ∧ b0.toNat ≤ 0xf4)
    (h1 : 0x80 ≤ b1.toNat ∧ b1.toNat < 0xc0) (h2 : 0x80 ≤ b2.toNat ∧ b2.toNat < 0xc0)
    (h3 : 0x80 ≤ b3.toNat ∧ b3.toNat < 0xc0) (hlong : b0.toNat = 0xf0 → 0x90 ≤ b1.toNat)
    (hlast : b0.toNat = 0xf4 → b1.toNat < 0x90) {c : Nat}
    (hc : b0.toNat % 8 * 262144 + b1.toNat % 64 * 4096 + b2.toNat % 64 * 64 + b3.toNat % 64 = c) :
    turn (b0 :: b1 :: b2 :: b3 :: str) = some (.next [0xD800 + (c - 0x10000) / 1024,
      0xDC00 + (c - 0x10000) % 1024] str) := by
  unfold turn
  simp only [byte_cons_zero, byte_cons_succ, Option.bind_eq_bind, Option.bind_some,
    and_80 (toNat_lt b0), and_e0 (toNat_lt b0), and_f0 (toNat_lt b0), and_f8 (toNat_lt b0),
    and_c0 (toNat_lt b1), and_c0 (toNat_lt b2), and_c0 (toNat_lt b3), ne_eq, and_07, and_3f,
    Nat.shiftLeft_eq]
  rw [if_neg (by omega), if_neg (by omega), if_neg (by omega), if_pos (by omega),
    if_neg (by omega), if_neg (by omega), if_neg (by omega), if_neg (by omega), if_neg (by omega),
    if_neg (by omega)]
  rw [show b0.toNat % 8 * 2 ^ 18 + b1.toNat % 64 * 2 ^ 12 + b2.toNat % 64 * 2 ^ 6 +
    b3.toNat % 64 = c from hc]
  have hle : 0x10000 ≤ c := by omega
  have hlt : c < 0x110000 := by omega
  rw [if_neg (and_fffff800_ne hle (by omega)), if_pos hle, and_3ff, and_3ff, or_d800 (by omega),
    or_dc00 (by omega), Nat.shiftRight_eq_div_pow, Nat.mod_eq_of_lt (by omega)]
  rfl

end Turn

/-- A turn takes the bytes of a character to its units. -/
theorem turn_encode (c : Char) (str : List UInt8) :
    turn (String.utf8EncodeChar c ++ str) = some (.next (utf16Char c) str) := by
  have hvalid := isValidChar c
  have hof : ∀ {n : Nat}, n < 256 → (UInt8.ofNat n).toNat = n := fun h => by
    rw [UInt8.toNat_ofNat', Nat.mod_eq_of_lt h]
  by_cases h1 : c.toNat < 0x80
  · rw [utf8EncodeChar_one h1, utf16Char, if_pos (by omega)]
    have hb := hof (n := c.toNat) (by omega)
    rw [List.singleton_append, turn_one (by omega), hb]
  by_cases h2 : c.toNat < 0x800
  · rw [utf8EncodeChar_two (by omega) h2, utf16Char, if_pos (by omega)]
    have hb0 := hof (n := c.toNat / 64 % 32 + 0xc0) (by omega)
    have hb1 := hof (n := c.toNat % 64 + 0x80) (by omega)
    rw [List.cons_append, List.singleton_append, turn_two (by omega) (by omega), hb0, hb1]
    congr 3
    omega
  by_cases h3 : c.toNat < 0x10000
  · rw [utf8EncodeChar_three (by omega) h3, utf16Char, if_pos h3]
    have hb0 := hof (n := c.toNat / 4096 % 16 + 0xe0) (by omega)
    have hb1 := hof (n := c.toNat / 64 % 64 + 0x80) (by omega)
    have hb2 := hof (n := c.toNat % 64 + 0x80) (by omega)
    rw [List.cons_append, List.cons_append, List.singleton_append, turn_three (by omega) (by omega)
      (by omega) (by omega) (by omega), hb0, hb1, hb2]
    congr 3
    omega
  · rw [utf8EncodeChar_four (by omega), utf16Char, if_neg h3]
    have hb0 := hof (n := c.toNat / 262144 % 8 + 0xf0) (by omega)
    have hb1 := hof (n := c.toNat / 4096 % 64 + 0x80) (by omega)
    have hb2 := hof (n := c.toNat / 64 % 64 + 0x80) (by omega)
    have hb3 := hof (n := c.toNat % 64 + 0x80) (by omega)
    exact turn_four (by omega) (by omega) (by omega) (by omega) (by omega) (by omega) (by omega)

theorem exists_cons {str : List UInt8} {b : Nat} (h : byte str 0 = some b) :
    ∃ b' str', str = b' :: str' ∧ b'.toNat = b := by
  cases str with
  | nil => cases h
  | cons b' str' => exact ⟨b', str', rfl, Option.some.inj h⟩

theorem of_ite_reject {p : Prop} [Decidable p] {o : Option Turn} {units : List Nat}
    {rest : List UInt8} (h : (if p then some .reject else o) = some (.next units rest)) :
    ¬p ∧ o = some (.next units rest) := by
  by_cases hp : p
  · rw [if_pos hp] at h
    cases h
  · exact ⟨hp, by rwa [if_neg hp] at h⟩

/-- A turn that takes something has read a character. -/
theorem exists_of_turn_next {str rest : List UInt8} {units : List Nat}
    (h : turn str = some (.next units rest)) :
    ∃ (c : Char) (rest' : List UInt8), str = String.utf8EncodeChar c ++ rest' := by
  unfold turn at h
  obtain ⟨_, h0, h⟩ := Option.bind_eq_some_iff.1 h
  obtain ⟨b0, str, rfl, rfl⟩ := exists_cons h0
  simp only [byte_cons_succ, Option.bind_eq_bind, and_80 (toNat_lt b0), and_e0 (toNat_lt b0),
    and_f0 (toNat_lt b0), and_f8 (toNat_lt b0)] at h
  by_cases h1 : b0.toNat < 0x80
  · obtain ⟨c, -, hc⟩ := exists_char_one h1
    exact ⟨c, str, by rw [hc]; rfl⟩
  rw [if_neg h1] at h
  by_cases h2 : 0xc0 ≤ b0.toNat ∧ b0.toNat < 0xe0
  · rw [if_pos h2] at h
    obtain ⟨hlow, h⟩ := of_ite_reject h
    obtain ⟨_, hb1, h⟩ := Option.bind_eq_some_iff.1 h
    obtain ⟨b1, str, rfl, rfl⟩ := exists_cons hb1
    obtain ⟨htail, -⟩ := of_ite_reject h
    obtain ⟨c, -, hc⟩ := @exists_char_two _ b1 ⟨not_lt.1 hlow, h2.2⟩
      ((and_c0 (toNat_lt b1)).1 (not_not.1 htail))
    exact ⟨c, str, by rw [hc]; rfl⟩
  rw [if_neg h2] at h
  by_cases h3 : 0xe0 ≤ b0.toNat ∧ b0.toNat < 0xf0
  · rw [if_pos h3] at h
    obtain ⟨_, hb1, h⟩ := Option.bind_eq_some_iff.1 h
    obtain ⟨b1, str, rfl, rfl⟩ := exists_cons hb1
    obtain ⟨hlong, h⟩ := of_ite_reject h
    obtain ⟨hsurrogate, h⟩ := of_ite_reject h
    obtain ⟨htail1, h⟩ := of_ite_reject h
    obtain ⟨_, hb2, h⟩ := Option.bind_eq_some_iff.1 h
    obtain ⟨b2, str, rfl, rfl⟩ := exists_cons hb2
    obtain ⟨htail2, -⟩ := of_ite_reject h
    obtain ⟨c, -, -, hc⟩ := exists_char_three h3 ((and_c0 (toNat_lt b1)).1 (not_not.1 htail1))
      ((and_c0 (toNat_lt b2)).1 (not_not.1 htail2)) (by omega) (by omega)
    exact ⟨c, str, by rw [hc]; rfl⟩
  rw [if_neg h3] at h
  by_cases h4 : 0xf0 ≤ b0.toNat ∧ b0.toNat < 0xf8
  · rw [if_pos h4] at h
    obtain ⟨hhigh, h⟩ := of_ite_reject h
    obtain ⟨_, hb1, h⟩ := Option.bind_eq_some_iff.1 h
    obtain ⟨b1, str, rfl, rfl⟩ := exists_cons hb1
    obtain ⟨hlong, h⟩ := of_ite_reject h
    obtain ⟨hlast, h⟩ := of_ite_reject h
    obtain ⟨htail1, h⟩ := of_ite_reject h
    obtain ⟨_, hb2, h⟩ := Option.bind_eq_some_iff.1 h
    obtain ⟨b2, str, rfl, rfl⟩ := exists_cons hb2
    obtain ⟨htail2, h⟩ := of_ite_reject h
    obtain ⟨_, hb3, h⟩ := Option.bind_eq_some_iff.1 h
    obtain ⟨b3, str, rfl, rfl⟩ := exists_cons hb3
    obtain ⟨htail3, -⟩ := of_ite_reject h
    obtain ⟨c, -, -, hc⟩ := exists_char_four ⟨h4.1, not_lt.1 hhigh⟩
      ((and_c0 (toNat_lt b1)).1 (not_not.1 htail1)) ((and_c0 (toNat_lt b2)).1 (not_not.1 htail2))
      ((and_c0 (toNat_lt b3)).1 (not_not.1 htail3)) (by omega) (by omega)
    exact ⟨c, str, by rw [hc]; rfl⟩
  rw [if_neg h4] at h
  cases h

/-- Whatever a turn takes is the bytes of a character. -/
theorem turn_next {str rest : List UInt8} {units : List Nat}
    (h : turn str = some (.next units rest)) :
    ∃ c : Char, str = String.utf8EncodeChar c ++ rest ∧ units = utf16Char c := by
  obtain ⟨c, rest', rfl⟩ := exists_of_turn_next h
  rw [turn_encode, Option.some.injEq, Turn.next.injEq] at h
  obtain ⟨rfl, rfl⟩ := h
  exact ⟨c, rfl, rfl⟩

/-- The terminator is read where a byte is missing, and no byte after it. -/
theorem exists_byte (text : List UInt8) : ∃ b, byte (text ++ [0]) 0 = some b ∧
    (b &&& 0xc0 = 0x80 → ∃ b' text', text = b' :: text') := by
  cases text with
  | nil => exact ⟨0, rfl, fun h => absurd h (by decide)⟩
  | cons b text => exact ⟨b.toNat, rfl, fun _ => ⟨b, text, rfl⟩⟩

theorem exists_ite {p : Prop} [Decidable p] {o o' : Option Turn} (h : p → ∃ t, o = some t)
    (h' : ¬p → ∃ t, o' = some t) : ∃ t, (if p then o else o') = some t := by
  by_cases hp : p
  · rw [if_pos hp]
    exact h hp
  · rw [if_neg hp]
    exact h' hp

theorem exists_ite_reject {p : Prop} [Decidable p] {o : Option Turn}
    (h : ¬p → ∃ t, o = some t) : ∃ t, (if p then some .reject else o) = some t :=
  exists_ite (fun _ => ⟨.reject, rfl⟩) h

/-- A turn stops at the terminator. -/
theorem turn_ne_none (b0 : UInt8) (text : List UInt8) :
    ∃ t, turn (b0 :: (text ++ [0])) = some t := by
  obtain ⟨b1, hb1, hnext1⟩ := exists_byte text
  unfold turn
  simp only [byte_cons_zero, byte_cons_succ, Option.bind_eq_bind, Option.bind_some, hb1]
  refine exists_ite (fun _ => ⟨_, rfl⟩) fun _ => exists_ite (fun _ => ?_) fun _ =>
    exists_ite (fun _ => ?_) fun _ => exists_ite (fun _ => ?_) fun _ => ⟨_, rfl⟩
  · exact exists_ite_reject fun _ => exists_ite_reject fun _ => ⟨_, rfl⟩
  · refine exists_ite_reject fun _ => exists_ite_reject fun _ => exists_ite_reject fun htail => ?_
    obtain ⟨_, text, rfl⟩ := hnext1 (not_not.1 htail)
    obtain ⟨b2, hb2, -⟩ := exists_byte text
    rw [List.cons_append, byte_cons_succ, hb2]
    exact exists_ite_reject fun _ => ⟨_, rfl⟩
  · refine exists_ite_reject fun _ => exists_ite_reject fun _ => exists_ite_reject fun _ =>
      exists_ite_reject fun htail => ?_
    obtain ⟨_, text, rfl⟩ := hnext1 (not_not.1 htail)
    obtain ⟨b2, hb2, hnext2⟩ := exists_byte text
    rw [List.cons_append, byte_cons_succ, hb2, Option.bind_some]
    refine exists_ite_reject fun htail2 => ?_
    obtain ⟨_, text, rfl⟩ := hnext2 (not_not.1 htail2)
    obtain ⟨b3, hb3, -⟩ := exists_byte text
    rw [List.cons_append, byte_cons_succ, byte_cons_succ, hb3, Option.bind_some]
    refine exists_ite_reject fun _ => exists_ite_reject fun _ => ?_
    exact exists_ite (fun _ => ⟨_, rfl⟩) fun _ => ⟨_, rfl⟩

/-! ## The loop -/

theorem loop_zero (fuel : Nat) (str : List UInt8) (output : List Nat) :
    loop (fuel + 1) (0 :: str) output = some output := rfl

theorem loop_reject {fuel : Nat} {b : UInt8} {str : List UInt8} (hb : b ≠ 0)
    (h : turn (b :: str) = some .reject) (output : List Nat) :
    loop (fuel + 1) (b :: str) output = some [] := by
  have hne : b.toNat ≠ 0 := fun h0 => hb (UInt8.toNat_inj.1 h0)
  rw [loop, byte_cons_zero, Option.bind_eq_bind, Option.bind_some, if_neg hne, h]
  rfl

theorem loop_next {fuel : Nat} {b : UInt8} {str rest : List UInt8} {units : List Nat} (hb : b ≠ 0)
    (h : turn (b :: str) = some (.next units rest)) (output : List Nat) :
    loop (fuel + 1) (b :: str) output = loop fuel rest (output ++ units) := by
  have hne : b.toNat ≠ 0 := fun h0 => hb (UInt8.toNat_inj.1 h0)
  rw [loop, byte_cons_zero, Option.bind_eq_bind, Option.bind_some, if_neg hne, h]
  rfl

/-- The bytes of a text before the terminator. -/
theorem loop_utf8 {cs : List Char} (hcs : 0 ∉ utf8 cs) {fuel : Nat}
    (hfuel : (utf8 cs).length < fuel) (output : List Nat) :
    loop fuel (utf8 cs ++ [0]) output = some (output ++ utf16 cs) := by
  induction cs generalizing fuel output with
  | nil =>
    cases fuel with
    | zero => exact absurd hfuel (Nat.not_lt_zero _)
    | succ fuel => exact (loop_zero fuel [] output).trans (by rw [utf16_nil, List.append_nil])
  | cons c cs ih =>
    rw [utf8_cons] at hcs hfuel ⊢
    have hturn := turn_encode c (utf8 cs ++ [0])
    obtain ⟨b, bytes, hbytes⟩ := List.exists_cons_of_ne_nil (utf8EncodeChar_ne_nil c)
    rw [hbytes] at hcs hfuel hturn ⊢
    obtain ⟨hb, hcs⟩ := not_or.1 (List.mem_cons.not.1 hcs)
    cases fuel with
    | zero => exact absurd hfuel (Nat.not_lt_zero _)
    | succ fuel =>
      rw [List.cons_append] at hturn
      rw [List.append_assoc, List.cons_append, loop_next (Ne.symm hb) hturn, ih (fun h => hcs (List.mem_append_right _ h)) ?_,
        List.append_assoc, utf16_cons]
      rw [List.cons_append, List.length_cons, List.length_append] at hfuel
      omega

/-- Other bytes before the terminator. -/
theorem loop_eq_nil {text : List UInt8} (h0 : 0 ∉ text) (htext : ∀ cs, text ≠ utf8 cs) {fuel : Nat}
    (hfuel : text.length < fuel) (output : List Nat) : loop fuel (text ++ [0]) output = some [] := by
  induction fuel generalizing text output with
  | zero => exact absurd hfuel (Nat.not_lt_zero _)
  | succ fuel ih =>
    cases text with
    | nil => exact absurd rfl (htext [])
    | cons b text =>
      obtain ⟨hb, h0'⟩ := not_or.1 (List.mem_cons.not.1 h0)
      obtain ⟨t, hturn⟩ := turn_ne_none b text
      cases t with
      | reject => exact loop_reject (Ne.symm hb) hturn output
      | next units rest =>
        obtain ⟨c, hstr, -⟩ := turn_next hturn
        -- the terminator is none of the character's bytes
        have hc : 0 ∉ String.utf8EncodeChar c := by
          refine zero_notMem_utf8EncodeChar fun hzero => hb ?_
          rw [utf8EncodeChar_one (by omega), hzero] at hstr
          exact (List.cons.inj hstr).1.symm
        obtain ⟨text', rfl, htext'⟩ : ∃ text', rest = text' ++ [0] ∧
            b :: text = String.utf8EncodeChar c ++ text' := by
          rcases List.append_eq_append_iff.1 (List.cons_append.trans hstr) with
            ⟨as, hc', hrest⟩ | ⟨bs, htext', hrest⟩
          · cases as with
            | nil => exact ⟨[], hrest.symm, by rw [hc', List.append_nil, List.append_nil]⟩
            | cons a as =>
              refine absurd ?_ hc
              rw [hc', (List.cons.inj hrest).1]
              exact List.mem_append_right _ List.mem_cons_self
          · exact ⟨bs, hrest, htext'⟩
        have hlen : 0 < (String.utf8EncodeChar c).length :=
          List.length_pos_of_ne_nil (utf8EncodeChar_ne_nil c)
        have hlen' := congrArg List.length htext'
        rw [List.length_append] at hlen'
        rw [List.cons_append, loop_next (Ne.symm hb) hturn]
        refine ih (fun h => h0 (htext' ▸ List.mem_append_right _ h)) (fun cs hcs => ?_) ?_ _
        · exact htext (c :: cs) (by rw [htext', hcs, utf8_cons])
        · omega

/-! ## `split_utf8` -/

/-- `split_utf8` stops at the terminator, gives the units of a text for its bytes and nothing for
any others, so that every text without NUL is given back. -/
theorem splitUtf8_spec :
    (∀ (text : CString) (cs : List Char), text.1 = utf8 cs → splitUtf8 text = some (utf16 cs)) ∧
      (∀ text : CString, (∀ cs, text.1 ≠ utf8 cs) → splitUtf8 text = some []) ∧
      ∀ cs : List Char, '\x00' ∉ cs → ∃ text : CString, text.1 = utf8 cs ∧
        ∀ cs', splitUtf8 text = some (utf16 cs') ↔ cs' = cs := by
  have hutf8 : ∀ (text : CString) (cs : List Char), text.1 = utf8 cs →
      splitUtf8 text = some (utf16 cs) := by
    rintro ⟨_, h0⟩ cs rfl
    exact loop_utf8 h0 (Nat.lt_succ_self _) []
  refine ⟨hutf8, fun text htext => loop_eq_nil text.2 htext (Nat.lt_succ_self _) [], ?_⟩
  intro cs hcs
  have h0 : 0 ∉ utf8 cs := by
    intro hmem
    obtain ⟨c, hc, hzero⟩ := List.mem_flatMap.1 hmem
    refine zero_notMem_utf8EncodeChar (fun hnat => hcs ?_) hzero
    have hnul : c = '\x00' := toNat_injective hnat
    exact hnul ▸ hc
  refine ⟨⟨utf8 cs, h0⟩, rfl, fun cs' => ?_⟩
  rw [hutf8 ⟨utf8 cs, h0⟩ cs rfl, Option.some.injEq]
  exact ⟨fun h => (utf16_injective h).symm, fun h => by rw [h]⟩

theorem splitUtf8_spec_pair : ∃ text : CString, text.1 = utf8 ['é', '😀'] ∧
    ∀ cs', splitUtf8 text = some (utf16 cs') ↔ cs' = ['é', '😀'] :=
  splitUtf8_spec.2.2 ['é', '😀'] (by decide)

/-- An overlong form, the bytes of a surrogate and a text that ends too early. -/
example : splitUtf8 ⟨[0x41, 0xc1, 0x81], by decide⟩ = some [] ∧
    splitUtf8 ⟨[0xed, 0xa0, 0x80], by decide⟩ = some [] ∧
    splitUtf8 ⟨[0xf0, 0x9f, 0x98], by decide⟩ = some [] ∧
    splitUtf8 ⟨[0xf0, 0x9f, 0x98, 0x80], by decide⟩ = some [0xd83d, 0xde00] := by
  decide +kernel

end Cvcuda.SplitUtf8
