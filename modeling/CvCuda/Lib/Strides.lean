import Mathlib.Tactic

/-! # Strided addressing

A multi-index into dimensions `ns` is a list of one index for each; with one stride for each
dimension its address is `address ss is`, the sum of the products.

* `Nested e ns ss`: every stride reaches over the dimension after it, and the last over an element
  of `e` bytes.
* `Nested.reach`: the elements lie within the first dimension's reach.
* `Nested.apart`: different elements are `e` bytes apart.
* `Spans e ds r`: a dimension of size 1 may have any stride, and every other strides over what the
  dimensions inside it reach; together they reach `r` (`Spans.reach`, `Spans.apart`).
-/

namespace Strides

/-- The address of a multi-index. -/
def address (ss is : List ℤ) : ℤ := (List.zipWith (· * ·) is ss).sum

/-- A multi-index within the dimensions. -/
def Within (ns is : List ℤ) : Prop := List.Forall₂ (fun i n => 0 ≤ i ∧ i < n) is ns

/-- Every stride reaches over the dimension after it. -/
inductive Nested (e : ℤ) : List ℤ → List ℤ → Prop
  | last (n : ℤ) : Nested e [n] [e]
  | cons (m : ℤ) {n s t : ℤ} {ns ss : List ℤ} (hs : n * s ≤ t) (h : Nested e (n :: ns) (s :: ss)) :
      Nested e (m :: n :: ns) (t :: s :: ss)

@[simp] theorem address_nil (ss : List ℤ) : address ss [] = 0 := rfl

@[simp] theorem address_cons (s : ℤ) (ss : List ℤ) (i : ℤ) (is : List ℤ) :
    address (s :: ss) (i :: is) = i * s + address ss is := by
  simp [address]

variable {e : ℤ} {ns ss is js : List ℤ}

/-- **Every element lies within the reach of the first dimension.** -/
theorem Nested.reach (h : Nested e ns ss) (he : 0 ≤ e) (hi : Within ns is) :
    0 ≤ ss.headD 0 ∧ 0 ≤ address ss is ∧ address ss is + e ≤ ns.headD 0 * ss.headD 0 := by
  induction h generalizing is with
  | last n =>
    cases hi with
    | @cons i _ _ _ hi hnil =>
      cases hnil
      simp only [address_cons, address_nil, add_zero, List.headD_cons]
      refine ⟨he, mul_nonneg hi.1 he, ?_⟩
      have := mul_le_mul_of_nonneg_right (show i + 1 ≤ n by omega) he
      linarith
  | @cons m n s t ns ss hle h ih =>
    cases hi with
    | @cons i _ is' _ hi his =>
      obtain ⟨-, h0, h1⟩ := ih his
      simp only [List.headD_cons] at h1
      simp only [address_cons, List.headD_cons]
      have ht : 0 ≤ t := by linarith
      refine ⟨ht, by linarith [mul_nonneg hi.1 ht], ?_⟩
      have := mul_le_mul_of_nonneg_right (show i + 1 ≤ m by omega) ht
      linarith

/-- **Different elements are an element apart.** -/
theorem Nested.apart (h : Nested e ns ss) (he : 0 ≤ e) (hi : Within ns is) (hj : Within ns js)
    (hne : is ≠ js) : address ss is + e ≤ address ss js ∨ address ss js + e ≤ address ss is := by
  induction h generalizing is js with
  | last m =>
    cases hi with
    | cons hi hnil =>
      cases hnil
      cases hj with
      | cons hj hnil =>
        cases hnil
        rename_i i j
        simp only [address_cons, address_nil, add_zero]
        rcases lt_trichotomy i j with hij | rfl | hij
        · have := mul_le_mul_of_nonneg_right (show i + 1 ≤ j by omega) he
          left
          linarith
        · exact absurd rfl hne
        · have := mul_le_mul_of_nonneg_right (show j + 1 ≤ i by omega) he
          right
          linarith
  | @cons m n s t ns ss hle h ih =>
    cases hi with
    | cons hi his =>
      cases hj with
      | cons hj hjs =>
        rename_i i is' j js'
        obtain ⟨-, hi0, hi1⟩ := h.reach he his
        obtain ⟨-, hj0, hj1⟩ := h.reach he hjs
        simp only [List.headD_cons] at hi1 hj1
        have ht : 0 ≤ t := by linarith
        rw [address_cons, address_cons]
        rcases lt_trichotomy i j with hij | rfl | hij
        · have := mul_le_mul_of_nonneg_right (show i + 1 ≤ j by omega) ht
          left
          linarith
        · rcases ih his hjs fun h => hne (by rw [h]) with h | h
          · left
            linarith
          · right
            linarith
        · have := mul_le_mul_of_nonneg_right (show j + 1 ≤ i by omega) ht
          right
          linarith

/-- Every dimension, except those of size 1, strides over what those inside it reach; `r` is what
all of them reach. -/
inductive Spans (e : ℤ) : List (ℤ × ℤ) → ℤ → Prop
  | nil : Spans e [] e
  | one (s : ℤ) {ds : List (ℤ × ℤ)} {r : ℤ} (h : Spans e ds r) : Spans e ((1, s) :: ds) r
  | cons (n : ℤ) {s r : ℤ} {ds : List (ℤ × ℤ)} (hs : r ≤ s) (h : Spans e ds r) :
      Spans e ((n, s) :: ds) (n * s)

variable {ds : List (ℤ × ℤ)} {r : ℤ}

/-- **Every element lies within the reach.** -/
theorem Spans.reach (h : Spans e ds r) (he : 0 ≤ e) (hi : Within (ds.map Prod.fst) is) :
    0 ≤ address (ds.map Prod.snd) is ∧ address (ds.map Prod.snd) is + e ≤ r := by
  induction h generalizing is with
  | nil =>
    cases hi
    exact ⟨le_rfl, by rw [List.map_nil, address_nil, zero_add]⟩
  | one s h ih =>
    cases hi with
    | @cons i _ is' _ hi his =>
      obtain rfl : i = 0 := by omega
      rw [List.map_cons, address_cons, zero_mul, zero_add]
      exact ih his
  | @cons n s r ds hs h ih =>
    cases hi with
    | @cons i _ is' _ hi his =>
      obtain ⟨h0, h1⟩ := ih his
      simp only [List.map_cons, address_cons]
      have hs0 : 0 ≤ s := by linarith
      refine ⟨add_nonneg (mul_nonneg hi.1 hs0) h0, ?_⟩
      have := mul_le_mul_of_nonneg_right (show i + 1 ≤ n by omega) hs0
      linarith

/-- **Different elements are an element apart.** -/
theorem Spans.apart (h : Spans e ds r) (he : 0 ≤ e) (hi : Within (ds.map Prod.fst) is)
    (hj : Within (ds.map Prod.fst) js) (hne : is ≠ js) :
    address (ds.map Prod.snd) is + e ≤ address (ds.map Prod.snd) js ∨
      address (ds.map Prod.snd) js + e ≤ address (ds.map Prod.snd) is := by
  induction h generalizing is js with
  | nil =>
    cases hi
    cases hj
    exact absurd rfl hne
  | one s h ih =>
    cases hi with
    | @cons i _ is' _ hi his =>
      cases hj with
      | @cons j _ js' _ hj hjs =>
        obtain rfl : i = 0 := by omega
        obtain rfl : j = 0 := by omega
        simp only [List.map_cons, address_cons, zero_mul, zero_add]
        exact ih his hjs fun h => hne (by rw [h])
  | @cons n s r ds hs h ih =>
    cases hi with
    | @cons i _ is' _ hi his =>
      cases hj with
      | @cons j _ js' _ hj hjs =>
        obtain ⟨hi0, hi1⟩ := h.reach he his
        obtain ⟨hj0, hj1⟩ := h.reach he hjs
        have hs0 : 0 ≤ s := by linarith
        simp only [List.map_cons, address_cons]
        rcases lt_trichotomy i j with hij | rfl | hij
        · have := mul_le_mul_of_nonneg_right (show i + 1 ≤ j by omega) hs0
          left
          linarith
        · rcases ih his hjs fun h => hne (by rw [h]) with h | h
          · left
            linarith
          · right
            linarith
        · have := mul_le_mul_of_nonneg_right (show j + 1 ≤ i by omega) hs0
          right
          linarith

end Strides
