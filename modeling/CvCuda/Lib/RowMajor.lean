import Mathlib.Tactic
import Mathlib.Algebra.BigOperators.Group.List.Basic

/-! # Row-major offsets of strided views

`offset dims strides k` is the offset of the `k`-th element, in row-major order, of a view with
dimensions `dims` and one stride for each, in any additive commutative monoid.

* `offset_append`: a view splits into leading and trailing dimensions.
* `offset_merge`: two dimensions the outer of which strides over the whole inner one are one.
* `offset_packed`: dimensions packed over a stride `t` (`packed`) reach element `k` at `k • t`.
* `offset_of_prod_one`: a view of one element has only the offset 0.
* `offset_map`: offsets commute with additive homomorphisms.
-/

namespace RowMajor

variable {R : Type*} [AddCommMonoid R]

/-- The offset of the `k`-th element in row-major order: the last dimension varies fastest. -/
def offset : List Nat → List R → Nat → R
  | _ :: ns, s :: ss, k => (k / ns.prod) • s + offset ns ss (k % ns.prod)
  | _, _, _ => 0

/-- The strides of dimensions packed over an innermost stride `t`. -/
def packed : List Nat → R → List R
  | [], _ => []
  | _ :: ns, t => (ns.prod • t) :: packed ns t

@[simp] theorem offset_nil (ss : List R) (k : Nat) : offset [] ss k = 0 := by
  cases ss <;> rfl

@[simp] theorem length_packed (ns : List Nat) (t : R) : (packed ns t).length = ns.length := by
  induction ns with
  | nil => rfl
  | cons n ns ih => simp [packed, ih]

/-- Leading and trailing dimensions: the element's index divides between them. -/
theorem offset_append {ns ms : List Nat} {ss : List R} (ts : List R)
    (h : ns.length = ss.length) {k : Nat} (hk : k < (ns ++ ms).prod) :
    offset (ns ++ ms) (ss ++ ts) k = offset ns ss (k / ms.prod) + offset ms ts (k % ms.prod) := by
  induction ns generalizing ss k with
  | nil =>
    obtain rfl := List.length_eq_zero_iff.1 h.symm
    rw [List.nil_append] at hk ⊢
    rw [List.nil_append, offset_nil, zero_add, Nat.mod_eq_of_lt hk]
  | cons n ns ih =>
    cases ss with
    | nil => exact absurd h (by simp)
    | cons s ss =>
      have hpos : 0 < (ns ++ ms).prod := by
        refine Nat.pos_of_ne_zero fun h0 => ?_
        rw [List.cons_append, List.prod_cons, h0, Nat.mul_zero] at hk
        exact Nat.not_lt_zero _ hk
      simp only [List.cons_append, offset]
      rw [ih (by simpa using h) (Nat.mod_lt _ hpos), List.prod_append, Nat.mod_mul_left_div_self,
        Nat.mod_mul_left_mod, Nat.div_div_eq_div_mul, Nat.mul_comm ms.prod, add_assoc]

/-- Two dimensions, the outer of which strides over the whole inner one, are one dimension. -/
theorem offset_merge (n m : Nat) (s : R) (ns : List Nat) (ss : List R) (k : Nat) :
    offset (n :: m :: ns) (m • s :: s :: ss) k = offset (n * m :: ns) (s :: ss) k := by
  simp only [offset, List.prod_cons]
  rw [← add_assoc, Nat.mod_mul_left_div_self, Nat.mod_mul_left_mod, smul_smul, ← add_smul,
    Nat.mul_comm m ns.prod, ← Nat.div_div_eq_div_mul, Nat.div_add_mod' (k / ns.prod) m]

/-- Packed dimensions reach their `k`-th element at `k` times the stride. -/
theorem offset_packed {ns : List Nat} (t : R) {k : Nat} (hk : k < ns.prod) :
    offset ns (packed ns t) k = k • t := by
  induction ns generalizing k with
  | nil =>
    rw [List.prod_nil] at hk
    rw [offset_nil, Nat.lt_one_iff.1 hk, zero_smul]
  | cons n ns ih =>
    have hpos : 0 < ns.prod := by
      refine Nat.pos_of_ne_zero fun h0 => ?_
      rw [List.prod_cons, h0, Nat.mul_zero] at hk
      exact Nat.not_lt_zero _ hk
    simp only [offset, packed]
    rw [ih (Nat.mod_lt _ hpos), smul_smul, ← add_smul, Nat.div_add_mod']

/-- The only element of a view of one element is at offset 0. -/
theorem offset_of_prod_one {ns : List Nat} (ss : List R) (h : ns.prod = 1) :
    offset ns ss 0 = 0 := by
  induction ns generalizing ss with
  | nil => exact offset_nil ss 0
  | cons n ns ih =>
    cases ss with
    | nil => rfl
    | cons s ss =>
      rw [List.prod_cons] at h
      rw [offset, Nat.zero_div, Nat.zero_mod, zero_smul, zero_add,
        ih ss (Nat.eq_one_of_mul_eq_one_left h)]

theorem offset_map {R' : Type*} [AddCommMonoid R'] (f : R →+ R') (ns : List Nat) (ss : List R)
    (k : Nat) : f (offset ns ss k) = offset ns (ss.map f) k := by
  induction ns generalizing ss k with
  | nil => rw [offset_nil, offset_nil, map_zero]
  | cons n ns ih =>
    cases ss with
    | nil => exact map_zero f
    | cons s ss =>
      simp only [offset, List.map_cons]
      rw [map_add, map_nsmul, ih]

/-- **Regrouping.** Leading dimensions of the same number of elements as the first dimension of
another view, packed over its stride, take the place of that dimension. -/
theorem offset_regroup {ds ms ns : List Nat} {e : Nat} (t : R) {ss ts : List R}
    (he : ds.prod = e) (hp : ms.prod = ns.prod)
    (h : ∀ k < ns.prod, offset ms ts k = offset ns ss k) {k : Nat} (hk : k < (e :: ns).prod) :
    offset (ds ++ ms) (packed ds t ++ ts) k = offset (e :: ns) (t :: ss) k := by
  rw [List.prod_cons] at hk
  have hpos : 0 < ns.prod := Nat.pos_of_mul_pos_left (Nat.zero_lt_of_lt hk)
  rw [offset_append ts (length_packed ds t).symm (by rw [List.prod_append, he, hp]; exact hk),
    hp, offset_packed t (by rw [he]; exact Nat.div_lt_of_lt_mul (by rwa [Nat.mul_comm])),
    h _ (Nat.mod_lt _ hpos), offset]

end RowMajor
