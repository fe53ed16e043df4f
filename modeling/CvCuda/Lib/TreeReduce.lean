import Mathlib.Tactic

/-! # Tree reductions

A block combines `2 ^ k` values in place: at each level a thread combines its value with the one a
stride away, and the stride halves. Below a warp's width the threads of the first warp take the
levels together, those beyond the stride too; what these write does not count.

* `reduce_iff`: a bound of each combination of two values bounds the result.
* `exists_reduce`: a selection among two values selects among all.
* `firstMax`: the value that is largest, of several the one with the smallest index.
-/

namespace TreeReduce

variable {α : Type*} {op : α → α → α} {w : Nat}

/-- The threads below `bound` combine their values with those a stride away. -/
def level (op : α → α → α) (bound stride : Nat) (f : Nat → α) : Nat → α := fun i =>
  if i < bound then op (f i) (f (i + stride)) else f i

/-- The levels from stride `2 ^ (k - 1)` down to 1, with warps of `w` threads. -/
def reduce (op : α → α → α) (w : Nat) : Nat → (Nat → α) → Nat → α
  | 0, f => f
  | k + 1, f => reduce op w k (level op (max w (2 ^ k)) (2 ^ k) f)

theorem level_of_lt {bound stride i : Nat} (h : i < bound) (f : Nat → α) :
    level op bound stride f i = op (f i) (f (i + stride)) :=
  if_pos h

theorem level_iff {P : α → Prop} (hop : ∀ a b, P (op a b) ↔ P a ∧ P b) {bound stride : Nat}
    (h : stride ≤ bound) (f : Nat → α) :
    (∀ i < stride, P (level op bound stride f i)) ↔ ∀ i < 2 * stride, P (f i) := by
  constructor
  · intro hP i hi
    by_cases his : i < stride
    · have := hP i his
      rw [level_of_lt (by omega), hop] at this
      exact this.1
    · have := hP (i - stride) (by omega)
      rw [level_of_lt (by omega), hop, Nat.sub_add_cancel (by omega)] at this
      exact this.2
  · intro hP i hi
    rw [level_of_lt (by omega), hop]
    exact ⟨hP i (by omega), hP (i + stride) (by omega)⟩

/-- What holds of a combination if it does of both values holds of the result if it does of all. -/
theorem reduce_iff {P : α → Prop} (hop : ∀ a b, P (op a b) ↔ P a ∧ P b) (k : Nat) (f : Nat → α) :
    P (reduce op w k f 0) ↔ ∀ i < 2 ^ k, P (f i) := by
  induction k generalizing f with
  | zero => simp [reduce]
  | succ k ih => rw [reduce, ih, level_iff hop (le_max_right ..), pow_succ']

theorem exists_reduce (hop : ∀ a b, op a b = a ∨ op a b = b) (k : Nat) (f : Nat → α) :
    ∃ i < 2 ^ k, reduce op w k f 0 = f i := by
  induction k generalizing f with
  | zero => exact ⟨0, Nat.one_pos, rfl⟩
  | succ k ih =>
    obtain ⟨i, hi, heq⟩ := ih (level op (max w (2 ^ k)) (2 ^ k) f)
    rw [level_of_lt (lt_max_of_lt_right hi)] at heq
    rw [reduce, heq]
    rcases hop (f i) (f (i + 2 ^ k)) with h | h
    · exact ⟨i, by omega, h⟩
    · exact ⟨i + 2 ^ k, by omega, h⟩

/-! ## The first maximum -/

variable {V : Type*} [LinearOrder V]

/-- Of two values with their indices, the larger one, or the smaller index. -/
def firstMax (a b : V × Nat) : V × Nat :=
  if a.1 ≤ b.1 then (b.1, if b.1 = a.1 then min a.2 b.2 else b.2) else a

/-- Smaller, or as large with an index that is no smaller. -/
def Before (c a : V × Nat) : Prop := a.1 < c.1 ∨ a.1 = c.1 ∧ c.2 ≤ a.2

theorem firstMax_eq (a b : V × Nat) : firstMax a b = a ∨ firstMax a b = b := by
  unfold firstMax
  split
  · split
    · rename_i h
      rcases le_total a.2 b.2 with hle | hle
      · exact .inl (Prod.ext h (min_eq_left hle))
      · exact .inr (Prod.ext rfl (min_eq_right hle))
    · exact .inr rfl
  · exact .inl rfl

theorem before_firstMax_iff (c a b : V × Nat) :
    Before c (firstMax a b) ↔ Before c a ∧ Before c b := by
  unfold Before firstMax
  rcases lt_trichotomy a.1 b.1 with h | h | h
  · rw [if_pos h.le, if_neg h.ne']
    constructor
    · rintro (hlt | heq)
      · exact ⟨.inl (h.trans hlt), .inl hlt⟩
      · exact ⟨.inl (heq.1 ▸ h), .inr heq⟩
    · exact fun hab => hab.2
  · rw [if_pos h.le, if_pos h.symm, h]
    dsimp only
    rw [le_min_iff]
    tauto
  · rw [if_neg h.not_ge]
    constructor
    · rintro (hlt | heq)
      · exact ⟨.inl hlt, .inl (h.trans hlt)⟩
      · exact ⟨.inr heq, .inl (heq.1 ▸ h)⟩
    · exact fun hab => hab.1

/-- `i` is the first of the indices in `S` at which `f` is largest. -/
structure IsFirstMax (f : Nat → V) (S : Set Nat) (i : Nat) : Prop where
  mem : i ∈ S
  le : ∀ j ∈ S, f j ≤ f i
  first : ∀ j ∈ S, f j = f i → i ≤ j

theorem IsFirstMax.unique {f : Nat → V} {S : Set Nat} {i j : Nat} (hi : IsFirstMax f S i)
    (hj : IsFirstMax f S j) : i = j := by
  have heq : f i = f j := le_antisymm (hj.le i hi.mem) (hi.le j hj.mem)
  exact le_antisymm (hi.first j hj.mem heq.symm) (hj.first i hi.mem heq)

/-- The tree finds the first maximum and its value. -/
theorem reduce_firstMax (k : Nat) (f : Nat → V) : ∃ i,
    IsFirstMax f {i | i < 2 ^ k} i ∧ reduce firstMax w k (fun i => (f i, i)) 0 = (f i, i) := by
  obtain ⟨i, hi, heq⟩ := exists_reduce (w := w) firstMax_eq k fun i => (f i, i)
  have hself : Before (f i, i) (reduce firstMax w k (fun i => (f i, i)) 0) := by
    rw [heq]
    exact .inr ⟨rfl, le_rfl⟩
  have hbefore : ∀ j < 2 ^ k, Before (f i, i) (f j, j) :=
    (reduce_iff (before_firstMax_iff (f i, i)) k _).1 hself
  refine ⟨i, ⟨hi, fun j hj => ?_, fun j hj hji => ?_⟩, heq⟩
  · exact (hbefore j hj).elim le_of_lt fun h => h.1.le
  · exact (hbefore j hj).elim (fun h => absurd hji h.ne) fun h => h.2

end TreeReduce
