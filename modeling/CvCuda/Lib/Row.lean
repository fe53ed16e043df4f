import Mathlib.Algebra.Order.BigOperators.Group.List
import Mathlib.Algebra.Order.Ring.Int
import Mathlib.Data.List.Pairwise
import Mathlib.Tactic.Linarith

/-! # Intervals in a row

`Row start width a l b`: the intervals of `l` stand in a row from `a` to `b`, each where the one
before ends. Then the row is as long as they are together (`Row.eq_add_sum`), each is inside of it
(`Row.inside`) and ends before the next ones begin (`Row.apart`, `Row.disjoint`).
-/

/-- The intervals of a list, in a row from `a` to `b`. -/
def Row {α : Type*} (start width : α → ℤ) : (a : ℤ) → List α → (b : ℤ) → Prop
  | a, [], b => a = b
  | a, x :: l, b => start x = a ∧ Row start width (a + width x) l b

namespace Row

variable {α : Type*} {start width : α → ℤ} {a b c : ℤ} {l l' : List α}

theorem append (h : Row start width a l b) (h' : Row start width b l' c) :
    Row start width a (l ++ l') c := by
  induction l generalizing a with
  | nil => exact h ▸ h'
  | cons x l ih => exact ⟨h.1, ih h.2⟩

theorem eq_add_sum (h : Row start width a l b) : b = a + (l.map width).sum := by
  induction l generalizing a with
  | nil => simpa using h.symm
  | cons x l ih => simp [ih h.2, add_assoc]

theorem le (h : Row start width a l b) (hw : ∀ x ∈ l, 0 ≤ width x) : a ≤ b := by
  rw [h.eq_add_sum]
  have : 0 ≤ (l.map width).sum := by
    apply List.sum_nonneg
    simpa using hw
  linarith

/-- Every interval is inside. -/
theorem inside (h : Row start width a l b) (hw : ∀ x ∈ l, 0 ≤ width x) {x : α} (hx : x ∈ l) :
    a ≤ start x ∧ start x + width x ≤ b := by
  induction l generalizing a with
  | nil => cases hx
  | cons y l ih =>
    have hl := fun x hx => hw x (.tail y hx)
    have hy := hw y (.head l)
    rcases List.mem_cons.1 hx with rfl | hx
    · have := le h.2 hl
      rw [h.1]
      exact ⟨le_refl a, this⟩
    · obtain ⟨hstart, hend⟩ := ih h.2 hl hx
      exact ⟨by linarith, hend⟩

/-- **Intervals in a row are disjoint**: each ends before the next ones begin. -/
theorem apart (h : Row start width a l b) (hw : ∀ x ∈ l, 0 ≤ width x) :
    l.Pairwise fun x y => start x + width x ≤ start y := by
  induction l generalizing a with
  | nil => exact .nil
  | cons x l ih =>
    have hl := fun x hx => hw x (.tail _ hx)
    apply List.pairwise_cons.2 ⟨fun y hy => ?_, ih h.2 hl⟩
    rw [h.1]
    exact (inside h.2 hl hy).1

/-- Of two intervals, one ends before the other begins. -/
theorem disjoint (h : Row start width a l b) (hw : ∀ x ∈ l, 0 ≤ width x) {x y : α} (hx : x ∈ l)
    (hy : y ∈ l) (hne : x ≠ y) :
    start x + width x ≤ start y ∨ start y + width y ≤ start x := by
  have hsymm : Std.Symm fun x y => start x + width x ≤ start y ∨ start y + width y ≤ start x :=
    ⟨fun _ _ => Or.symm⟩
  have hor : l.Pairwise fun x y => start x + width x ≤ start y ∨ start y + width y ≤ start x :=
    (h.apart hw).imp .inl
  exact hor.forall hx hy hne

end Row
