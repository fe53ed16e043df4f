import Mathlib.Tactic

/-! # Forests of descending links

Links `f` with `f i ≤ i` lead from every number to a root, a number linked to itself. Two numbers
have the same root exactly if they are joined by links.

* `root`: where the links lead.
* `root_eq_iff`: the same root, or joined by links.
* `joined_of_gen`: what is joined by one relation is joined by another.
-/

namespace Forest

/-- No link leads upwards. -/
def Descending (f : Nat → Nat) : Prop := ∀ i, f i ≤ i

/-- Where the links lead from `i`. -/
def root (f : Nat → Nat) (i : Nat) : Nat := f^[i] i

section
variable {f : Nat → Nat} {i j k : Nat}

/-- A step that is not at a root yet goes down. -/
theorem iterate_add_le (h : Descending f) (k i : Nat) :
    f^[k] i + k ≤ i ∨ f (f^[k] i) = f^[k] i := by
  induction k with
  | zero => exact .inl le_rfl
  | succ k ih =>
    rw [Function.iterate_succ_apply']
    rcases ih with hk | hk
    · by_cases he : f (f^[k] i) = f^[k] i
      · exact .inr (by rw [he, he])
      · have hle := h (f^[k] i)
        exact .inl (by omega)
    · exact .inr (by rw [hk, hk])

theorem iterate_le (h : Descending f) (k i : Nat) : f^[k] i ≤ i := by
  induction k with
  | zero => exact le_rfl
  | succ k ih =>
    rw [Function.iterate_succ_apply']
    exact (h _).trans ih

/-- A root is linked to itself. -/
theorem root_fixed (h : Descending f) (i : Nat) : f (root f i) = root f i := by
  rcases iterate_add_le h i i with hi | hi
  · have h0 : f^[i] i = 0 := by omega
    rw [root, h0]
    exact Nat.le_zero.1 (h 0)
  · exact hi

theorem root_le (h : Descending f) (i : Nat) : root f i ≤ i := iterate_le h i i

theorem root_of_fixed (h : f i = i) : root f i = i := Function.iterate_fixed h i

/-- More steps than it takes lead to the root, too. -/
theorem iterate_eq_root (h : Descending f) (hk : i ≤ k) : f^[k] i = root f i := by
  obtain ⟨n, rfl⟩ := Nat.exists_eq_add_of_le' hk
  rw [Function.iterate_add_apply]
  exact Function.iterate_fixed (root_fixed h i) n

@[simp] theorem root_link (h : Descending f) (i : Nat) : root f (f i) = root f i := by
  rw [← iterate_eq_root h (h i), ← Function.iterate_succ_apply, Function.iterate_succ_apply']
  exact root_fixed h i

theorem root_iterate (h : Descending f) (k i : Nat) : root f (f^[k] i) = root f i := by
  induction k with
  | zero => rfl
  | succ k ih => rw [Function.iterate_succ_apply', root_link h, ih]

/-- Links that skip to their root, or not, lead to the same roots. -/
theorem root_of_shortcuts {g : Nat → Nat} (h : Descending f)
    (hg : ∀ i, g i = f i ∨ g i = root f i) : root g = root f := by
  have hdown : Descending g := fun i => by
    rcases hg i with he | he
    · exact he ▸ h i
    · exact he ▸ root_le h i
  have hstep : ∀ i, root f (g i) = root f i := fun i => by
    rcases hg i with he | he
    · rw [he, root_link h]
    · rw [he, root_of_fixed (root_fixed h i)]
  have hiter : ∀ k i, root f (g^[k] i) = root f i := fun k i => by
    induction k with
    | zero => rfl
    | succ k ih => rw [Function.iterate_succ_apply', hstep, ih]
  funext i
  have hfixed := root_fixed hdown i
  have hroot : root f (root g i) = root g i := by
    rcases hg (root g i) with he | he
    · exact root_of_fixed (he ▸ hfixed)
    · exact he ▸ hfixed
  rw [← hroot]
  exact hiter i i

/-- A root on the way is where the way ends. -/
theorem iterate_fixed_eq_root (h : Descending f) (hk : f (f^[k] i) = f^[k] i) :
    f^[k] i = root f i := by
  rw [← root_iterate h k i, root_of_fixed hk]

end

/-- Joined by a chain of related numbers, in either direction. -/
abbrev Joined (r : Nat → Nat → Prop) : Nat → Nat → Prop := Relation.EqvGen r

section
variable {r r' : Nat → Nat → Prop} {f : Nat → Nat} {i j : Nat}

theorem joined_of_gen (h : ∀ x y, r x y → Joined r' x y) (hr : Joined r i j) : Joined r' i j :=
  (Relation.EqvGen.is_equivalence r').eqvGen_iff.1 (hr.mono h)

theorem joined_iterate (hf : ∀ x, Joined r x (f x)) (k i : Nat) : Joined r i (f^[k] i) := by
  induction k with
  | zero => exact .refl i
  | succ k ih =>
    rw [Function.iterate_succ_apply']
    exact .trans _ _ _ ih (hf _)

/-- **Roots and classes**: the same root, or joined by links. -/
theorem root_eq_iff (h : Descending f) :
    root f i = root f j ↔ Joined (fun x y => f x = y) i j := by
  have hf : ∀ x, Joined (fun x y => f x = y) x (f x) := fun x => .rel _ _ rfl
  constructor
  · intro he
    have hi : Joined (fun x y => f x = y) i (root f i) := joined_iterate hf i i
    have hj : Joined (fun x y => f x = y) j (root f j) := joined_iterate hf j j
    rw [he] at hi
    exact .trans _ _ _ hi (.symm _ _ hj)
  · intro hr
    induction hr with
    | rel x y hxy => rw [← hxy, root_link h]
    | refl x => rfl
    | symm x y _ ih => exact ih.symm
    | trans x y z _ _ ih ih' => exact ih.trans ih'

end

end Forest
