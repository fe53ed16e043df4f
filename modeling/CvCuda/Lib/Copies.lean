import CvCuda.Lib.Kernel

/-! # Copies that come in any order

A list of copies, each of one cell to another, is carried out in some order; what is copied is read
from a memory that none of them writes.

* `Leaves.copied`, `Leaves.kept`: what a cell holds in the end.
* `mem_of_copied`: a cell that holds what another one holds, whatever that is, was copied.
* `bytes`: the copies of one block of bytes; `mem_flatten_of_mapM`: those of several calls.
-/

namespace Copies

variable {A B V : Type}

/-- Some order of the copies, from the second cell of each to the first, leaves `d'`. -/
def Leaves [DecidableEq B] (cs : List (B × A)) (m : A → V) (d d' : B → V) : Prop :=
  ∃ order : List (B × A), order.Perm cs ∧ d' = Kernel.store (order.map fun c => (c.1, m c.2)) d

section
variable [DecidableEq B] {cs : List (B × A)} {m : A → V} {d d' : B → V} {a : A} {b : B} {v : V}

/-- A cell that is copied to holds what was copied, where all copies to it are the same. -/
theorem Leaves.copied (h : Leaves cs m d d') (hb : ∃ c ∈ cs, c.1 = b)
    (hv : ∀ c ∈ cs, c.1 = b → m c.2 = v) : d' b = v := by
  obtain ⟨order, hperm, rfl⟩ := h
  refine Kernel.store_of_mem ?_ ?_ d
  · obtain ⟨c, hc, hcb⟩ := hb
    exact ⟨_, List.mem_map_of_mem (hperm.mem_iff.2 hc), hcb⟩
  · intro s hs hsb
    obtain ⟨c, hc, rfl⟩ := List.mem_map.1 hs
    exact hv c (hperm.mem_iff.1 hc) hsb

/-- A cell that is not copied to holds what it held. -/
theorem Leaves.kept (h : Leaves cs m d d') (hb : ∀ c ∈ cs, c.1 ≠ b) : d' b = d b := by
  obtain ⟨order, hperm, rfl⟩ := h
  refine Kernel.store_of_notMem (fun s hs => ?_) d
  obtain ⟨c, hc, rfl⟩ := List.mem_map.1 hs
  exact hb c (hperm.mem_iff.1 hc)

theorem exists_leaves (cs : List (B × A)) (m : A → V) (d : B → V) : ∃ d', Leaves cs m d d' :=
  ⟨_, cs, List.Perm.refl cs, rfl⟩

/-- A cell that always holds what another one holds is copied from it. -/
theorem mem_of_copied [Nontrivial V] (h : ∀ m d d', Leaves cs m d d' → d' b = (m a : V)) :
    (b, a) ∈ cs := by
  classical
  by_contra hnot
  obtain ⟨v, w, hne⟩ := exists_pair_ne V
  -- only the cell `a` holds `v`
  let m : A → V := fun x => if x = a then v else w
  obtain ⟨d', hl⟩ := exists_leaves cs m fun _ => w
  have ha : d' b = v := by
    rw [h m _ d' hl]
    exact if_pos rfl
  have hw : d' b = w := by
    by_cases hex : ∃ c ∈ cs, c.1 = b
    · refine hl.copied hex fun c hc hcb => if_neg fun hca => hnot ?_
      rw [← hcb, ← hca]
      exact hc
    · exact hl.kept fun c hc hcb => hex ⟨c, hc, hcb⟩
  exact hne (ha.symm.trans hw)

end

/-- The copies of a block of bytes. -/
def bytes (size : Nat) (b a : ℤ) : List (ℤ × ℤ) := (List.range size).map fun j : Nat =>
  (b + (j : ℤ), a + (j : ℤ))

theorem mem_bytes {size : Nat} {b a : ℤ} {c : ℤ × ℤ} :
    c ∈ bytes size b a ↔ ∃ j : Nat, j < size ∧ c = (b + j, a + j) := by
  simp only [bytes, List.mem_map, List.mem_range, eq_comm]

/-- Where calls all succeed, each does. -/
theorem exists_of_mapM {C D : Type} {f : C → Option D} {l : List C} {r : List D}
    (h : l.mapM f = some r) {x : C} (hx : x ∈ l) : ∃ y, f x = some y := by
  induction l generalizing r with
  | nil => cases hx
  | cons z l ih =>
    rw [List.mapM_cons] at h
    obtain ⟨y, hy, h⟩ := Option.bind_eq_some_iff.1 h
    obtain ⟨ys, hys, -⟩ := Option.bind_eq_some_iff.1 h
    rcases List.mem_cons.1 hx with rfl | hx
    · exact ⟨y, hy⟩
    · exact ih hys hx

/-- The copies of several calls that all succeed. -/
theorem mem_flatten_of_mapM {C D : Type} {f : C → Option (List D)} {l : List C}
    {r : List (List D)} (h : l.mapM f = some r) {d : D} :
    d ∈ r.flatten ↔ ∃ x ∈ l, ∃ ds, f x = some ds ∧ d ∈ ds := by
  induction l generalizing r with
  | nil =>
    rw [List.mapM_nil] at h
    obtain rfl := Option.some.inj h
    simp
  | cons x l ih =>
    rw [List.mapM_cons] at h
    obtain ⟨ds, hx, h⟩ := Option.bind_eq_some_iff.1 h
    obtain ⟨rs, hl, h⟩ := Option.bind_eq_some_iff.1 h
    obtain rfl := Option.some.inj h
    rw [List.flatten_cons, List.mem_append, ih hl]
    constructor
    · rintro (hd | ⟨y, hy, h⟩)
      · exact ⟨x, List.mem_cons_self, ds, hx, hd⟩
      · exact ⟨y, List.mem_cons_of_mem x hy, h⟩
    · rintro ⟨y, hy, ds', hy', hd⟩
      rcases List.mem_cons.1 hy with rfl | hy
      · rw [hx] at hy'
        exact .inl (Option.some.inj hy' ▸ hd)
      · exact .inr ⟨y, hy, ds', hy', hd⟩

end Copies
