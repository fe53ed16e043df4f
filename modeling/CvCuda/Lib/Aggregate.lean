import Mathlib.Tactic

/-! # Aggregates of a list

The maximum of a list and the value its elements have in common, each with a value for the lists
that have none, and how they follow when elements are appended or folded in.

* `maximum_concat`, `foldl_max`: the maximum.
* `common_concat`, `foldl_addCommon_self`: the common value.
* `common_eq`, `common_eq_default`: what the common value is.
-/

namespace Aggregate

variable {α : Type*}

section Maximum
variable [Max α] {z x : α} {l : List α}

/-- The maximum of a list, `z` when it is empty. -/
def maximum (z : α) (l : List α) : α := l.max?.getD z

theorem maximum_cons (z x : α) (l : List α) : maximum z (x :: l) = l.foldl max x := by
  rw [maximum, List.max?_cons', Option.getD_some]

theorem maximum_concat (h : l ≠ []) : maximum z (l ++ [x]) = max (maximum z l) x := by
  cases l with
  | nil => exact absurd rfl h
  | cons a l => rw [List.cons_append, maximum_cons, maximum_cons, List.foldl_append]; rfl

/-- Over elements above `z`, folding from `z` gives the maximum. -/
theorem foldl_max (h : ∀ a ∈ l, max z a = a) : l.foldl max z = maximum z l := by
  cases l with
  | nil => rfl
  | cons a l => rw [maximum_cons, List.foldl_cons, h a (List.mem_cons_self ..)]

end Maximum

section Common
variable [DecidableEq α] {d x : α} {l : List α}

/-- The value all elements of a list are, `d` when there is none. -/
def common (d : α) : List α → α
  | [] => d
  | x :: l => if ∀ y ∈ l, y = x then x else d

/-- The common value after another element. -/
def addCommon (d f x : α) : α := if f ≠ x then d else f

theorem common_eq (hl : l ≠ []) (h : ∀ y ∈ l, y = x) : common d l = x := by
  cases l with
  | nil => exact absurd rfl hl
  | cons a l =>
    have ha : a = x := h a (List.mem_cons_self ..)
    subst ha
    exact if_pos fun y hy => h y (List.mem_cons_of_mem _ hy)

theorem common_eq_default (h : ∀ x, l ≠ [] → ¬∀ y ∈ l, y = x) : common d l = d := by
  cases l with
  | nil => rfl
  | cons a l =>
    refine if_neg fun hc => h a (List.cons_ne_nil a l) fun y hy => ?_
    rcases List.mem_cons.1 hy with rfl | hy
    · rfl
    · exact hc y hy

theorem common_concat (h : l ≠ []) : common d (l ++ [x]) = addCommon d (common d l) x := by
  cases l with
  | nil => exact absurd rfl h
  | cons a l =>
    unfold addCommon
    by_cases hl : ∀ y ∈ l, y = a
    · have hc : common d (a :: l) = a := if_pos hl
      rw [hc]
      by_cases hx : a = x
      · subst hx
        rw [if_neg (not_not.2 rfl)]
        refine if_pos fun y hy => ?_
        rcases List.mem_append.1 hy with hy | hy
        · exact hl y hy
        · exact List.mem_singleton.1 hy
      · rw [if_pos hx]
        exact if_neg fun hc => hx (hc x (by simp)).symm
    · have hc : common d (a :: l) = d := if_neg hl
      have hc' : common d (a :: l ++ [x]) = d :=
        if_neg fun h => hl fun y hy => h y (List.mem_append_left _ hy)
      rw [hc, hc', ite_self]

/-- An element does not change the common value it is of. -/
theorem addCommon_self (h : x ∈ l) : addCommon d (common d l) x = common d l := by
  by_cases hc : ∃ z, ∀ y ∈ l, y = z
  · obtain ⟨z, hz⟩ := hc
    rw [common_eq (List.ne_nil_of_mem h) hz, hz x h]
    exact if_neg (not_not.2 rfl)
  · rw [common_eq_default fun z _ h => hc ⟨z, h⟩]
    exact ite_self d

theorem foldl_addCommon_self {xs : List α} (h : ∀ x ∈ xs, x ∈ l) :
    xs.foldl (addCommon d) (common d l) = common d l := by
  induction xs with
  | nil => rfl
  | cons a xs ih =>
    rw [List.foldl_cons, addCommon_self (h a (List.mem_cons_self ..))]
    exact ih fun x hx => h x (List.mem_cons_of_mem _ hx)

end Common

end Aggregate
