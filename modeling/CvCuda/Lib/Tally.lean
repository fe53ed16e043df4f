import Mathlib.Tactic
import Mathlib.Algebra.BigOperators.Group.Finset.Basic

/-! # What a finite set of holders holds

Each holder has a list of things of some weight. `total` is the weight of what all holders have;
one lemma says what it becomes for each way a holder's list, or the set of holders, changes.
-/

namespace Tally

variable {C A : Type} (weight : A → Int)

/-- The weight of a list. -/
def listWeight (l : List A) : Int := (l.map weight).sum

/-- The weight of what the holders have. -/
def total (holders : Finset C) (held : C → List A) : Int :=
  ∑ c ∈ holders, listWeight weight (held c)

@[simp] theorem listWeight_nil : listWeight weight [] = 0 := rfl

@[simp] theorem listWeight_cons (x : A) (l : List A) :
    listWeight weight (x :: l) = weight x + listWeight weight l := by
  simp [listWeight]

/-- The weight of a list, where only `a` has weight, is how often `a` is in it. -/
theorem listWeight_count [DecidableEq A] (a : A) (l : List A) :
    listWeight (fun x => if x = a then 1 else 0) l = l.count a := by
  induction l with
  | nil => rfl
  | cons x l ih =>
    rw [listWeight_cons, ih, List.count_cons, Nat.cast_add, Int.add_comm]
    by_cases h : x = a <;> simp [h]

section
variable {weight} {holders : Finset C} {held : C → List A} {c : C}

theorem listWeight_nonneg (h : ∀ x, 0 ≤ weight x) (l : List A) : 0 ≤ listWeight weight l := by
  induction l with
  | nil => exact le_refl 0
  | cons x l ih =>
    rw [listWeight_cons]
    exact Int.add_nonneg (h x) ih

theorem total_nonneg (h : ∀ x, 0 ≤ weight x) : 0 ≤ total weight holders held :=
  Finset.sum_nonneg fun c _ => listWeight_nonneg h (held c)

theorem total_congr {held' : C → List A} (h : ∀ c ∈ holders, held c = held' c) :
    total weight holders held = total weight holders held' :=
  Finset.sum_congr rfl fun c hc => by rw [h c hc]

/-- No holder has anything. -/
theorem total_empty (h : ∀ c ∈ holders, held c = []) : total weight holders held = 0 :=
  Finset.sum_eq_zero fun c hc => by rw [h c hc, listWeight_nil]

variable [DecidableEq C]

/-- The holder and the others. -/
theorem total_eq (hc : c ∈ holders) : total weight holders held =
    listWeight weight (held c) + total weight (holders.erase c) held :=
  (Finset.add_sum_erase holders _ hc).symm

/-- One holder's list changes. -/
theorem total_update (hc : c ∈ holders) (l : List A) :
    total weight holders (Function.update held c l) =
      listWeight weight l + total weight (holders.erase c) held := by
  rw [total_eq hc, Function.update_self]
  congr 1
  exact total_congr fun d hd => Function.update_of_ne (Finset.ne_of_mem_erase hd) _ _

/-- A holder comes, with nothing. -/
theorem total_insert (hc : c ∉ holders) :
    total weight (insert c holders) (Function.update held c []) = total weight holders held := by
  rw [total, Finset.sum_insert hc, Function.update_self, listWeight_nil, Int.zero_add]
  exact total_congr fun d hd => Function.update_of_ne (ne_of_mem_of_not_mem hd hc) _ _

/-- A holder comes, with what is in the list. -/
theorem total_insert_list (hc : c ∉ holders) (l : List A) :
    total weight (insert c holders) (Function.update held c l) =
      total weight holders held + listWeight weight l := by
  rw [total_update (Finset.mem_insert_self c holders), Finset.erase_insert hc, Int.add_comm]

end

end Tally
