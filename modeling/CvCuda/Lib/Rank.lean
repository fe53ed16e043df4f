import Mathlib.Tactic

/-! # Ranks

`nth l k` is the element of rank `k` of a list: the one at that place when the list is sorted,
equal elements one after another. What selects by rank keeps one part of a list that is split
around a value (`nth_split_lt`, `nth_split_gt`) or finds the value to be the element
(`nth_split_eq`).
-/

namespace Rank

variable {α : Type} [LinearOrder α] {l l' a b : List α} {k : Nat}

/-- The element of a rank. -/
def nth (l : List α) (k : Nat) : Option α := (l.insertionSort (· ≤ ·))[k]?

theorem nth_eq_some (hk : k < l.length) : ∃ v, nth l k = some v :=
  ⟨_, List.getElem?_eq_getElem ((List.length_insertionSort (· ≤ ·) l).symm ▸ hk)⟩

theorem insertionSort_eq_of_perm (h : l.Perm l') :
    l.insertionSort (· ≤ ·) = l'.insertionSort (· ≤ ·) := by
  refine List.Perm.eq_of_pairwise' (r := (· ≤ ·)) ?_ ?_ ?_
  · exact (List.sortedLE_insertionSort (l := l)).pairwise
  · exact (List.sortedLE_insertionSort (l := l')).pairwise
  · exact (List.perm_insertionSort _ l).trans (h.trans (List.perm_insertionSort _ l').symm)

theorem nth_perm (h : l.Perm l') : nth l k = nth l' k := by
  unfold nth
  rw [insertionSort_eq_of_perm h]

/-- Parts that are in order are sorted one by one. -/
theorem insertionSort_append (h : ∀ x ∈ a, ∀ y ∈ b, x ≤ y) :
    (a ++ b).insertionSort (· ≤ ·) = a.insertionSort (· ≤ ·) ++ b.insertionSort (· ≤ ·) := by
  refine List.Perm.eq_of_pairwise' (r := (· ≤ ·)) ?_ ?_ ?_
  · exact (List.sortedLE_insertionSort (l := a ++ b)).pairwise
  · refine List.pairwise_append.2 ⟨(List.sortedLE_insertionSort (l := a)).pairwise,
      (List.sortedLE_insertionSort (l := b)).pairwise, fun x hx y hy => ?_⟩
    exact h x ((List.mem_insertionSort _).1 hx) y ((List.mem_insertionSort _).1 hy)
  · refine (List.perm_insertionSort _ _).trans ?_
    exact ((List.perm_insertionSort _ a).append (List.perm_insertionSort _ b)).symm

theorem nth_append_left (h : ∀ x ∈ a, ∀ y ∈ b, x ≤ y) (hk : k < a.length) :
    nth (a ++ b) k = nth a k := by
  unfold nth
  rw [insertionSort_append h, List.getElem?_append_left]
  rwa [List.length_insertionSort]

theorem nth_append_right (h : ∀ x ∈ a, ∀ y ∈ b, x ≤ y) (hk : a.length ≤ k) :
    nth (a ++ b) k = nth b (k - a.length) := by
  unfold nth
  rw [insertionSort_append h, List.getElem?_append_right, List.length_insertionSort]
  rwa [List.length_insertionSort]

theorem nth_of_forall_eq {v : α} (h : ∀ x ∈ l, x = v) (hk : k < l.length) : nth l k = some v := by
  obtain ⟨x, hx⟩ := nth_eq_some hk
  have hmem : x ∈ l := (List.mem_insertionSort (· ≤ ·)).1 (List.mem_of_getElem? hx)
  rw [hx, h x hmem]

/-- The smaller elements, the equal ones and the greater ones make up a list. -/
theorem perm_split (l : List α) (p : α) :
    l.Perm (l.filter (· < p) ++ (l.filter (· = p) ++ l.filter (p < ·))) := by
  refine (List.filter_append_perm (· < p) l).symm.trans (List.Perm.append_left _ ?_)
  have heq : (l.filter fun x => !decide (x < p)).filter (· = p) = l.filter (· = p) := by
    rw [List.filter_filter]
    refine List.filter_congr fun x _ => ?_
    by_cases hx : x = p
    · simp [hx]
    · simp [hx]
  have hgt : (l.filter fun x => !decide (x < p)).filter (fun x => !decide (x = p)) =
      l.filter (p < ·) := by
    rw [List.filter_filter]
    refine List.filter_congr fun x _ => ?_
    rcases lt_trichotomy x p with hx | hx | hx
    · simp [hx, hx.not_gt]
    · simp [hx]
    · simp [hx, hx.not_gt, hx.ne']
  have hperm := List.filter_append_perm (· = p) (l.filter fun x => !decide (x < p))
  rw [heq, hgt] at hperm
  exact hperm.symm

theorem length_split (l : List α) (p : α) :
    l.length = (l.filter (· < p)).length + ((l.filter (· = p)).length +
      (l.filter (p < ·)).length) := by
  rw [← List.length_append, ← List.length_append]
  exact (perm_split l p).length_eq

section Split

variable (l k)

/-- Below the number of smaller elements a rank is one of theirs. -/
theorem nth_split_lt {p : α} (h : k < (l.filter (· < p)).length) :
    nth l k = nth (l.filter (· < p)) k := by
  rw [nth_perm (perm_split l p), nth_append_left _ h]
  intro x hx y hy
  have hxp : x < p := by simpa using (List.mem_filter.1 hx).2
  rcases List.mem_append.1 hy with hy | hy
  · have hyp : y = p := by simpa using (List.mem_filter.1 hy).2
    exact hyp ▸ hxp.le
  · have hyp : p < y := by simpa using (List.mem_filter.1 hy).2
    exact (hxp.trans hyp).le

theorem nth_split_ge {p : α} (h : (l.filter (· < p)).length ≤ k) :
    nth l k = nth (l.filter (· = p) ++ l.filter (p < ·)) (k - (l.filter (· < p)).length) := by
  rw [nth_perm (perm_split l p), nth_append_right _ h]
  intro x hx y hy
  have hxp : x < p := by simpa using (List.mem_filter.1 hx).2
  rcases List.mem_append.1 hy with hy | hy
  · have hyp : y = p := by simpa using (List.mem_filter.1 hy).2
    exact hyp ▸ hxp.le
  · have hyp : p < y := by simpa using (List.mem_filter.1 hy).2
    exact (hxp.trans hyp).le

theorem eq_le_gt {p : α} : ∀ x ∈ l.filter (· = p), ∀ y ∈ l.filter (p < ·), x ≤ y := by
  intro x hx y hy
  have hxp : x = p := by simpa using (List.mem_filter.1 hx).2
  have hyp : p < y := by simpa using (List.mem_filter.1 hy).2
  exact hxp ▸ hyp.le

theorem nth_split_eq {p : α} (h : (l.filter (· < p)).length ≤ k)
    (h' : k < (l.filter (· < p)).length + (l.filter (· = p)).length) : nth l k = some p := by
  rw [nth_split_ge l k h, nth_append_left (eq_le_gt l) (by omega)]
  exact nth_of_forall_eq (fun x hx => by simpa using (List.mem_filter.1 hx).2) (by omega)

/-- Past the equal elements a rank is one of the greater ones'. -/
theorem nth_split_gt {p : α}
    (h : (l.filter (· < p)).length + (l.filter (· = p)).length ≤ k) :
    nth l k = nth (l.filter (p < ·))
      (k - (l.filter (· < p)).length - (l.filter (· = p)).length) := by
  have hle : (l.filter (· < p)).length ≤ k := by omega
  rw [nth_split_ge l k hle, nth_append_right (eq_le_gt l) (by omega)]

end Split

/-- The least elements of a list come first. -/
theorem nth_of_forall_le {p : α} (h : ∀ x ∈ l, p ≤ x) (hk : k < l.count p) : nth l k = some p := by
  have hlt : (l.filter (· < p)).length = 0 := by
    rw [List.filter_eq_nil_iff.2 fun x hx => by simpa using h x hx, List.length_nil]
  have hlen : (l.filter (· = p)).length = l.count p := List.countP_eq_length_filter.symm
  exact nth_split_eq l k (by omega) (by omega)

end Rank
