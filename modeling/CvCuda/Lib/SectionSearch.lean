import Mathlib.Tactic

/-! # Searching a list in sections

A list, say from the newest element to the oldest, is searched for the first element that answers a
question: the elements behind it are taken to answer it, too. The list is gone through in sections;
in the first section whose last element answers, a binary search finds the element.

* `search`: the binary search.
* `find`: the search in sections, which gives the list from the element found on.
* `find_suffix`, `find_mem`: what it finds, and what is behind it.
-/

namespace SectionSearch

/-- The least number from `lo` to `hi` that is good, where all behind a good one are. -/
def search (good : Nat → Bool) : (fuel lo hi : Nat) → Nat
  | 0, lo, _ => lo
  | fuel + 1, lo, hi =>
    if lo < hi then
      if good ((lo + hi) / 2) then search good fuel lo ((lo + hi) / 2)
      else search good fuel ((lo + hi) / 2 + 1) hi
    else lo

section
variable {good : Nat → Bool} {fuel lo hi : Nat}

theorem search_le (h : lo ≤ hi) : search good fuel lo hi ≤ hi := by
  induction fuel generalizing lo hi with
  | zero => exact h
  | succ fuel ih =>
    rw [search]
    split_ifs with hlt hm
    · exact (ih (by omega)).trans (by omega)
    · exact ih (by omega)
    · exact h

/-- What is found before the end is good. -/
theorem search_good (hf : hi ≤ lo + fuel) (h : search good fuel lo hi < hi) :
    good (search good fuel lo hi) := by
  induction fuel generalizing lo hi with
  | zero =>
    rw [search] at h
    omega
  | succ fuel ih =>
    rw [search] at h ⊢
    split_ifs at h ⊢ with hlt hm
    · by_cases hend : search good fuel lo ((lo + hi) / 2) < (lo + hi) / 2
      · exact ih (by omega) hend
      · have hle : search good fuel lo ((lo + hi) / 2) ≤ (lo + hi) / 2 := search_le (by omega)
        rw [show search good fuel lo ((lo + hi) / 2) = (lo + hi) / 2 by omega]
        exact hm
    · exact ih (by omega) h
    · omega

/-- Nothing is found behind a number from which on all are good. -/
theorem search_le_of_good {x : Nat} (hf : hi ≤ lo + fuel) (hx : lo ≤ x) (hxh : x ≤ hi)
    (h : ∀ k, x ≤ k → k < hi → good k) : search good fuel lo hi ≤ x := by
  induction fuel generalizing lo hi with
  | zero => exact hx
  | succ fuel ih =>
    rw [search]
    split_ifs with hlt hm
    · by_cases hxm : x ≤ (lo + hi) / 2
      · exact ih (by omega) hx hxm fun k hk hkm => h k hk (by omega)
      · exact (search_le (by omega)).trans (by omega)
    · refine ih (by omega) ?_ hxh h
      by_contra hxm
      exact hm (h _ (by omega) (by omega))
    · exact hx

end

variable {α : Type*}

/-- The list from its first good element on, where all behind a good one are. -/
def find (len : Nat) (good : α → Bool) : (fuel : Nat) → List α → Option (List α)
  | 0, _ => none
  | _, [] => none
  | fuel + 1, x :: rest =>
    if good x then some (x :: rest)
    else
      let tmp := rest.take len
      match tmp.getLast? with
      | none => none
      | some last =>
        if good last then
          some (rest.drop (search (fun k => tmp[k]?.any good) tmp.length 0 tmp.length))
        else find len good fuel (rest.drop tmp.length)

section
variable {len fuel : Nat} {good : α → Bool} {l l' : List α}

/-- In a section whose last element is good, the search finds a good one. -/
theorem search_section {tmp : List α} {last : α} (h : tmp.getLast? = some last)
    (hl : good last) : ∃ y, tmp[search (fun k => tmp[k]?.any good) tmp.length 0 tmp.length]? =
      some y ∧ good y := by
  have hne : tmp ≠ [] := by
    rintro rfl
    cases h
  have hpos := List.length_pos_iff.2 hne
  have hlast : tmp[tmp.length - 1]? = some last := by rw [← List.getLast?_eq_getElem?, h]
  have hle : search (fun k => tmp[k]?.any good) tmp.length 0 tmp.length ≤ tmp.length - 1 := by
    refine search_le_of_good (by omega) (by omega) (by omega) fun k hk hlt => ?_
    rw [show k = tmp.length - 1 by omega, hlast]
    exact hl
  have hgood := @search_good (fun k => tmp[k]?.any good) tmp.length 0 tmp.length (by omega)
    (by omega)
  exact (Option.any_eq_true _ _).1 hgood

/-- What is found is the list from a good element on. -/
theorem find_suffix (h : find len good fuel l = some l') :
    l' <:+ l ∧ ∃ y ys, l' = y :: ys ∧ good y := by
  induction fuel generalizing l with
  | zero => cases h
  | succ fuel ih =>
    cases l with
    | nil => cases h
    | cons x rest =>
      rw [find] at h
      split_ifs at h with hx
      · cases h
        exact ⟨List.suffix_refl _, x, rest, rfl, hx⟩
      · cases hl : (rest.take len).getLast? with
        | none =>
          simp only [hl] at h
          cases h
        | some last =>
          simp only [hl] at h
          have hback := fun m => (List.drop_suffix m rest).trans (List.suffix_cons x rest)
          split_ifs at h with hlast
          · cases h
            obtain ⟨y, hy, hg⟩ := search_section hl hlast
            refine ⟨hback _, y, ?_⟩
            generalize search _ _ _ _ = m at hy ⊢
            rw [List.getElem?_take] at hy
            split_ifs at hy
            obtain ⟨hm, rfl⟩ := List.getElem?_eq_some_iff.1 hy
            exact ⟨_, List.drop_eq_getElem_cons hm, hg⟩
          · obtain ⟨hs, hy⟩ := ih h
            exact ⟨hs.trans (hback _), hy⟩

/-- An element that is good, as are all behind it, is found or is behind what is found. -/
theorem find_mem (hlen : 0 < len) {newer older : List α} {x : α}
    (hf : (newer ++ x :: older).length ≤ fuel) (h : ∀ y ∈ x :: older, good y) :
    ∃ l', find len good fuel (newer ++ x :: older) = some l' ∧ x :: older <:+ l' := by
  induction fuel generalizing newer with
  | zero => simp at hf
  | succ fuel ih =>
    cases newer with
    | nil =>
      refine ⟨x :: older, ?_, List.suffix_rfl⟩
      rw [List.nil_append, find, if_pos (h x List.mem_cons_self)]
    | cons y newer =>
      rw [List.cons_append, find]
      by_cases hy : good y
      · exact ⟨_, if_pos hy, (List.suffix_append newer _).trans (List.suffix_cons y _)⟩
      rw [if_neg hy]
      have hgood : ∀ k z, newer.length ≤ k → (newer ++ x :: older)[k]? = some z → good z := by
        intro k z hk hz
        rw [List.getElem?_append_right hk] at hz
        exact h z (List.mem_of_getElem? hz)
      have hdrop : ∀ m ≤ newer.length, x :: older <:+ (newer ++ x :: older).drop m := by
        intro m hm
        rw [List.drop_append_of_le_length hm]
        exact List.suffix_append _ _
      rw [List.cons_append, List.length_cons] at hf
      have hpos : (newer ++ x :: older).length ≠ 0 := by simp
      cases hl : ((newer ++ x :: older).take len).getLast? with
      | none =>
        rw [List.getLast?_eq_none_iff, List.take_eq_nil_iff] at hl
        rcases hl with hl | hl
        · omega
        · exact absurd (congrArg List.length hl) hpos
      | some last =>
        have hidx : (newer ++ x :: older)[((newer ++ x :: older).take len).length - 1]? =
            some last := by
          rw [List.getLast?_eq_getElem?, List.getElem?_take] at hl
          split_ifs at hl
          exact hl
        simp only [hl]
        by_cases hlast : good last
        · refine ⟨_, if_pos hlast, ?_⟩
          by_cases hin : newer.length ≤ ((newer ++ x :: older).take len).length
          · refine hdrop _ (search_le_of_good (by omega) (by omega) hin fun k hk hlt => ?_)
            have hk' : k < (newer ++ x :: older).length :=
              hlt.trans_le (List.length_take_le' _ _)
            rw [Option.any_eq_true]
            refine ⟨_, List.getElem?_eq_getElem hlt, ?_⟩
            rw [List.getElem_take]
            exact hgood k _ hk (List.getElem?_eq_getElem hk')
          · exact hdrop _ ((search_le (Nat.zero_le _)).trans (by omega))
        · -- the section ends before `x`
          have hle : ((newer ++ x :: older).take len).length ≤ newer.length := by
            by_contra hlt
            exact hlast (hgood _ _ (by omega) hidx)
          have hshort : 0 < ((newer ++ x :: older).take len).length := by
            rw [List.length_take]
            omega
          rw [if_neg hlast, List.drop_append_of_le_length hle]
          refine ih ?_
          rw [List.length_append, List.length_drop]
          rw [List.length_append] at hf
          omega

end

end SectionSearch
