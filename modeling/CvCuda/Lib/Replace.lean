import Mathlib.Tactic

/-! # Replacing the occurrences of a list in another

* `find w s`: where `w` first occurs in `s`.
* `replaceAll w r s`: the occurrences of `w`, found from left to right and not overlapping, replaced
  by `r` (`replaceAll_some`, `replaceAll_none`).
* `cutReplace w r n out rest`: the same of `rest` after `out`, the whole cut to `n` elements at each
  replacement; where nothing is cut it is `replaceAll` (`cutReplace_eq`).
-/

namespace Replace

variable {α : Type} [DecidableEq α]

/-- Where `w` first occurs. -/
def find (w : List α) : List α → Option Nat
  | [] => if w = [] then some 0 else none
  | c :: cs => if w <+: c :: cs then some 0 else (find w cs).map (· + 1)

/-- The occurrences of `w` replaced by `r`, after `k` elements that belong to the last one. -/
def replaceFrom (w r : List α) : Nat → List α → List α
  | _, [] => []
  | k + 1, _ :: cs => replaceFrom w r k cs
  | 0, c :: cs => if w <+: c :: cs then r ++ replaceFrom w r (w.length - 1) cs
    else c :: replaceFrom w r 0 cs

/-- The occurrences of `w` replaced by `r`, from left to right. -/
def replaceAll (w r s : List α) : List α := replaceFrom w r 0 s

variable {w r s out rest : List α} {p n : Nat}

theorem find_eq_none : find w s = none ↔ ∀ i, ¬w <+: s.drop i := by
  induction s with
  | nil =>
    rw [find]
    split_ifs with hw
    · exact iff_of_false id fun h => h 0 (hw ▸ List.nil_prefix)
    · refine iff_of_true rfl fun i h => hw ?_
      rw [List.drop_nil] at h
      exact List.prefix_nil.1 h
  | cons c cs ih =>
    rw [find]
    split_ifs with hw
    · exact iff_of_false id fun h => h 0 hw
    · rw [Option.map_eq_none_iff, ih]
      constructor
      · rintro h (_ | i)
        · exact hw
        · exact h i
      · exact fun h i => h (i + 1)

theorem find_eq_some :
    find w s = some p ↔ p ≤ s.length ∧ w <+: s.drop p ∧ ∀ i < p, ¬w <+: s.drop i := by
  induction s generalizing p with
  | nil =>
    rw [find, List.length_nil, Nat.le_zero]
    simp only [List.drop_nil, List.prefix_nil]
    split_ifs with hw
    · rw [Option.some.injEq]
      exact ⟨fun h => ⟨h.symm, hw, fun i hi => absurd hi (by omega)⟩, fun h => h.1.symm⟩
    · exact iff_of_false id fun h => hw h.2.1
  | cons c cs ih =>
    rw [find]
    split_ifs with hw
    · rw [Option.some.injEq]
      constructor
      · rintro rfl
        exact ⟨Nat.zero_le _, hw, fun i hi => absurd hi (Nat.not_lt_zero i)⟩
      · rintro ⟨-, -, hfirst⟩
        by_contra hp
        exact hfirst 0 (by omega) hw
    · rw [Option.map_eq_some_iff]
      constructor
      · rintro ⟨q, hq, rfl⟩
        obtain ⟨hle, hwq, hfirst⟩ := ih.1 hq
        refine ⟨Nat.succ_le_succ hle, hwq, ?_⟩
        rintro (_ | i) hi
        · exact hw
        · exact hfirst i (Nat.lt_of_succ_lt_succ hi)
      · rintro ⟨hle, hwp, hfirst⟩
        rcases p with _ | p
        · exact absurd hwp hw
        · exact ⟨p, ih.2 ⟨Nat.le_of_succ_le_succ hle, hwp,
            fun i hi => hfirst (i + 1) (Nat.succ_lt_succ hi)⟩, rfl⟩

/-- An occurrence lies within the list. -/
theorem find_le (h : find w s = some p) : p + w.length ≤ s.length := by
  obtain ⟨hp, hw, -⟩ := find_eq_some.1 h
  have := hw.length_le
  rw [List.length_drop] at this
  omega

theorem replaceFrom_skip (k : Nat) : replaceFrom w r k s = replaceFrom w r 0 (s.drop k) := by
  induction k generalizing s with
  | zero => rfl
  | succ k ih =>
    cases s with
    | nil => rfl
    | cons c cs => exact ih

theorem replaceAll_none (h : find w s = none) : replaceAll w r s = s := by
  induction s with
  | nil => rfl
  | cons c cs ih =>
    rw [find] at h
    split_ifs at h with hw
    rw [replaceAll, replaceFrom, if_neg hw]
    exact congrArg (c :: ·) (ih (Option.map_eq_none_iff.1 h))

/-- **The first occurrence is replaced**, and then what follows it. -/
theorem replaceAll_some (hw0 : w ≠ []) (h : find w s = some p) :
    replaceAll w r s = s.take p ++ r ++ replaceAll w r (s.drop (p + w.length)) := by
  induction s generalizing p with
  | nil =>
    rw [find, if_neg hw0] at h
    cases h
  | cons c cs ih =>
    rw [find] at h
    rw [replaceAll, replaceFrom]
    split_ifs at h ⊢ with hw
    · cases h
      obtain ⟨k, hk⟩ := Nat.exists_eq_succ_of_ne_zero (mt List.length_eq_zero_iff.1 hw0)
      rw [replaceFrom_skip, hk, Nat.zero_add, List.drop_succ_cons]
      rfl
    · obtain ⟨q, hq, rfl⟩ := Option.map_eq_some_iff.1 h
      rw [show q + 1 + w.length = q + w.length + 1 by omega, List.drop_succ_cons]
      exact congrArg (c :: ·) (ih hq)

/-- The occurrences of `w` in `rest` replaced by `r`, after `out`, and all of it cut to `n` elements
at each of them. -/
def cutReplace (w r : List α) (n : Nat) (out rest : List α) : List α :=
  match _h : find w rest with
  | none => out ++ rest
  | some p =>
    if _hw : w = [] then out ++ rest
    else
      cutReplace w r n ((out ++ rest.take p ++ r).take n)
        ((rest.drop (p + w.length)).take (n - (out.length + p + r.length)))
termination_by rest.length
decreasing_by
  have hle := find_le _h
  have hpos := List.length_pos_iff.2 _hw
  rw [List.length_take, List.length_drop]
  omega

theorem cutReplace_none (h : find w rest = none) : cutReplace w r n out rest = out ++ rest := by
  rw [cutReplace]
  split
  · rfl
  · rename_i hp
    rw [h] at hp
    cases hp

theorem cutReplace_some (hw : w ≠ []) (h : find w rest = some p) :
    cutReplace w r n out rest = cutReplace w r n ((out ++ rest.take p ++ r).take n)
      ((rest.drop (p + w.length)).take (n - (out.length + p + r.length))) := by
  rw [cutReplace]
  split
  · rename_i hp
    rw [h] at hp
    cases hp
  · rename_i hp
    rw [h] at hp
    cases hp
    rw [dif_neg hw]

theorem length_le_replaceAll (hw : w ≠ []) (hlen : w.length ≤ r.length) (s : List α) :
    s.length ≤ (replaceAll w r s).length := by
  induction hn : s.length using Nat.strong_induction_on generalizing s with
  | _ k ih =>
    subst hn
    rcases hf : find w s with _ | p
    · rw [replaceAll_none hf]
    · have hle := find_le hf
      have hpos := List.length_pos_iff.2 hw
      have hlt : (s.drop (p + w.length)).length < s.length := by
        rw [List.length_drop]
        omega
      have := ih _ hlt _ rfl
      rw [replaceAll_some hw hf, List.length_append, List.length_append, List.length_take]
      rw [List.length_drop] at this
      omega

/-- **Where nothing is cut**, all occurrences are replaced. -/
theorem cutReplace_eq (hw : w ≠ []) (hs : out.length + rest.length ≤ n)
    (hr : out.length + (replaceAll w r rest).length ≤ n) :
    cutReplace w r n out rest = out ++ replaceAll w r rest := by
  induction hn : rest.length using Nat.strong_induction_on generalizing out rest with
  | _ k ih =>
    subst hn
    rcases hf : find w rest with _ | p
    · rw [cutReplace_none hf, replaceAll_none hf]
    · have hle := find_le hf
      have hpos := List.length_pos_iff.2 hw
      have htake : (rest.take p).length = p := by
        rw [List.length_take]
        omega
      rw [replaceAll_some hw hf, List.length_append, List.length_append, htake] at hr
      have hrest : out.length + p + r.length + (rest.drop (p + w.length)).length ≤ n := by
        rcases Nat.le_total w.length r.length with h | h
        · have := length_le_replaceAll hw h (rest.drop (p + w.length))
          omega
        · rw [List.length_drop]
          omega
      have hout : (out ++ rest.take p ++ r).length = out.length + p + r.length := by
        rw [List.length_append, List.length_append, htake]
      have hcut : (out ++ rest.take p ++ r).take n = out ++ rest.take p ++ r :=
        List.take_of_length_le (by omega)
      have hcut' : (rest.drop (p + w.length)).take (n - (out.length + p + r.length)) =
          rest.drop (p + w.length) := List.take_of_length_le (by omega)
      rw [cutReplace_some hw hf, hcut, hcut',
        ih _ (by rw [List.length_drop]; omega) (by omega) (by omega) rfl, replaceAll_some hw hf]
      simp only [List.append_assoc]

end Replace
