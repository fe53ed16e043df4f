import Mathlib.Tactic

/-! # Values under labels

Lists of values whose positions have labels. A label without a value stands for 1; where a label is
given twice its last value counts, and where it is asked for twice the first position gets it.

* `values`: what labels stand for. `relabel`: the values of the labels that are asked for.
* `foldl_set`: setting one position after the other computes them.
* `values_relabel`, `relabel_relabel_iff`: what is left after a list in between.
* `prod_relabel`: the product of what is kept, and of what is lost.
-/

namespace Labelled

open Function (update update_self update_of_ne)

variable {κ α : Type} [DecidableEq κ] {ls ls' ls'' : List κ} {vs : List α}

section
variable [One α]

/-- What the labels stand for. -/
def values (ps : List (κ × α)) : κ → α := ps.foldl (fun f p => update f p.1 p.2) fun _ => 1

/-- The values of the labels, each at its first position. -/
def relabel (f : κ → α) : List κ → List α
  | [] => []
  | l :: ls => f l :: relabel (update f l 1) ls

@[simp] theorem length_relabel (f : κ → α) (ls : List κ) : (relabel f ls).length = ls.length := by
  induction ls generalizing f with
  | nil => rfl
  | cons l ls ih => exact congrArg Nat.succ (ih _)

/-- The positions of the labels `ls` tell two values apart exactly when one of `ls` does. -/
theorem relabel_inj {f g : κ → α} : relabel f ls = relabel g ls ↔ ∀ l ∈ ls, f l = g l := by
  induction ls generalizing f g with
  | nil => simp [relabel]
  | cons k ls ih =>
    rw [relabel, relabel, List.cons.injEq, ih, List.forall_mem_cons]
    refine and_congr_right fun hk => forall₂_congr fun l _ => ?_
    by_cases hl : l = k
    · subst hl
      simp [hk]
    · rw [update_of_ne hl, update_of_ne hl]

theorem relabel_congr {f g : κ → α} (h : ∀ l ∈ ls, f l = g l) : relabel f ls = relabel g ls :=
  relabel_inj.2 h

theorem relabel_of_nodup {f : κ → α} (h : ls.Nodup) : relabel f ls = ls.map f := by
  induction ls generalizing f with
  | nil => rfl
  | cons k ls ih =>
    obtain ⟨hk, h⟩ := List.nodup_cons.1 h
    rw [relabel, ih h, List.map_cons]
    congr 1
    refine List.map_congr_left fun l hl => update_of_ne ?_ _ _
    rintro rfl
    exact hk hl

theorem relabel_one : relabel (fun _ => (1 : α)) ls = List.replicate ls.length 1 := by
  induction ls with
  | nil => rfl
  | cons k ls ih =>
    rw [relabel, Function.update_eq_self, ih, List.length_cons, List.replicate_succ]

/-! ## Setting one position after the other -/

/-- Setting the first position of a label. Nothing happens where there is none. -/
theorem set_relabel (f : κ → α) (l : κ) (v : α) (ls : List κ) :
    (relabel f ls).set (ls.idxOf l) v = relabel (update f l v) ls := by
  induction ls generalizing f with
  | nil => rfl
  | cons k ls ih =>
    by_cases h : k = l
    · subst h
      rw [List.idxOf_cons_self, relabel, relabel, List.set_cons_zero, update_self,
        Function.update_idem]
    · rw [List.idxOf_cons_ne _ h, relabel, relabel, List.set_cons_succ, ih, update_of_ne h,
        Function.update_comm h]

/-- **Setting one position after the other** gives the labels what they stand for. -/
theorem foldl_set (ps : List (κ × α)) (ls : List κ) :
    ps.foldl (fun dst p => dst.set (ls.idxOf p.1) p.2) (List.replicate ls.length 1) =
      relabel (values ps) ls := by
  have hgen : ∀ f : κ → α, ps.foldl (fun dst p => dst.set (ls.idxOf p.1) p.2) (relabel f ls) =
      relabel (ps.foldl (fun f p => update f p.1 p.2) f) ls := by
    intro f
    induction ps generalizing f with
    | nil => rfl
    | cons p ps ih => rw [List.foldl_cons, List.foldl_cons, set_relabel, ih]
  rw [← relabel_one, hgen, values]

/-! ## What is left -/

/-- The values given, from those that were there. -/
theorem foldl_update_relabel (f g : κ → α) (ls : List κ) (l : κ) :
    (ls.zip (relabel f ls)).foldl (fun f p => update f p.1 p.2) g l =
      if ls.count l = 0 then g l else if ls.count l = 1 then f l else 1 := by
  induction ls generalizing f g with
  | nil => simp [relabel]
  | cons k ls ih =>
    rw [relabel, List.zip_cons_cons, List.foldl_cons, ih]
    by_cases h : k = l
    · subst h
      rcases hc : ls.count k with _ | _ | n <;> simp [hc]
    · simp [List.count_cons_of_ne h, Ne.symm h]

/-- **A list in between** leaves the values of the labels that it has exactly once. -/
theorem values_relabel (f : κ → α) (ls : List κ) (l : κ) :
    values (ls.zip (relabel f ls)) l = if ls.count l = 1 then f l else 1 := by
  rw [values, foldl_update_relabel]
  rcases ls.count l with _ | n <;> simp

/-- The labels `ls'` lose nothing of `ls''` exactly when those of it that they do not have once
stand for 1. -/
theorem relabel_relabel_iff (f : κ → α) :
    relabel (values (ls'.zip (relabel f ls'))) ls'' = relabel f ls'' ↔
      ∀ l ∈ ls'', ls'.count l ≠ 1 → f l = 1 := by
  rw [relabel_inj]
  refine forall₂_congr fun l _ => ?_
  rw [values_relabel]
  by_cases h : ls'.count l = 1
  · rw [if_pos h]
    exact iff_of_true rfl fun hne => absurd h hne
  · rw [if_neg h]
    exact ⟨fun he _ => he.symm, fun he => (he h).symm⟩

theorem values_of_notMem {l : κ} (h : l ∉ ls) : values (ls.zip vs) l = 1 := by
  have hgen : ∀ g : κ → α, (ls.zip vs).foldl (fun f p => update f p.1 p.2) g l = g l := by
    intro g
    induction ls generalizing g vs with
    | nil => rfl
    | cons k ls ih =>
      obtain ⟨hk, hls⟩ := not_or.1 (mt List.mem_cons.2 h)
      cases vs with
      | nil => rfl
      | cons v vs => rw [List.zip_cons_cons, List.foldl_cons, ih hls, update_of_ne hk]
  exact hgen _

/-- Labels that are given once stand for their values. -/
theorem relabel_self (hnodup : ls.Nodup) (hlen : ls.length = vs.length) :
    relabel (values (ls.zip vs)) ls = vs := by
  have hvs : ∃ f : κ → α, relabel f ls = vs := by
    induction ls generalizing vs with
    | nil => exact ⟨fun _ => 1, (List.length_eq_zero_iff.1 hlen.symm).symm⟩
    | cons k ls ih =>
      obtain ⟨v, vs, rfl⟩ := List.exists_cons_of_length_eq_add_one hlen.symm
      obtain ⟨hk, hnodup⟩ := List.nodup_cons.1 hnodup
      obtain ⟨f, rfl⟩ := ih hnodup (Nat.succ_inj.1 hlen)
      refine ⟨update f k v, ?_⟩
      rw [relabel, update_self, Function.update_idem]
      congr 1
      refine relabel_congr fun l hl => update_of_ne ?_ _ _
      rintro rfl
      exact hk hl
  obtain ⟨f, rfl⟩ := hvs
  refine relabel_congr fun l hl => ?_
  rw [values_relabel, if_pos (List.count_eq_one_of_mem hnodup hl)]

end

/-! ## Products -/

section
variable {M : Type} [CommMonoid M]

omit [DecidableEq κ] in
theorem prod_map_filter (f : κ → M) (p : κ → Prop) [DecidablePred p] (ls : List κ) :
    (ls.map f).prod =
      ((ls.filter p).map f).prod * ((ls.filter fun l => ¬p l).map f).prod := by
  induction ls with
  | nil => simp
  | cons k ls ih =>
    by_cases h : p k
    · simp [h, ih, mul_assoc]
    · simp [h, ih, mul_left_comm]

/-- **The product** of the values, counted by `φ`, is that of what the other labels keep of them, and
of what they lose. -/
theorem prod_relabel [One α] (φ : α → M) (hφ : φ 1 = 1) (hnodup : ls.Nodup) (hnodup' : ls'.Nodup)
    (hlen : ls.length = vs.length) :
    (vs.map φ).prod = ((relabel (values (ls.zip vs)) ls').map φ).prod *
      ((ls.filter fun l => l ∉ ls').map fun l => φ (values (ls.zip vs) l)).prod := by
  have hself : ls.map (fun l => φ (values (ls.zip vs) l)) = vs.map φ := by
    have hvs := relabel_self hnodup hlen
    rw [relabel_of_nodup hnodup] at hvs
    nth_rewrite 2 [← hvs]
    rw [List.map_map]
    rfl
  have hkept : (ls.filter fun l => l ∈ ls').Perm (ls'.filter fun l => l ∈ ls) := by
    refine (List.perm_ext_iff_of_nodup (hnodup.filter _) (hnodup'.filter _)).2 fun l => ?_
    simp [and_comm]
  have hnew : ((ls'.filter fun l => l ∉ ls).map fun l => φ (values (ls.zip vs) l)).prod = 1 := by
    refine List.prod_eq_one fun v hv => ?_
    obtain ⟨l, hl, rfl⟩ := List.mem_map.1 hv
    rw [values_of_notMem (by simpa using (List.mem_filter.1 hl).2), hφ]
  have hsplit := prod_map_filter (fun l => φ (values (ls.zip vs) l)) (fun l => l ∈ ls) ls'
  rw [hnew, mul_one, ← (hkept.map _).prod_eq] at hsplit
  rw [← hself, relabel_of_nodup hnodup', List.map_map]
  exact (prod_map_filter _ (fun l => l ∈ ls') ls).trans
    (congrArg (· * _) hsplit.symm)

end

end Labelled
