import Mathlib.Tactic

/-! # What a block of threads computes together

Of a reduction, a scan and a sort over the values of a block's threads, what their callers rely
on, and what follows for a result.

* `ReducesBlock.iff`, `ReducesBlock.mem`: a reduction that selects.
* `key_le_of_countP`: where a sorted list begins.
-/

namespace BlockOps

/-- A reduction with an operation for which neither order nor grouping matter. -/
def ReducesBlock {α : Type} (blockReduce : (α → α → α) → List α → α) : Prop :=
  ∀ op, (∀ a b, op a b = op b a) → (∀ a b c, op (op a b) c = op a (op b c)) →
    ∀ a l, blockReduce op (a :: l) = l.foldl op a

/-- Sums of the items before each item of a block, and of all, as `unsigned`. -/
def ScansBlock (exclusiveSum : List Nat → List Nat × Nat) : Prop :=
  ∀ l, exclusiveSum l =
    ((List.range l.length).map fun k => (l.take k).sum % 2 ^ 32, l.sum % 2 ^ 32)

/-- The items by increasing keys. -/
def SortsBlock {α κ : Type} [LE κ] (key : α → κ) (sort : List α → List α) : Prop :=
  ∀ l, (sort l).Perm l ∧ (sort l).Pairwise fun a b => key a ≤ key b

section
variable {α : Type} {blockReduce : (α → α → α) → List α → α} (h : ReducesBlock blockReduce)
  {op : α → α → α} (hcomm : ∀ a b, op a b = op b a)
  (hassoc : ∀ a b c, op (op a b) c = op a (op b c)) {l : List α} (hne : l ≠ [])
include h hcomm hassoc hne

/-- What holds of a combination if it does of both values holds of the reduction if of all. -/
theorem ReducesBlock.iff {P : α → Prop} (hop : ∀ a b, P (op a b) ↔ P a ∧ P b) :
    P (blockReduce op l) ↔ ∀ a ∈ l, P a := by
  obtain ⟨a, l, rfl⟩ := List.exists_cons_of_ne_nil hne
  rw [h op hcomm hassoc]
  clear h hcomm hassoc hne
  induction l generalizing a with
  | nil => simp
  | cons b l ih =>
    rw [List.foldl_cons, ih]
    simp only [List.forall_mem_cons, hop, and_assoc]

theorem ReducesBlock.mem (hop : ∀ a b, op a b = a ∨ op a b = b) : blockReduce op l ∈ l := by
  obtain ⟨a, l, rfl⟩ := List.exists_cons_of_ne_nil hne
  rw [h op hcomm hassoc]
  clear h hcomm hassoc hne
  induction l generalizing a with
  | nil => exact List.mem_singleton_self a
  | cons b l ih =>
    have := ih (op a b)
    rcases hop a b with hab | hab
    · rw [hab] at this
      rw [List.foldl_cons, hab]
      rcases List.mem_cons.1 this with heq | hl
      · exact List.mem_cons.2 (.inl heq)
      · exact .tail a (.tail b hl)
    · rw [hab] at this
      rw [List.foldl_cons, hab]
      exact .tail a this

end

/-- As many items as have keys up to a bound are the first of a sorted list. -/
theorem key_le_of_countP {α κ : Type} [LinearOrder κ] {key : α → κ} {l : List α}
    (hs : l.Pairwise fun a b => key a ≤ key b) {v : κ} {k : Nat}
    (hk : k ≤ l.countP fun a => key a ≤ v) {j : Nat} (hj : j < k) {a : α} (ha : l[j]? = some a) :
    key a ≤ v := by
  induction l generalizing j k with
  | nil => cases ha
  | cons b l ih =>
    obtain ⟨hb, hs⟩ := List.pairwise_cons.1 hs
    by_cases hbv : key b ≤ v
    · rw [List.countP_cons_of_pos (by simpa using hbv)] at hk
      cases j with
      | zero => exact Option.some.inj ha ▸ hbv
      | succ j => exact ih hs (k := k - 1) (by omega) (by omega) ha
    · -- no key is as small as the bound
      have hnone : (b :: l).countP (fun a => key a ≤ v) = 0 := by
        refine List.countP_eq_zero.2 fun c hc => ?_
        rcases List.mem_cons.1 hc with rfl | hc
        · simpa using hbv
        · simpa using (not_le.1 hbv).trans_le (hb c hc)
      omega

end BlockOps
