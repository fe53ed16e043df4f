import CvCuda.Lib.Strides
import CvCuda.Nvcv.Proof.Requirements
import CvCuda.Nvcv.Proof.TensorWrap

/-! # What a tensor's memory requirements hold

`CalcRequirements` computes the strides and the size of the buffer from the last dimension down,
and checks nothing on its way.

* `stride`: the strides as they are meant, without bounds; `calcStrides_iff`: when they fit.
* `rowAlignment_iff`, `baseAlignment_iff`, `addBuffer_iff`: when each part has an outcome.
* `Sufficient`: what the requirements have to satisfy; `calcRequirements_returns`: those that are
  returned do.
* `calcRequirements_sufficient_iff`: the call returns sufficient requirements, or throws, exactly
  under `RequirementsFit`; of dimensions that are not empty this asks that the size fits
  (`stridesFit_iff`).
-/

namespace Nvcv

open Outcome Rounding Strides

/-! ## Alignments -/

/-- The row alignment that is asked for. -/
def RowAlign (dev : Device) (dtype : DataType) (userRowAlign : Int32) (a : Nat) : Prop :=
  if userRowAlign = 0 then ∃ p, dev.texturePitchAlignment = .ok p ∧
    a = Int.lcm (min p 32).toInt (roundUpNextPowerOfTwo dtype.strideBytes).toInt
  else isPowerOfTwo userRowAlign ∧ ∃ b, dtype.alignment = some b ∧
    a = Int.lcm userRowAlign.toInt b.toInt

/-- The base alignment that is asked for with rows aligned to `a`. -/
def BaseAlign (dev : Device) (a : Nat) (userBaseAlign : Int32) (b : Nat) : Prop :=
  if userBaseAlign = 0 then ∃ t, dev.textureAlignment = .ok t ∧ b = Int.lcm t.toInt a
  else isPowerOfTwo userBaseAlign ∧ b = Int.lcm a userBaseAlign.toInt

theorem int32?_eq_some {x : Int} {y : Int32} :
    int32? x = some y ↔ (-2 ^ 31 ≤ x ∧ x < 2 ^ 31) ∧ y.toInt = x := by
  constructor
  · intro h
    refine ⟨?_, toInt_int32 h⟩
    unfold int32? at h
    split_ifs at h with hx
    exact hx
  · rintro ⟨hx, rfl⟩
    rw [int32?, if_pos hx, Int32.ofInt_toInt]

theorem lcm_eq_some {m n y : Int32} :
    lcm m n = some y ↔ Int.lcm m.toInt n.toInt < 2 ^ 31 ∧ y.toInt = Int.lcm m.toInt n.toInt := by
  rw [lcm, int32?_eq_some]
  omega

theorem exists_lcm {m n : Int32} :
    (∃ y, lcm m n = some y) ↔ Int.lcm m.toInt n.toInt < 2 ^ 31 := by
  constructor
  · rintro ⟨y, h⟩
    exact (lcm_eq_some.1 h).1
  · intro h
    exact ⟨.ofInt (Int.lcm m.toInt n.toInt),
      lcm_eq_some.2 ⟨h, Int32.toInt_ofInt_of_le (by omega) (by omega)⟩⟩

/-- The default row alignment is at most 32 bytes. -/
theorem lcm_default_le {dev : Device} {p : Int32} (dtype : DataType)
    (hp : dev.texturePitchAlignment = .ok p) :
    Int.lcm (min p 32).toInt (roundUpNextPowerOfTwo dtype.strideBytes).toInt ≤ 32 := by
  by_cases hs : dtype.strideBytes = 0
  · rw [hs, show (roundUpNextPowerOfTwo 0).toInt = 0 from rfl, Int.lcm_zero_right]
    exact Nat.zero_le _
  · obtain ⟨i, hi, hpi⟩ := dev.isPow2 p hp
    obtain ⟨j, hj, hsj⟩ := roundUpNextPowerOfTwo_strideBytes hs
    obtain ⟨k, hk, hlcm⟩ := lcm_two_pow (toInt_min_32 hpi) hsj
    have : (2 : Int) ^ k ≤ 2 ^ 5 := by
      exact_mod_cast Nat.pow_le_pow_right (by decide : 0 < 2) (by omega : k ≤ 5)
    omega

/-- **The row alignment** has an outcome where the data type has an alignment, if it is needed,
and the common multiple is an `int`. -/
theorem rowAlignment_iff {dev : Device} {dtype : DataType} {u : Int32} :
    Defined (Tensor.rowAlignment dev dtype u) ↔
      (u ≠ 0 → isPowerOfTwo u → ∃ b, dtype.alignment = some b) ∧
        ∀ a, RowAlign dev dtype u a → a < 2 ^ 31 := by
  unfold Tensor.rowAlignment RowAlign
  by_cases hu : u = 0
  · simp only [if_pos hu]
    simp only [hu, ne_eq, not_true, false_implies, true_and, defined_bind, defined_ofExcept,
      defined_pure, implies_true, true_iff, forall_exists_index, and_imp]
    rintro a p hp rfl
    have := lcm_default_le dtype hp
    omega
  · simp only [if_neg hu]
    rw [defined_refuse_bind, not_not]
    simp only [ne_eq, hu, not_false_eq_true, true_implies, defined_bind, defined_lift,
      returns_lift, exists_lcm, forall_exists_index, and_imp]
    constructor
    · intro h
      refine ⟨fun hp => (h hp).1, ?_⟩
      rintro _ hp b hb rfl
      exact (h hp).2 b hb
    · rintro ⟨h1, h2⟩ hp
      exact ⟨h1 hp, fun b hb => h2 _ hp b hb rfl⟩

theorem returns_rowAlignment {dev : Device} {dtype : DataType} {u r : Int32} :
    Returns (Tensor.rowAlignment dev dtype u) r ↔
      ∃ a : Nat, RowAlign dev dtype u a ∧ a < 2 ^ 31 ∧ r.toInt = a := by
  unfold Tensor.rowAlignment RowAlign
  by_cases hu : u = 0
  · simp only [if_pos hu, returns_bind, returns_ofExcept, returns_pure]
    constructor
    · rintro ⟨p, hp, rfl⟩
      have := lcm_default_le dtype hp
      exact ⟨_, ⟨p, hp, rfl⟩, by omega, Int32.toInt_ofInt_of_le (by omega) (by omega)⟩
    · rintro ⟨_, ⟨p, hp, rfl⟩, hlt, hr⟩
      refine ⟨p, hp, ?_⟩
      rw [← Int32.toInt_inj, hr]
      exact Int32.toInt_ofInt_of_le (by omega) (by omega)
  · simp only [if_neg hu]
    rw [returns_refuse_bind, not_not]
    simp only [returns_bind, returns_lift, lcm_eq_some]
    constructor
    · rintro ⟨hp, b, hb, hlt, hr⟩
      exact ⟨_, ⟨hp, b, hb, rfl⟩, hlt, hr⟩
    · rintro ⟨_, ⟨hp, b, hb, rfl⟩, hlt, hr⟩
      exact ⟨hp, b, hb, hlt, hr⟩

theorem baseAlignment_iff {dev : Device} {r u : Int32} {a : Nat} (hr : r.toInt = a) :
    Defined (Tensor.baseAlignment dev r u) ↔ ∀ b, BaseAlign dev a u b → b < 2 ^ 31 := by
  unfold Tensor.baseAlignment BaseAlign
  by_cases hu : u = 0
  · simp only [if_pos hu, defined_bind, defined_ofExcept, true_and, returns_ofExcept, defined_lift,
      exists_lcm, hr, defined_refuse, defined_pure, implies_true, and_true, forall_exists_index,
      and_imp]
    constructor
    · rintro h _ t ht rfl
      exact h t ht
    · intro h t ht
      exact h _ t ht rfl
  · simp only [if_neg hu]
    rw [defined_refuse_bind, not_not]
    simp only [defined_lift, exists_lcm, hr, and_imp]
    constructor
    · rintro h _ hp rfl
      exact h hp
    · intro h hp
      exact h _ hp rfl

/-- Whether the base alignment is one that the code can use. -/
def Usable (userBaseAlign : Int32) (b : Nat) : Prop :=
  0 < b ∧ (userBaseAlign = 0 → b ≤ 2 ^ 30)

/-- **The base alignment** is a power of two where it can be used, and not positive elsewhere. -/
theorem returns_baseAlignment {dev : Device} {r u x : Int32} {a : Nat} (hr : r.toInt = a)
    (ha : a = 0 ∨ ∃ k < 31, a = 2 ^ k) (h : Returns (Tensor.baseAlignment dev r u) x) :
    ∃ b, BaseAlign dev a u b ∧
      (Usable u b ∧ (∃ k < 31, x.toInt = 2 ^ k) ∨ ¬Usable u b ∧ x.toInt ≤ 0) := by
  unfold Tensor.baseAlignment at h
  by_cases hu : u = 0
  · rw [if_pos hu] at h
    obtain ⟨t, ht, h⟩ := returns_bind.1 h
    obtain ⟨y, hy, h⟩ := returns_bind.1 h
    obtain ⟨hlt, hy⟩ := lcm_eq_some.1 (returns_lift.1 hy)
    rw [hr] at hlt hy
    have hx := returns_pure.1 (returns_refuse_bind.1 h).2
    refine ⟨_, by rw [BaseAlign, if_pos hu]; exact ⟨t, returns_ofExcept.1 ht, rfl⟩, ?_⟩
    generalize Int.lcm t.toInt a = b at hlt hy
    rcases Nat.eq_zero_or_pos b with rfl | hb
    · obtain rfl : y = 0 := Int32.toInt_inj.1 hy
      exact .inr ⟨fun h => absurd h.1 (lt_irrefl 0), by rw [← hx]; decide⟩
    · have hz := toInt_roundUpNextPowerOfTwo (x := y) (by omega)
      rw [hy, Int.toNat_natCast] at hz
      have hx' : x.toInt = ((2 : Int) ^ (b - 1).size).bmod (2 ^ 32) := by
        rw [← hx, Int64.toInt_toInt32, hz]
      by_cases hle : b ≤ 2 ^ 30
      · have hs : (b - 1).size ≤ 30 := Nat.size_le.2 (by omega)
        have h2 : (2 : Int) ^ (b - 1).size ≤ 2 ^ 30 := by
          exact_mod_cast Nat.pow_le_pow_right (by decide : 0 < 2) hs
        have h0 : (0 : Int) < 2 ^ (b - 1).size := by positivity
        refine .inl ⟨⟨hb, fun _ => hle⟩, (b - 1).size, by omega, ?_⟩
        rw [hx']
        exact Int.bmod_eq_of_le (by omega) (by omega)
      · -- the next power of two is no `int`
        have hs : (b - 1).size = 31 :=
          le_antisymm (Nat.size_le.2 (by omega)) (Nat.lt_size.2 (by omega))
        refine .inr ⟨fun h => hle (h.2 hu), ?_⟩
        rw [hx', hs]
        decide
  · rw [if_neg hu] at h
    obtain ⟨hp, h⟩ := returns_refuse_bind.1 h
    obtain ⟨hlt, hx⟩ := lcm_eq_some.1 (returns_lift.1 h)
    rw [hr] at hlt hx
    refine ⟨_, by rw [BaseAlign, if_neg hu]; exact ⟨not_not.1 hp, rfl⟩, ?_⟩
    rcases ha with rfl | ⟨k, hk, rfl⟩
    · rw [Nat.cast_zero, Int.lcm_zero_left] at hx ⊢
      exact .inr ⟨fun h => absurd h.1 (lt_irrefl 0), by omega⟩
    · have hu0 : u.toInt ≠ 0 := fun h => hu (Int32.toInt_inj.1 h)
      have habs : u.toInt.natAbs < 2 ^ 31 := by
        refine lt_of_le_of_lt (Nat.le_of_dvd ?_ (Nat.dvd_lcm_right _ _)) hlt
        exact Nat.lcm_pos (by positivity) (Int.natAbs_pos.2 hu0)
      obtain ⟨j, hj, huj⟩ := toInt_of_isPowerOfTwo (not_not.1 hp) hu habs
      obtain ⟨i, hi, hlcm⟩ := lcm_two_pow (x := ((2 ^ k : Nat) : Int)) (by push_cast; rfl) huj
      have h0 : (0 : Int) < 2 ^ i := by positivity
      refine .inl ⟨⟨by omega, fun h => absurd h hu⟩, i, by omega, ?_⟩
      rw [hx, hlcm]

/-! ## Strides -/

/-- A value of type `int64_t`. -/
def InInt64 (x : Int) : Prop := -2 ^ 63 ≤ x ∧ x < 2 ^ 63

theorem inInt64_toInt (v : Int64) : InInt64 v.toInt := ⟨v.le_toInt, v.toInt_lt⟩

section
variable (elem : Int) (firstPacked : Nat) (rowAlign : Int)

/-- The stride of the first of the dimensions from `d` on, as it is meant. -/
def stride : Nat → List Int → Int
  | d, _ :: n :: ns =>
    let packed := n * stride (d + 1) (n :: ns)
    if d + 1 = firstPacked then (packed + (rowAlign - 1)) / rowAlign * rowAlign else packed
  | _, _ => elem

/-- What is computed for the strides of the dimensions from `d` on fits. -/
def StridesFit : Nat → List Int → Prop
  | d, _ :: n :: ns =>
    let packed := n * stride elem firstPacked rowAlign (d + 1) (n :: ns)
    StridesFit (d + 1) (n :: ns) ∧ InInt64 packed ∧
      (d + 1 = firstPacked → InInt64 (packed + (rowAlign - 1)))
  | _, _ => True

end

section
variable {e : Int64} {fp : Nat} {ra : Int32} (hra : ra = 0 ∨ ∃ k < 31, ra.toInt = 2 ^ k)
include hra

/-- **The strides that are computed** are those that are meant. -/
theorem calcStrides_spec {d : Nat} {sh ss : List Int64}
    (h : Tensor.calcStrides e fp ra d sh = some ss) :
    StridesFit e.toInt fp ra.toInt d (sh.map Int64.toInt) ∧
      ∀ i < sh.length, (ss.getD i 0).toInt =
        stride e.toInt fp ra.toInt (d + i) ((sh.map Int64.toInt).drop i) := by
  induction sh generalizing d ss with
  | nil => exact ⟨trivial, fun i hi => absurd hi (Nat.not_lt_zero i)⟩
  | cons m sh ih =>
    cases sh with
    | nil =>
      cases h
      refine ⟨trivial, fun i hi => ?_⟩
      obtain rfl : i = 0 := by simpa using hi
      simp only [List.getD_cons_zero, List.map_cons, List.map_nil, List.drop_zero, stride]
    | cons n ns =>
      obtain ⟨t, s, ss', v, rfl, hc, hv, ht⟩ := calcStrides_cons h
      obtain ⟨hfit, heq⟩ := ih hc
      have hs : s.toInt = stride e.toInt fp ra.toInt (d + 1) ((n :: ns).map Int64.toInt) := by
        simpa only [List.getD_cons_zero, Nat.add_zero, List.drop_zero] using heq 0 (Nat.succ_pos _)
      have hvr : InInt64 v.toInt := inInt64_toInt v
      rw [hv, hs] at hvr
      have ht' : (d + 1 = fp → InInt64 (v.toInt + (ra.toInt - 1))) ∧
          t.toInt = stride e.toInt fp ra.toInt d ((m :: n :: ns).map Int64.toInt) := by
        simp only [List.map_cons, stride] at hs ⊢
        rw [← hs, ← hv]
        split_ifs at ht ⊢ with hd
        · obtain ⟨hfit, heq⟩ := (roundUpPowerOfTwo_iff hra).1 ht
          exact ⟨fun _ => hfit, heq⟩
        · cases ht
          exact ⟨fun h => absurd h hd, rfl⟩
      rw [hv, hs] at ht'
      refine ⟨⟨hfit, hvr, ht'.1⟩, fun i hi => ?_⟩
      rcases i with _ | i
      · rw [List.getD_cons_zero, Nat.add_zero, List.drop_zero]
        exact ht'.2
      · simp only [List.getD_cons_succ, heq i (Nat.lt_of_succ_lt_succ hi), List.map_cons,
          List.drop_succ_cons, Nat.add_right_comm, Nat.add_assoc]

theorem exists_calcStrides {d : Nat} {sh : List Int64}
    (h : StridesFit e.toInt fp ra.toInt d (sh.map Int64.toInt)) :
    ∃ ss, Tensor.calcStrides e fp ra d sh = some ss := by
  induction sh generalizing d with
  | nil => exact ⟨[], rfl⟩
  | cons m sh ih =>
    cases sh with
    | nil => exact ⟨[e], rfl⟩
    | cons n ns =>
      obtain ⟨hfit, hpacked, hround⟩ := h
      obtain ⟨ss, hc⟩ := ih hfit
      have hs := (calcStrides_spec hra hc).2 0 (Nat.succ_pos _)
      have hlen := length_calcStrides hc
      rcases ss with _ | ⟨s, ss⟩
      · cases hlen
      have hs : s.toInt = stride e.toInt fp ra.toInt (d + 1) ((n :: ns).map Int64.toInt) := hs
      simp only [List.map_cons] at hs
      rw [← hs] at hpacked hround
      have hv := int64?_eq_some.2 ⟨hpacked, Int64.toInt_ofInt_of_le hpacked.1 hpacked.2⟩
      unfold Tensor.calcStrides
      simp only [hc, hv, Option.bind_eq_bind, Option.bind_some, Option.pure_def]
      split_ifs with hd
      · have hw := hround hd
        rw [← Int64.toInt_ofInt_of_le hpacked.1 hpacked.2] at hw
        obtain ⟨r, hr⟩ := exists_roundUpPowerOfTwo hw
        exact ⟨_, Option.bind_eq_some_iff.2 ⟨r, hr, rfl⟩⟩
      · exact ⟨_, rfl⟩

theorem calcStrides_iff {d : Nat} {sh : List Int64} :
    (∃ ss, Tensor.calcStrides e fp ra d sh = some ss) ↔
      StridesFit e.toInt fp ra.toInt d (sh.map Int64.toInt) := by
  constructor
  · rintro ⟨ss, h⟩
    exact (calcStrides_spec hra h).1
  · exact exists_calcStrides hra

end

/-- Rounding up reaches the value, and does not overflow on its way below a multiple. -/
theorem roundUp_int {p : Int} {k : Nat} (hk : k < 63) :
    p ≤ (p + (2 ^ k - 1)) / 2 ^ k * 2 ^ k ∧
      ((p + (2 ^ k - 1)) / 2 ^ k * 2 ^ k < 2 ^ 63 → p + (2 ^ k - 1) < 2 ^ 63) := by
  have h2k : (0 : Int) < 2 ^ k := by positivity
  have hdm := Int.mul_ediv_add_emod (p + (2 ^ k - 1)) (2 ^ k)
  have hmod := Int.emod_lt_of_pos (p + (2 ^ k - 1)) h2k
  rw [mul_comm] at hdm
  refine ⟨by omega, fun h => ?_⟩
  have h63 : (2 : Int) ^ 63 = 2 ^ (63 - k) * 2 ^ k := by
    rw [← pow_add, Nat.sub_add_cancel hk.le]
  rw [h63] at h ⊢
  have hq : (p + (2 ^ k - 1)) / 2 ^ k + 1 ≤ 2 ^ (63 - k) := Int.lt_of_mul_lt_mul_right h h2k.le
  have := mul_le_mul_of_nonneg_right hq h2k.le
  rw [add_mul, one_mul] at this
  omega

/-- **Where no dimension is empty, everything fits that the size does.** -/
theorem stridesFit_iff {e : Int} {fp k : Nat} (hk : k < 63) (he : 0 < e) {d : Nat}
    {ns : List Int} (hpos : ∀ n ∈ ns, 1 ≤ n) :
    StridesFit e fp (2 ^ k) d ns ∧ InInt64 (stride e fp (2 ^ k) d ns * ns.headD 0) ↔
      stride e fp (2 ^ k) d ns * ns.headD 0 < 2 ^ 63 := by
  have main : ∀ {d : Nat} {ns : List Int}, (∀ n ∈ ns, 1 ≤ n) → 0 < stride e fp (2 ^ k) d ns ∧
      (stride e fp (2 ^ k) d ns < 2 ^ 63 → StridesFit e fp (2 ^ k) d ns) := by
    intro d ns hpos
    induction ns generalizing d with
    | nil => exact ⟨he, fun _ => trivial⟩
    | cons m ns ih =>
      cases ns with
      | nil => exact ⟨he, fun _ => trivial⟩
      | cons n ns =>
        have hn : 1 ≤ n := hpos n (.tail _ (.head _))
        obtain ⟨hs, hfit⟩ := @ih (d + 1) fun x hx => hpos x (.tail _ hx)
        rw [StridesFit, stride]
        generalize stride e fp (2 ^ k) (d + 1) (n :: ns) = s at hs hfit
        have hns : s ≤ n * s := le_mul_of_one_le_left hs.le hn
        obtain ⟨hle, hround⟩ := @roundUp_int (n * s) k hk
        have h2k : (0 : Int) < 2 ^ k := by positivity
        split_ifs with hd
        · refine ⟨by omega, fun h => ⟨hfit (by omega), ⟨by omega, by omega⟩, fun _ => ?_⟩⟩
          exact ⟨by omega, hround h⟩
        · exact ⟨by omega, fun h => ⟨hfit (by omega), ⟨by omega, h⟩, fun h => absurd h hd⟩⟩
  obtain ⟨hs, hfit⟩ := main (d := d) hpos
  refine ⟨fun h => h.2.2, fun h => ?_⟩
  rcases ns with _ | ⟨n, ns⟩
  · exact ⟨trivial, by simp [InInt64]⟩
  · rw [List.headD_cons] at h ⊢
    have hn : 1 ≤ n := hpos n (.head _)
    have hle := le_mul_of_one_le_right hs.le hn
    exact ⟨hfit (by omega), by omega, h⟩

/-- Where no dimension is empty, every stride reaches over the dimension after it. -/
theorem nested_calcStrides {e : Int64} {fp k : Nat} {ra : Int32} (hk : k < 31)
    (hra : ra.toInt = 2 ^ k) (he : 0 < e.toInt) {d : Nat} {sh ss : List Int64} (hne : sh ≠ [])
    (hpos : ∀ n ∈ sh, 1 ≤ n.toInt) (h : Tensor.calcStrides e fp ra d sh = some ss) :
    Nested e.toInt (sh.map Int64.toInt) (ss.map Int64.toInt) ∧ 0 < (ss.headD 0).toInt := by
  induction sh generalizing d ss with
  | nil => exact absurd rfl hne
  | cons m sh ih =>
    cases sh with
    | nil =>
      cases h
      exact ⟨.last _, he⟩
    | cons n ns =>
      obtain ⟨t, s, ss', v, rfl, hc, hv, ht⟩ := calcStrides_cons h
      obtain ⟨hn, hs⟩ := ih (List.cons_ne_nil _ _) (fun x hx => hpos x (.tail _ hx)) hc
      rw [List.headD_cons] at hs ⊢
      have hv0 : 0 < v.toInt := by
        rw [hv]
        exact Int.mul_pos (by have := hpos n (.tail _ (.head _)); omega) hs
      have hvt := (stride_spec hk hra hv0.le ht).1
      exact ⟨.cons _ (hv ▸ hvt) hn, by omega⟩

theorem toInt_get_replicate (i : Fin maxLog2BlockSize) :
    ((Vector.replicate maxLog2BlockSize (0 : Int64)).get i).toInt = 0 := by
  have hget : (Vector.replicate maxLog2BlockSize (0 : Int64)).get i = 0 :=
    Vector.getElem_replicate i.2
  rw [hget, Int64.toInt_zero]

theorem totalSize_replicate : totalSize (.replicate maxLog2BlockSize 0) = 0 :=
  Finset.sum_eq_zero fun i _ => by rw [toInt_get_replicate, zero_mul]

/-- The blocks hold what was added to none. -/
theorem totalSize_addBuffer {bufSize a : Int64} {r : MemRequirements} (hb : 0 ≤ bufSize.toInt)
    (h : Returns (addBuffer (.replicate _ 0) bufSize a) r) : bufSize.toInt ≤ totalSize r := by
  obtain ⟨n, ⟨⟨-, hn⟩, -⟩, ht⟩ := addBuffer_exact hb (fun i => (toInt_get_replicate i).ge) h
  have h0 := totalSize_replicate
  omega

/-! ## The requirements -/

/-- The first of the packed dimensions. -/
def firstPacked (layout : TensorLayout) (rank : Nat) : Nat :=
  if TensorLayout.wc <:+ layout.labels then rank - 2 else rank - 1

namespace TensorRequirements
variable (r : TensorRequirements)

/-- The sizes of the dimensions. -/
def dims : List Int := (r.shape.toList.take r.rank).map Int64.toInt

/-- The strides of the dimensions. -/
def dimStrides : List Int := (r.strides.toList.take r.rank).map Int64.toInt

/-- The bytes of one element. -/
def elemSize : Int := r.dtype.strideBytes.toInt

/-- **What requirements have to hold**: every element lies within the memory, apart from the
others, rows start at multiples of their alignment, and no stride is other than it is meant. -/
structure Sufficient (rowAlign : Nat) : Prop where
  within : ∀ is, Within r.dims is → 0 ≤ address r.dimStrides is ∧
    address r.dimStrides is + r.elemSize ≤ totalSize r.cudaMem
  apart : ∀ is js, Within r.dims is → Within r.dims js → is ≠ js →
    address r.dimStrides is + r.elemSize ≤ address r.dimStrides js ∨
      address r.dimStrides js + r.elemSize ≤ address r.dimStrides is
  rows : 0 < firstPacked r.layout r.rank →
    (rowAlign : Int) ∣ r.dimStrides.getD (firstPacked r.layout r.rank - 1) 0
  exact : ∀ i < r.rank, r.dimStrides.getD i 0 =
    stride r.elemSize (firstPacked r.layout r.rank) rowAlign i (r.dims.drop i)

end TensorRequirements

theorem dvd_stride {e a : Int} {fp d : Nat} {ns : List Int} (hd : d + 1 = fp)
    (hlen : 2 ≤ ns.length) : a ∣ stride e fp a d ns := by
  rcases ns with _ | ⟨m, _ | ⟨n, ns⟩⟩
  · simp at hlen
  · simp at hlen
  · rw [stride, if_pos hd]
    exact Int.dvd_mul_left _ _

theorem mem_of_within {ns is : List Int} (h : Within ns is) : ∀ n ∈ ns, 1 ≤ n := by
  induction h with
  | nil => exact fun n hn => absurd hn List.not_mem_nil
  | cons hi _ ih => exact List.forall_mem_cons.2 ⟨by omega, ih⟩

theorem headD_mem {ns : List Int} (h : ns ≠ []) : ns.headD 0 ∈ ns := by
  cases ns with
  | nil => exact absurd rfl h
  | cons n ns => exact List.mem_cons_self

theorem headD_map (ns : List Int64) : (ns.map Int64.toInt).headD 0 = (ns.headD 0).toInt := by
  cases ns with
  | nil => exact Int64.toInt_zero.symm
  | cons n ns => rfl

/-- Strides and a buffer that are computed as they are meant are sufficient. -/
theorem sufficient_of {r : TensorRequirements} {ra : Int32} {bufSize align : Int64} {k : Nat}
    {sh ss : List Int64} (hrank : r.rank = sh.length) (hne : sh ≠ [])
    (hdims : r.dims = sh.map Int64.toInt) (hstr : r.dimStrides = ss.map Int64.toInt)
    (helem : 0 < r.elemSize) (hk : k < 31) (hra : ra.toInt = 2 ^ k)
    (hss : Tensor.calcStrides r.dtype.strideBytes.toInt64 (firstPacked r.layout r.rank) ra 0 sh =
      some ss)
    (hsize : bufSize.toInt = (ss.headD 0).toInt * (sh.headD 0).toInt)
    (hadd : Returns (addBuffer (.replicate _ 0) bufSize align) r.cudaMem) :
    r.Sufficient (2 ^ k) := by
  have he : r.dtype.strideBytes.toInt64.toInt = r.elemSize := Int32.toInt_toInt64 _
  have hlen := length_calcStrides hss
  have hexact : ∀ i < r.rank, r.dimStrides.getD i 0 =
      stride r.elemSize (firstPacked r.layout r.rank) ((2 ^ k : Nat) : Int) i (r.dims.drop i) := by
    intro i hi
    have h := (calcStrides_spec (.inr ⟨k, hk, hra⟩) hss).2 i (by omega)
    rw [he, hra, Nat.zero_add] at h
    rw [hstr, hdims, List.getD_eq_getElem?_getD, List.getElem?_map]
    rw [List.getD_eq_getElem?_getD] at h
    rw [List.getElem?_eq_getElem (show i < ss.length by omega)] at h ⊢
    push_cast
    exact h
  have hnested : ∀ is, Within r.dims is →
      Nested r.elemSize r.dims r.dimStrides ∧ 0 < (ss.headD 0).toInt := by
    intro is his
    rw [hdims] at his
    rw [← he] at helem
    have := nested_calcStrides hk hra helem hne (fun n hn => mem_of_within his _
      (List.mem_map_of_mem hn)) hss
    rwa [hdims, hstr, ← he]
  refine ⟨fun is his => ?_, fun is js his hjs hne => ?_, fun hfp => ?_, hexact⟩
  · obtain ⟨hn, hs⟩ := hnested is his
    obtain ⟨-, h0, h1⟩ := hn.reach helem.le his
    have hsh := mem_of_within (hdims ▸ his) _ (headD_mem (mt List.map_eq_nil_iff.1 hne))
    have hreach : r.dims.headD 0 * r.dimStrides.headD 0 = bufSize.toInt := by
      rw [hdims, hstr, headD_map, headD_map, mul_comm, hsize]
    rw [hreach] at h1
    rw [headD_map] at hsh
    refine ⟨h0, h1.trans (totalSize_addBuffer ?_ hadd)⟩
    rw [hsize]
    exact Int.mul_nonneg hs.le (by omega)
  · exact (hnested is his).1.apart helem.le his hjs hne
  · have hlt : firstPacked r.layout r.rank ≤ r.rank - 1 := by
      unfold firstPacked
      split_ifs <;> omega
    rw [hexact _ (by omega)]
    refine dvd_stride (by omega) ?_
    rw [List.length_drop, hdims, List.length_map]
    omega

section
variable {dev : Device} {rank : Int32} {shape : Nat → Int64} {dtype : DataType}
  {layout : TensorLayout} {userBaseAlign userRowAlign : Int32}

theorem RowAlign.unique {a b : Nat} (ha : RowAlign dev dtype userRowAlign a)
    (hb : RowAlign dev dtype userRowAlign b) : a = b := by
  unfold RowAlign at ha hb
  split_ifs at ha hb
  · obtain ⟨p, hp, rfl⟩ := ha
    obtain ⟨q, hq, rfl⟩ := hb
    cases hp.symm.trans hq
    rfl
  · obtain ⟨-, x, hx, rfl⟩ := ha
    obtain ⟨-, y, hy, rfl⟩ := hb
    cases hx.symm.trans hy
    rfl

/-- The row alignment is a power of two, or none. -/
theorem rowAlign_cases {ra : Int32} (h : Returns (Tensor.rowAlignment dev dtype userRowAlign) ra) :
    ra = 0 ∨ ∃ k < 31, ra.toInt = 2 ^ k := by
  by_cases h0 : ra = 0
  · exact .inl h0
  · exact .inr (rowAlignment_spec h h0).1

theorem take_map_overwrite {xs : List Int64} {n : Nat} (hn : xs.length = n) (h : n ≤ tensorMaxRank) :
    ((overwrite (.replicate _ 0) xs).toList.take n).map Int64.toInt = xs.map Int64.toInt := by
  rw [toList_overwrite _ (by omega), List.take_left' hn]

/-- **Requirements that are returned are sufficient.** -/
theorem calcRequirements_returns {r : TensorRequirements}
    (h : Returns (Tensor.calcRequirements dev rank shape dtype layout userBaseAlign userRowAlign)
      r) :
    r.dtype = dtype ∧ r.layout = layout ∧ r.dims = (targetShape rank shape).map Int64.toInt ∧
      ∀ a, RowAlign dev dtype userRowAlign a → r.Sufficient a := by
  have hlen : (targetShape rank shape).length = rank.toInt.toNat := by simp [targetShape]
  obtain ⟨-, h⟩ := returns_refuse_bind.1 h
  obtain ⟨hrank, h⟩ := returns_refuse_bind.1 h
  rw [Int32.le_iff_toInt_le, Int32.toInt_zero] at hrank
  split_ifs at h with hmax
  · obtain ⟨-, -, h⟩ := returns_bind.1 h
    obtain ⟨ra, hrow, h⟩ := returns_bind.1 h
    obtain ⟨alignBytes, hbase, h⟩ := returns_bind.1 h
    obtain ⟨last, hlast, h⟩ := returns_bind.1 h
    obtain ⟨ss, hss, h⟩ := returns_bind.1 h
    obtain ⟨bufSize, hsize, h⟩ := returns_bind.1 h
    obtain ⟨cudaMem, hadd, h⟩ := returns_bind.1 h
    obtain ⟨hb, hwc⟩ := createLast_wc hlast
    have hss := returns_lift.1 hss
    have hsize := toInt_int64 (returns_lift.1 hsize)
    have hslen := (length_calcStrides hss).trans hlen
    have hr := returns_pure.1 h
    obtain ⟨a, ha, -, hra⟩ := returns_rowAlignment.1 hrow
    simp only [hwc, hlen] at hss
    change Tensor.calcStrides _ (firstPacked layout rank.toInt.toNat) _ _ _ = _ at hss
    have hpos := addBuffer_pos hadd
    have h0 : ra ≠ 0 := by
      rintro rfl
      rw [baseAlignment_zero hbase] at hpos
      exact absurd hpos (by decide)
    obtain ⟨⟨k, hk, hrk⟩, hs0, -⟩ := rowAlignment_spec hrow h0
    have hak : a = 2 ^ k := by
      rw [hrk] at hra
      exact_mod_cast hra.symm
    have hdims : r.dims = (targetShape rank shape).map Int64.toInt := by
      rw [← hr]
      exact take_map_overwrite hlen hmax
    refine ⟨by rw [← hr], by rw [← hr], hdims, fun a' ha' => ?_⟩
    rw [ha'.unique ha, hak]
    have hstr : r.dimStrides = ss.map Int64.toInt := by
      rw [← hr]
      exact take_map_overwrite hslen hmax
    have hadd' : Returns (addBuffer (.replicate _ 0) bufSize alignBytes.toInt64) r.cudaMem := by
      rw [← hr]
      exact hadd
    refine sufficient_of (by rw [← hr, hlen]) (List.length_pos_iff.1 (by omega)) hdims hstr ?_ hk hrk
      ?_ hsize hadd'
    · rw [← hr]
      exact strideBytes_pos hs0
    · rw [← hr]
      exact hss
  · cases returns_lift.1 h

/-- Requirements are returned for a row alignment. -/
theorem exists_rowAlign {r : TensorRequirements}
    (h : Returns (Tensor.calcRequirements dev rank shape dtype layout userBaseAlign userRowAlign)
      r) : ∃ a, RowAlign dev dtype userRowAlign a := by
  obtain ⟨-, h⟩ := returns_refuse_bind.1 h
  obtain ⟨-, h⟩ := returns_refuse_bind.1 h
  split_ifs at h
  · obtain ⟨-, -, h⟩ := returns_bind.1 h
    obtain ⟨ra, hrow, -⟩ := returns_bind.1 h
    obtain ⟨a, ha, -⟩ := returns_rowAlignment.1 hrow
    exact ⟨a, ha⟩
  · cases returns_lift.1 h

/-! ## When there is an outcome -/

theorem BaseAlign.unique {a b c : Nat} (hb : BaseAlign dev a userBaseAlign b)
    (hc : BaseAlign dev a userBaseAlign c) : b = c := by
  unfold BaseAlign at hb hc
  split_ifs at hb hc
  · obtain ⟨t, ht, rfl⟩ := hb
    obtain ⟨t', ht', rfl⟩ := hc
    cases ht.symm.trans ht'
    rfl
  · rw [hb.2, hc.2]

/-- A base alignment that is an `int` is returned. -/
theorem exists_baseAlignment {r : Int32} {a b : Nat} (hr : r.toInt = a)
    (hb : BaseAlign dev a userBaseAlign b) (hlt : b < 2 ^ 31) :
    ∃ x, Returns (Tensor.baseAlignment dev r userBaseAlign) x := by
  have hle : ∀ x : Int32, ¬x.toInt > 2 ^ maxLog2BlockSize := by
    intro x
    have := x.toInt_lt
    unfold maxLog2BlockSize
    omega
  unfold BaseAlign at hb
  unfold Tensor.baseAlignment
  split_ifs at hb ⊢
  · obtain ⟨t, ht, rfl⟩ := hb
    rw [← hr] at hlt
    obtain ⟨y, hy⟩ := exists_lcm.2 hlt
    exact ⟨_, returns_bind.2 ⟨t, returns_ofExcept.2 ht, returns_bind.2 ⟨y, returns_lift.2 hy,
      returns_refuse_bind.2 ⟨hle _, returns_pure.2 rfl⟩⟩⟩⟩
  · obtain ⟨hp, rfl⟩ := hb
    rw [← hr] at hlt
    obtain ⟨y, hy⟩ := exists_lcm.2 hlt
    exact ⟨y, returns_refuse_bind.2 ⟨not_not_intro hp, returns_lift.2 hy⟩⟩

theorem length_createLast_le : ¬tensorMaxRank < min 2 layout.labels.length := by
  unfold tensorMaxRank
  omega

theorem defined_createLast : Defined (layout.createLast 2) ↔ layout.InBounds := by
  unfold TensorLayout.createLast
  rw [defined_refuse_bind, forall_prop_of_true length_createLast_le]
  split_ifs with hb
  · exact iff_of_true defined_pure hb
  · exact iff_of_false not_defined_none hb

theorem exists_createLast (hb : layout.InBounds) : ∃ last, Returns (layout.createLast 2) last := by
  refine ⟨layout.labels.drop (layout.labels.length - min 2 layout.labels.length),
    returns_refuse_bind.2 ⟨length_createLast_le, ?_⟩⟩
  rw [if_pos hb]
  exact returns_pure.2 rfl

theorem defined_int64? {x : Int} : (∃ y, int64? x = some y) ↔ InInt64 x := by
  constructor
  · rintro ⟨y, hy⟩
    exact (int64?_eq_some.1 hy).1
  · intro h
    exact ⟨_, int64?_eq_some.2 ⟨h, Int64.toInt_ofInt_of_le h.1 h.2⟩⟩

/-- What is computed of the dimensions fits, with rows aligned to `a` and the base to `b`. -/
structure BufferFits (dtype : DataType) (layout : TensorLayout) (dims : List Int)
    (userBaseAlign : Int32) (a b : Nat) : Prop where
  inBounds : layout.InBounds
  strides : StridesFit dtype.strideBytes.toInt (firstPacked layout dims.length) a 0 dims
  size : InInt64 (stride dtype.strideBytes.toInt (firstPacked layout dims.length) a 0 dims *
    dims.headD 0)
  abs : Usable userBaseAlign b →
    stride dtype.strideBytes.toInt (firstPacked layout dims.length) a 0 dims * dims.headD 0 ≠
      -2 ^ 63

variable (dev rank shape dtype layout userBaseAlign userRowAlign) in
/-- When nothing is overrun and nothing overflows on the way to an outcome. -/
def RequirementsFit : Prop :=
  (0 < layout.rank → rank = layout.rank) → 0 < rank →
    rank ≤ 15 ∧ (dev.getDevice = .ok () →
      (userRowAlign ≠ 0 → isPowerOfTwo userRowAlign → ∃ b, dtype.alignment = some b) ∧
      ∀ a, RowAlign dev dtype userRowAlign a → a < 2 ^ 31 ∧
        ∀ b, BaseAlign dev a userBaseAlign b → b < 2 ^ 31 ∧
          BufferFits dtype layout ((targetShape rank shape).map Int64.toInt) userBaseAlign a b)

theorem defined_addBuffer {memReq : MemRequirements} {bufSize align : Int64} {b : Nat}
    (h : Usable userBaseAlign b ∧ (∃ k < 31, align.toInt = 2 ^ k) ∨
      ¬Usable userBaseAlign b ∧ align.toInt ≤ 0) :
    Defined (addBuffer memReq bufSize align) ↔
      (Usable userBaseAlign b → bufSize.toInt ≠ -2 ^ 63) := by
  rcases h with ⟨hu, k, hk, ha⟩ | ⟨hu, ha⟩
  · rw [addBuffer_iff (hk.trans (by decide)) ha, forall_prop_of_true hu]
  · refine iff_of_true (defined_refuse_bind.2 fun h => absurd ?_ h) fun h => absurd h hu
    rwa [Int64.le_iff_toInt_le, Int64.toInt_zero]

theorem bufferFits_iff {dims : List Int} {a b : Nat} :
    BufferFits dtype layout dims userBaseAlign a b ↔ layout.InBounds ∧
      let s := stride dtype.strideBytes.toInt (firstPacked layout dims.length) a 0 dims
      StridesFit dtype.strideBytes.toInt (firstPacked layout dims.length) a 0 dims ∧
        InInt64 (s * dims.headD 0) ∧ (Usable userBaseAlign b → s * dims.headD 0 ≠ -2 ^ 63) :=
  ⟨fun h => ⟨h.inBounds, h.strides, h.size, h.abs⟩, fun h => ⟨h.1, h.2.1, h.2.2.1, h.2.2.2⟩⟩

/-- A part of the call whose value is known. -/
theorem forall_returns {α : Type} {x : Call α} {a : α} {P : α → Prop} (h : Returns x a) :
    (∀ b, Returns x b → P b) ↔ P a :=
  ⟨fun hP => hP a h, fun hP _ hb => h.unique hb ▸ hP⟩

theorem forall_lift {α : Type} {x : Option α} {a : α} {P : α → Prop} (h : x = some a) :
    (∀ b, Returns (liftM x : Call α) b → P b) ↔ P a :=
  forall_returns (returns_lift.2 h)

/-- A part of the call whose value is read off a number that the inputs determine. -/
theorem forall_returns_iff {α : Type} {x : Call α} {R E : Nat → Prop} {P : α → Prop}
    (hunique : ∀ a b, R a → R b → a = b) (hex : ∀ a, R a → a < 2 ^ 31 → ∃ r, Returns x r)
    (hret : ∀ r, Returns x r → ∃ a, R a ∧ (P r ↔ E a)) :
    ((∀ a, R a → a < 2 ^ 31) ∧ ∀ r, Returns x r → P r) ↔ ∀ a, R a → a < 2 ^ 31 ∧ E a := by
  constructor
  · rintro ⟨hlt, hP⟩ a ha
    obtain ⟨r, hr⟩ := hex a ha (hlt a ha)
    obtain ⟨b, hb, hiff⟩ := hret r hr
    obtain rfl := hunique a b ha hb
    exact ⟨hlt a ha, hiff.1 (hP r hr)⟩
  · intro h
    refine ⟨fun a ha => (h a ha).1, fun r hr => ?_⟩
    obtain ⟨a, ha, hiff⟩ := hret r hr
    exact hiff.2 (h a ha).2

/-- **The call has an outcome** exactly when everything fits. -/
theorem calcRequirements_defined :
    Defined (Tensor.calcRequirements dev rank shape dtype layout userBaseAlign userRowAlign) ↔
      RequirementsFit dev rank shape dtype layout userBaseAlign userRowAlign := by
  have hlen : (targetShape rank shape).length = rank.toInt.toNat := by simp [targetShape]
  have hmax : rank.toInt.toNat ≤ tensorMaxRank ↔ rank ≤ 15 := by
    rw [Int32.le_iff_toInt_le, show (15 : Int32).toInt = 15 from rfl]
    unfold tensorMaxRank
    omega
  unfold Tensor.calcRequirements RequirementsFit
  rw [defined_refuse_bind, defined_refuse_bind, not_and_not_right, Int32.not_le]
  refine imp_congr_right fun _ => imp_congr_right fun hrank => ?_
  have hne : targetShape rank shape ≠ [] := by
    rw [← List.length_pos_iff, hlen]
    rw [Int32.lt_iff_toInt_lt, Int32.toInt_zero] at hrank
    omega
  by_cases h15 : rank ≤ 15
  · rw [dif_pos (hmax.2 h15), and_iff_right h15, defined_bind, and_iff_right defined_ofExcept]
    simp only [returns_ofExcept]
    refine Unique.forall_iff.trans (imp_congr_right fun _ => ?_)
    rw [defined_bind, rowAlignment_iff, and_assoc]
    refine and_congr_right fun _ => forall_returns_iff (fun _ _ => RowAlign.unique)
      (fun a ha hlt => ⟨.ofInt a, returns_rowAlignment.2
        ⟨a, ha, hlt, Int32.toInt_ofInt_of_le (by omega) (by omega)⟩⟩) fun ra hrow => ?_
    obtain ⟨a, ha, -, hra⟩ := returns_rowAlignment.1 hrow
    have hcases := rowAlign_cases hrow
    refine ⟨a, ha, ?_⟩
    rw [defined_bind, baseAlignment_iff hra]
    refine forall_returns_iff (fun _ _ => BaseAlign.unique)
      (fun b hb hlt => exists_baseAlignment hra hb hlt) fun x hbase => ?_
    have hacases : a = 0 ∨ ∃ k < 31, a = 2 ^ k := by
      rcases rowAlign_cases hrow with rfl | ⟨k, hk, hrk⟩
      · rw [Int32.toInt_zero] at hra
        exact .inl (by exact_mod_cast hra.symm)
      · refine .inr ⟨k, hk, ?_⟩
        rw [hrk] at hra
        exact_mod_cast hra.symm
    obtain ⟨b, hb, hx⟩ := returns_baseAlignment hra hacases hbase
    refine ⟨b, hb, ?_⟩
    rw [← Int32.toInt_toInt64 x] at hx
    rw [defined_bind, defined_createLast, bufferFits_iff]
    refine and_congr_right fun hbounds => ?_
    obtain ⟨last, hlast⟩ := exists_createLast hbounds
    have hfp := (createLast_wc hlast).2
    rw [forall_returns hlast]
    simp only [hfp]
    rw [← hra, List.length_map, ← Int32.toInt_toInt64 dtype.strideBytes, defined_bind, defined_lift]
    refine (and_congr_left' (calcStrides_iff hcases)).trans (and_congr_right fun hfit => ?_)
    obtain ⟨ss, hss⟩ := (calcStrides_iff hcases).2 hfit
    have hs0 : _ = stride _ (firstPacked layout _) _ _ _ :=
      (calcStrides_spec hcases hss).2 0 (List.length_pos_iff.2 hne)
    rw [show ss.getD 0 0 = ss.headD 0 by cases ss <;> rfl, Nat.zero_add, List.drop_zero] at hs0
    rw [forall_lift hss, defined_bind, defined_lift, defined_int64?, headD_map, ← hs0]
    refine and_congr_right fun hsize => ?_
    obtain ⟨bufSize, hbuf⟩ := defined_int64?.2 hsize
    rw [forall_lift hbuf, defined_bind, defined_addBuffer hx, toInt_int64 hbuf]
    exact and_iff_left fun _ _ => defined_pure
  · rw [dif_neg (mt hmax.1 h15)]
    exact iff_of_false not_defined_none fun h => h15 h.1

/-- **Requirements are sufficient, or refused**, exactly when everything that is computed for them
fits. -/
theorem calcRequirements_sufficient_iff :
    (Defined (Tensor.calcRequirements dev rank shape dtype layout userBaseAlign userRowAlign) ∧
      ∀ r, Returns (Tensor.calcRequirements dev rank shape dtype layout userBaseAlign userRowAlign)
          r →
        r.dtype = dtype ∧ r.layout = layout ∧ r.dims = (targetShape rank shape).map Int64.toInt ∧
          ∀ a, RowAlign dev dtype userRowAlign a → r.Sufficient a) ↔
      RequirementsFit dev rank shape dtype layout userBaseAlign userRowAlign := by
  rw [calcRequirements_defined]
  exact and_iff_left fun r => calcRequirements_returns

end

/-- Two dimensions of `2^40` bytes: their size is no `int64_t`, and nothing refuses them. -/
theorem size_overflows :
    ¬Defined (Tensor.calcRequirements device 2 (sizes [2 ^ 40, 2 ^ 40]) u8 (layoutOf ['H', 'W'])
      0 0) ∧
      stride 1 1 32 0 [2 ^ 40, 2 ^ 40] * 2 ^ 40 = 2 ^ 80 := by
  exact ⟨by decide +kernel, by decide⟩

end Nvcv
