import CvCuda.Lib.Int64
import CvCuda.Lib.Run
import CvCuda.Nvcv.Requirements

/-! # Resource requirements are exact

`totalSize` is what requirements stand for: the bytes of all the blocks, over the integers.

* `returns_addBuffer`: what `AddBuffer` does when it returns; `addBuffer_exact`: with a size that
  is not negative it adds the least multiple of the alignment that holds it.
* `calcTotalSizeBytes_iff`: when the total that is computed is the exact one. The test for
  overflow sees the sums, not the products.
* `requirements_exact_iff`: which calls are exact, after every sequence of calls.
-/

namespace Nvcv

open Outcome Rounding

/-- The bytes of all the blocks. -/
def totalSize (memReq : MemRequirements) : Int :=
  ∑ i : Fin maxLog2BlockSize, (memReq.get i).toInt * 2 ^ i.1

/-! ## AddBuffer -/

theorem isPowerOfTwo_two_pow {a : Int64} {k : Nat} (hk : k < 63) (ha : a.toInt = 2 ^ k) :
    isPowerOfTwo a := by
  have hn : a.toBitVec.toNat = 2 ^ k := by
    rw [toNat_toBitVec (by rw [ha]; positivity), ha]
    exact_mod_cast Int.toNat_natCast (2 ^ k)
  apply Int64.toBitVec_inj.1
  exact (and_sub_one_eq_zero _ ⟨k, by omega, hn⟩).2 dvd_rfl

/-- A positive power of two of the code is one. -/
theorem exists_two_pow {a : Int64} (h : isPowerOfTwo a) (h0 : 0 < a.toInt) :
    ∃ k < 63, a.toInt = 2 ^ k := by
  have hn := toNat_toBitVec h0.le
  have hlt := a.toInt_lt
  have hand : a.toInt.toNat &&& (a.toInt.toNat - 1) = 0 := by
    have h : (a &&& (a - 1)).toBitVec.toNat = (0 : Int64).toBitVec.toNat :=
      congrArg (fun x : Int64 => x.toBitVec.toNat) h
    simp only [Int64.toBitVec_and, Int64.toBitVec_sub, BitVec.toNat_and] at h
    rw [BitVec.toNat_sub_of_le (by rw [BitVec.le_def, hn]; exact Nat.succ_le_of_lt (by omega)),
      hn] at h
    exact h
  obtain ⟨k, hk⟩ := (Nat.and_sub_one_eq_zero_iff_isPowerOfTwo (by omega)).1 hand
  have hk63 : k < 63 := by
    refine (Nat.pow_lt_pow_iff_right (by decide : 1 < 2)).1 ?_
    omega
  refine ⟨k, hk63, ?_⟩
  rw [← Int.toNat_of_nonneg h0.le, hk]
  push_cast
  rfl

theorem iLog2_lt {a : Int64} {k : Nat} (hk : k < maxLog2BlockSize) (ha : a.toInt = 2 ^ k) :
    iLog2 a < maxLog2BlockSize := by
  rwa [iLog2_two_pow ha]

theorem exists_int64_natAbs {x : Int64} :
    (∃ y, int64? x.toInt.natAbs = some y) ↔ x.toInt ≠ -2 ^ 63 := by
  have hle := x.le_toInt
  have hlt := x.toInt_lt
  constructor
  · rintro ⟨y, h⟩
    have := (int64?_eq_some.1 h).1
    omega
  · intro h
    have hr : -2 ^ 63 ≤ (x.toInt.natAbs : Int) ∧ (x.toInt.natAbs : Int) < 2 ^ 63 := by
      omega
    exact ⟨_, int64?_eq_some.2 ⟨hr, Int64.toInt_ofInt_of_le hr.1 hr.2⟩⟩

section
variable {memReq : MemRequirements} {bufSize a : Int64}

/-- **Adding a buffer** has an outcome unless the size is the least there is. -/
theorem addBuffer_iff {k : Nat} (hk : k < maxLog2BlockSize) (ha : a.toInt = 2 ^ k) :
    Defined (addBuffer memReq bufSize a) ↔ bufSize.toInt ≠ -2 ^ 63 := by
  have ha0 : ¬a ≤ 0 := by
    have : (0 : Int) < 2 ^ k := by positivity
    rw [Int64.le_iff_toInt_le, ha, Int64.toInt_zero]
    omega
  have hk63 : k < 63 := by
    unfold maxLog2BlockSize at hk
    omega
  unfold addBuffer
  rw [defined_refuse_bind, defined_refuse_bind, dif_pos (iLog2_lt hk ha), defined_bind,
    defined_lift, exists_int64_natAbs]
  constructor
  · intro h
    exact (h ha0 (not_not_intro (isPowerOfTwo_two_pow hk63 ha))).1
  · intro h _ _
    refine ⟨h, fun x _ => ?_⟩
    split_ifs
    · exact defined_refuse_bind.2 fun _ => defined_pure
    · exact defined_pure

theorem addBuffer_defined (h : bufSize.toInt ≠ -2 ^ 63) : Defined (addBuffer memReq bufSize a) := by
  unfold addBuffer
  rw [defined_refuse_bind, defined_refuse_bind]
  intro h0 hp
  rw [Int64.le_iff_toInt_le, Int64.toInt_zero] at h0
  obtain ⟨k, -, ha⟩ := exists_two_pow (not_not.1 hp) (by omega)
  by_cases hk : k < maxLog2BlockSize
  · have hd := (@addBuffer_iff memReq _ _ _ hk ha).2 h
    unfold addBuffer at hd
    rw [defined_refuse_bind, defined_refuse_bind] at hd
    exact hd (by rw [Int64.le_iff_toInt_le, Int64.toInt_zero]; exact h0) hp
  · rw [dif_neg (by rwa [iLog2_two_pow ha])]
    exact defined_throw

/-- **What `AddBuffer` does** when it returns. -/
theorem returns_addBuffer {r : MemRequirements} (h : Returns (addBuffer memReq bufSize a) r) :
    ∃ k, ∃ hk : k < maxLog2BlockSize, a.toInt = 2 ^ k ∧ ∃ numBlocks : Int64,
      (bufSize.toInt.natAbs ≤ numBlocks.toInt * 2 ^ k ∧
        numBlocks.toInt * 2 ^ k < bufSize.toInt.natAbs + 2 ^ k) ∧
      r = memReq.set k (if 0 ≤ bufSize then memReq[k] + numBlocks
        else max 0 (memReq[k] - numBlocks)) ∧
      (0 ≤ bufSize → memReq[k].toInt + numBlocks.toInt < 2 ^ 63) := by
  obtain ⟨h0, h⟩ := returns_refuse_bind.1 h
  obtain ⟨hp, h⟩ := returns_refuse_bind.1 h
  rw [Int64.le_iff_toInt_le, Int64.toInt_zero] at h0
  obtain ⟨k, hk63, ha⟩ := exists_two_pow (not_not.1 hp) (by omega)
  have hlog := iLog2_two_pow ha
  by_cases hk : iLog2 a < maxLog2BlockSize
  · rw [dif_pos hk] at h
    obtain ⟨x, hx, h⟩ := returns_bind.1 h
    have hx := toInt_int64 (returns_lift.1 hx)
    have hn := divUpPowerOfTwo_spec hk63 ha (show 0 ≤ x.toInt by omega)
    rw [hx] at hn
    subst hlog
    refine ⟨iLog2 a, hk, ha, divUpPowerOfTwo x a, hn, ?_⟩
    split_ifs at h ⊢ with hb
    · obtain ⟨hover, h⟩ := returns_refuse_bind.1 h
      refine ⟨(returns_pure.1 h).symm, fun _ => ?_⟩
      have hlt := (divUpPowerOfTwo x a).toInt_lt
      have hnn : 0 ≤ (divUpPowerOfTwo x a).toInt := by
        have h2k : (0 : Int) < 2 ^ iLog2 a := by positivity
        exact le_of_mul_le_mul_right (by rw [zero_mul]; omega) h2k
      rw [gt_iff_lt, Int64.lt_iff_toInt_lt, Int64.toInt_sub,
        show Int64.maxValue.toInt = 2 ^ 63 - 1 from rfl,
        Int.bmod_eq_of_le (by omega) (by omega)] at hover
      omega
    · exact ⟨(returns_pure.1 h).symm, fun h => absurd h hb⟩
  · rw [dif_neg hk] at h
    exact absurd h not_returns_throw

/-- The total after a bucket has changed. -/
theorem totalSize_set {k : Nat} (hk : k < maxLog2BlockSize) (x : Int64) :
    totalSize (memReq.set k x) = totalSize memReq + (x.toInt - memReq[k].toInt) * 2 ^ k := by
  unfold totalSize
  rw [← Finset.add_sum_erase _ _ (Finset.mem_univ (⟨k, hk⟩ : Fin maxLog2BlockSize)),
    ← Finset.add_sum_erase _ _ (Finset.mem_univ (⟨k, hk⟩ : Fin maxLog2BlockSize))]
  have hrest : ∀ i ∈ Finset.univ.erase (⟨k, hk⟩ : Fin maxLog2BlockSize),
      ((memReq.set k x).get i).toInt * 2 ^ i.1 = (memReq.get i).toInt * 2 ^ i.1 := by
    intro i hi
    have hne : k ≠ i.1 := fun h => Finset.ne_of_mem_erase hi (Fin.ext h.symm)
    have hget : (memReq.set k x).get i = memReq.get i := Vector.getElem_set_ne _ i.2 hne
    rw [hget]
  have hset : (memReq.set k x).get ⟨k, hk⟩ = x := Vector.getElem_set_self _
  have hk' : memReq.get ⟨k, hk⟩ = memReq[k] := rfl
  rw [Finset.sum_congr rfl hrest, hset, hk']
  ring

/-- **A buffer is added exactly**: the total grows by the least multiple of the alignment that
holds the buffer. -/
theorem addBuffer_exact {r : MemRequirements} (hb : 0 ≤ bufSize.toInt)
    (hpos : ∀ i : Fin maxLog2BlockSize, 0 ≤ (memReq.get i).toInt)
    (h : Returns (addBuffer memReq bufSize a) r) :
    ∃ n, IsLeast {m : Int | a.toInt ∣ m ∧ bufSize.toInt ≤ m} n ∧
      totalSize r = totalSize memReq + n := by
  obtain ⟨k, hk, ha, n, ⟨hle, hlt⟩, rfl, hfit⟩ := returns_addBuffer h
  have hb' : 0 ≤ bufSize := by rwa [Int64.le_iff_toInt_le]
  have h2k : (0 : Int) < 2 ^ k := by positivity
  have hn : 0 ≤ n.toInt := le_of_mul_le_mul_right (by rw [zero_mul]; omega) h2k
  have hk0 : 0 ≤ memReq[k].toInt := hpos ⟨k, hk⟩
  refine ⟨n.toInt * 2 ^ k, ⟨⟨ha ▸ Int.dvd_mul_left _ _, by omega⟩, ?_⟩, ?_⟩
  · rintro _ ⟨⟨c, rfl⟩, hc⟩
    rw [ha] at hc ⊢
    -- one block less does not hold the buffer
    have hnc : (n.toInt - 1) * 2 ^ k < c * 2 ^ k := by
      rw [sub_mul, one_mul, mul_comm c]
      omega
    have := lt_of_mul_lt_mul_right hnc h2k.le
    rw [mul_comm]
    exact mul_le_mul_of_nonneg_left (by omega) h2k.le
  · have hsum : (memReq[k] + n).toInt = memReq[k].toInt + n.toInt :=
      Int64.toInt_add_of_range (by omega) (hfit hb')
    rw [if_pos hb', totalSize_set, hsum]
    ring

/-- Counts of blocks do not become negative. -/
theorem addBuffer_nonneg {r : MemRequirements}
    (hpos : ∀ i : Fin maxLog2BlockSize, 0 ≤ (memReq.get i).toInt)
    (h : Returns (addBuffer memReq bufSize a) r) (i : Fin maxLog2BlockSize) : 0 ≤ (r.get i).toInt := by
  obtain ⟨k, hk, -, n, ⟨hle, -⟩, rfl, hfit⟩ := returns_addBuffer h
  have h2k : (0 : Int) < 2 ^ k := by positivity
  have hn : 0 ≤ n.toInt := le_of_mul_le_mul_right (by rw [zero_mul]; omega) h2k
  by_cases hi : k = i.1
  · subst hi
    rw [show (memReq.set i.1 _).get i = _ from Vector.getElem_set_self _]
    split_ifs with hb
    · have hf := hfit hb
      have hi : 0 ≤ memReq[i.1].toInt := hpos i
      rw [Int64.toInt_add_of_range (by omega) (by omega)]
      omega
    · rw [Int64.toInt_max, Int64.toInt_zero]
      exact le_max_left _ _
  · rw [show (memReq.set k _).get i = memReq.get i from Vector.getElem_set_ne _ i.2 hi]
    exact hpos i

end

/-! ## CalcTotalSizeBytes -/

/-- Sizes are added up exactly, as long as their sum is a word. -/
theorem addSizes_spec {total : UInt64} {curs : List UInt64} :
    (total.toNat + (curs.map UInt64.toNat).sum < 2 ^ 64 →
      ∃ t, addSizes total curs = .ok t ∧ t.toNat = total.toNat + (curs.map UInt64.toNat).sum) ∧
      (2 ^ 64 ≤ total.toNat + (curs.map UInt64.toNat).sum → ∃ e, addSizes total curs = .error e) := by
  induction curs generalizing total with
  | nil =>
    have := total.toNat_lt
    exact ⟨fun _ => ⟨total, rfl, rfl⟩, fun h => absurd h (by simp; omega)⟩
  | cons cur curs ih =>
    have ht := total.toNat_lt
    have hc := cur.toNat_lt
    have hadd : (total + cur).toNat = (total.toNat + cur.toNat) % 2 ^ 64 := UInt64.toNat_add _ _
    rw [List.map_cons, List.sum_cons, ← Nat.add_assoc, addSizes]
    by_cases hw : total + cur < total
    · have hover : 2 ^ 64 ≤ total.toNat + cur.toNat := by
        rw [UInt64.lt_iff_toNat_lt, hadd] at hw
        omega
      rw [if_pos hw]
      exact ⟨fun h => absurd h (by omega), fun _ => ⟨_, rfl⟩⟩
    · have hfit : (total + cur).toNat = total.toNat + cur.toNat := by
        rw [UInt64.lt_iff_toNat_lt, hadd] at hw
        rw [hadd]
        omega
      rw [if_neg hw, ← hfit]
      exact ih

/-- The sum of the products as they are computed. -/
def computedSize (memReq : MemRequirements) : Int :=
  ∑ i : Fin maxLog2BlockSize, (memReq.get i).toInt * 2 ^ i.1 % 2 ^ 64

/-- The total is the exact one, or refused when it is no `int64_t`. -/
def TotalExact (memReq : MemRequirements) : Prop :=
  if totalSize memReq < 2 ^ 63 then
    ∃ total, calcTotalSizeBytes memReq = .ok total ∧ total.toInt = totalSize memReq
  else ∃ e, calcTotalSizeBytes memReq = .error e

section
variable {memReq : MemRequirements} (hpos : ∀ i : Fin maxLog2BlockSize, 0 ≤ (memReq.get i).toInt)
include hpos

theorem toNat_bucketSize (i : Fin maxLog2BlockSize) :
    ((bucketSize memReq i).toNat : Int) = (memReq.get i).toInt * 2 ^ i.1 % 2 ^ 64 := by
  have hi : 2 ^ i.1 < 2 ^ 64 := Nat.pow_lt_pow_right (by decide) (i.2.trans (by decide))
  have hn : (memReq.get i).toUInt64.toNat = (memReq.get i).toInt.toNat := toNat_toBitVec (hpos i)
  rw [bucketSize, UInt64.toNat_mul, show memReq[i] = memReq.get i from rfl, hn, UInt64.toNat_ofNat', Nat.mod_eq_of_lt hi]
  push_cast
  rw [Int.toNat_of_nonneg (hpos i)]

theorem sum_bucketSize :
    ((((List.finRange maxLog2BlockSize).map (bucketSize memReq)).map UInt64.toNat).sum : Int) =
      computedSize memReq := by
  rw [List.map_map, ← Fin.sum_univ_def]
  push_cast
  exact Finset.sum_congr rfl fun i _ => toNat_bucketSize hpos i

/-- **The total** is computed from the products modulo `2^64`. -/
theorem calcTotalSizeBytes_spec :
    (computedSize memReq < 2 ^ 63 →
      ∃ total, calcTotalSizeBytes memReq = .ok total ∧ total.toInt = computedSize memReq) ∧
      (2 ^ 63 ≤ computedSize memReq → ∃ e, calcTotalSizeBytes memReq = .error e) := by
  have hsum := sum_bucketSize hpos
  obtain ⟨hok, herr⟩ := @addSizes_spec 0 ((List.finRange maxLog2BlockSize).map (bucketSize memReq))
  rw [UInt64.toNat_zero, Nat.zero_add] at hok herr
  unfold calcTotalSizeBytes
  by_cases hlt : computedSize memReq < 2 ^ 64
  · obtain ⟨t, ht, htn⟩ := hok (by omega)
    have hmax : t > .ofNat (2 ^ 63 - 1) ↔ 2 ^ 63 ≤ computedSize memReq := by
      rw [gt_iff_lt, UInt64.lt_iff_toNat_lt, show (UInt64.ofNat (2 ^ 63 - 1)).toNat = 2 ^ 63 - 1 from rfl]
      omega
    rw [ht]
    simp only [bind, Except.bind, hmax]
    refine ⟨fun h => ⟨t.toInt64, by rw [if_neg (by omega)]; rfl, ?_⟩, fun h => ⟨memorySizeOverflow, ?_⟩⟩
    · have ht64 : t.toBitVec.toNat = t.toNat := rfl
      rw [← Int64.toInt_toBitVec, UInt64.toBitVec_toInt64, BitVec.toInt_eq_toNat_cond,
        if_pos (by omega), ht64, htn, hsum]
    · rw [if_pos h]
      rfl
  · obtain ⟨e, he⟩ := herr (by omega)
    rw [he]
    exact ⟨fun h => absurd h (by omega), fun _ => ⟨e, rfl⟩⟩

/-- **The total is exact** where it is an `int64_t`, or the products modulo `2^64` add up to none
either. -/
theorem totalExact_iff :
    TotalExact memReq ↔ totalSize memReq < 2 ^ 63 ∨ 2 ^ 63 ≤ computedSize memReq := by
  obtain ⟨hok, herr⟩ := calcTotalSizeBytes_spec hpos
  have hterm : ∀ i : Fin maxLog2BlockSize, 0 ≤ (memReq.get i).toInt * 2 ^ i.1 :=
    fun i => Int.mul_nonneg (hpos i) (by positivity)
  unfold TotalExact
  by_cases hlt : totalSize memReq < 2 ^ 63
  · -- no product reaches the modulus
    have heq : computedSize memReq = totalSize memReq := by
      refine Finset.sum_congr rfl fun i _ => Int.emod_eq_of_lt (hterm i) ?_
      have : (memReq.get i).toInt * 2 ^ i.1 ≤ totalSize memReq :=
        Finset.single_le_sum (fun j _ => hterm j) (Finset.mem_univ i)
      omega
    rw [if_pos hlt, ← heq]
    exact iff_of_true (hok (heq ▸ hlt)) (.inl (heq ▸ hlt))
  · rw [if_neg hlt]
    constructor
    · rintro ⟨e, he⟩
      refine .inr (not_lt.1 fun h => ?_)
      obtain ⟨t, ht, -⟩ := hok h
      rw [ht] at he
      cases he
    · rintro (h | h)
      · exact absurd h hlt
      · exact herr h

end

/-! ## Sequences of calls -/

/-- What a call promises: it throws and leaves everything as it is, or adds exactly what it is
given to the variable it is given. -/
def ReqOp.Exact (s : ReqVars) (op : ReqOp) : Prop :=
  match op with
  | addBuffer v mem bufSize bufAlignment => 0 ≤ bufSize.toInt → ∃ r s', op.exec s = some (r, s') ∧
      ((∃ e, r = .error e) ∧ s' = s ∨ r = .ok () ∧ ∃ n,
        IsLeast {m : Int | bufAlignment.toInt ∣ m ∧ bufSize.toInt ≤ m} n ∧
        totalSize (s' v mem) = totalSize (s v mem) + n ∧
        ∀ w mem', (w, mem') ≠ (v, mem) → s' w mem' = s w mem')
  | add v w => ∃ r s', op.exec s = some (r, s') ∧
      ((∃ e, r = .error e) ∧ s' = s ∨ r = .ok () ∧
        (∀ mem, totalSize (s' v mem) = totalSize (s v mem) + totalSize (s w mem)) ∧
        ∀ u, u ≠ v → s' u = s u)

/-- When it does. -/
def ReqOp.Meets (s : ReqVars) : ReqOp → Prop
  | addBuffer _ _ _ _ => True
  | add v w => ∀ mem, ∀ i : Fin maxLog2BlockSize,
      ((s v mem).get i).toInt + ((s w mem).get i).toInt < 2 ^ 63

/-- No variable holds a negative count. -/
def ReqVars.Nonneg (s : ReqVars) : Prop :=
  ∀ v mem, ∀ i : Fin maxLog2BlockSize, 0 ≤ ((s v mem).get i).toInt

theorem mem_mems (mem : Mem) : mem ∈ [Mem.cuda, .host, .hostPinned] := by
  cases mem <;> decide

section
variable {s : ReqVars} (hs : s.Nonneg)
include hs

theorem addFits_iff {v w : Nat} : AddFits (s v) (s w) ↔ ReqOp.Meets s (.add v w) := by
  constructor
  · exact fun h mem i => (h mem (mem_mems mem) i).2
  · intro h mem _ i
    have h₁ := hs v mem i
    have h₂ := hs w mem i
    exact ⟨show -2 ^ 63 ≤ ((s v mem).get i).toInt + ((s w mem).get i).toInt by omega, h mem i⟩

/-- **A call is exact** when no count of blocks overflows. -/
theorem exact_iff (op : ReqOp) : op.Exact s ↔ op.Meets s := by
  cases op with
  | addBuffer v mem bufSize a =>
    refine iff_of_true (fun hb => ?_) trivial
    have hd : Defined (addBuffer (s v mem) bufSize a) := addBuffer_defined (by omega)
    rcases defined_iff.1 hd with ⟨e, he⟩ | ⟨r, hr⟩
    · exact ⟨.error e, s, by rw [ReqOp.exec, he]; rfl, .inl ⟨⟨e, rfl⟩, rfl⟩⟩
    · obtain ⟨n, hn, ht⟩ := addBuffer_exact hb (hs v mem) hr
      refine ⟨.ok (), _, by rw [ReqOp.exec, hr]; rfl, .inr ⟨rfl, n, hn, ?_, ?_⟩⟩
      · rw [Function.update_self, Function.update_self, ht]
      · intro w mem' hne
        by_cases hw : w = v
        · subst hw
          rw [Function.update_self, Function.update_of_ne]
          rintro rfl
          exact hne rfl
        · rw [Function.update_of_ne hw]
  | add v w =>
    rw [← addFits_iff hs]
    constructor
    · rintro ⟨r, s', h, -⟩
      by_contra hfit
      rw [ReqOp.exec, add, if_neg hfit] at h
      cases h
    · intro hfit
      refine ⟨.ok (), _, by rw [ReqOp.exec, add, if_pos hfit]; rfl, .inr ⟨rfl, fun mem => ?_, ?_⟩⟩
      · rw [Function.update_self]
        unfold totalSize
        rw [← Finset.sum_add_distrib]
        refine Finset.sum_congr rfl fun i _ => ?_
        obtain ⟨hl, hu⟩ := hfit mem (mem_mems mem) i
        have hget : (Vector.ofFn fun i => (s v mem)[i] + (s w mem)[i]).get i =
            (s v mem)[i] + (s w mem)[i] := Vector.getElem_ofFn _
        rw [hget, Int64.toInt_add_of_range hl hu, add_mul]
        rfl
      · exact fun u hu => Function.update_of_ne hu _ _

theorem nonneg_add {v w : Nat} {req : Requirements} (h : add (s v) (s w) = some req) (mem : Mem)
    (i : Fin maxLog2BlockSize) : 0 ≤ ((req mem).get i).toInt := by
  unfold add at h
  by_cases hfit : AddFits (s v) (s w)
  · rw [if_pos hfit] at h
    obtain rfl := Option.some.inj h
    obtain ⟨hl, hu⟩ := hfit mem (mem_mems mem) i
    have h₁ : 0 ≤ (s v mem)[i].toInt := hs v mem i
    have h₂ : 0 ≤ (s w mem)[i].toInt := hs w mem i
    have hget : (Vector.ofFn fun i => (s v mem)[i] + (s w mem)[i]).get i =
        (s v mem)[i] + (s w mem)[i] := Vector.getElem_ofFn _
    rw [hget, Int64.toInt_add_of_range hl hu]
    omega
  · rw [if_neg hfit] at h
    cases h

theorem nonneg_step {op : ReqOp} {s' : ReqVars} (h : op.step s = some s') : s'.Nonneg := by
  obtain ⟨⟨r, s₁⟩, he, rfl⟩ := Option.map_eq_some_iff.1 h
  cases op with
  | addBuffer v mem bufSize a =>
    obtain ⟨o, ho, he⟩ := Option.map_eq_some_iff.1 he
    rcases o with e | memReq
    · cases he
      exact hs
    · cases he
      intro w mem' i
      by_cases hw : w = v
      · subst hw
        by_cases hm : mem' = mem
        · subst hm
          simp only [Function.update_self]
          exact addBuffer_nonneg (hs w mem') ho i
        · simp only [Function.update_self, Function.update_of_ne hm]
          exact hs w mem' i
      · simp only [Function.update_of_ne hw]
        exact hs w mem' i
  | add v w =>
    obtain ⟨req, hreq, he⟩ := Option.map_eq_some_iff.1 he
    cases he
    intro u mem i
    by_cases hu : u = v
    · subst hu
      simp only [Function.update_self]
      exact nonneg_add hs hreq mem i
    · simp only [Function.update_of_ne hu]
      exact hs u mem i

end

/-- **Requirements are exact** after every sequence of calls on empty ones: each call as long as no
count of blocks overflows, and the total where the products that overflow do not hide that it
does. -/
theorem requirements_exact_iff {ops : List ReqOp} {s : ReqVars}
    (h : Run (fun s op s' => ReqOp.step s op = some s') (fun _ => .init) ops s) :
    (∀ op : ReqOp, op.Exact s ↔ op.Meets s) ∧ ∀ v mem, TotalExact (s v mem) ↔
      totalSize (s v mem) < 2 ^ 63 ∨ 2 ^ 63 ≤ computedSize (s v mem) := by
  have hs : s.Nonneg := by
    refine h.inv (fun s op s' hs hstep => nonneg_step hs hstep) fun v mem i => ?_
    have hget : (Vector.replicate maxLog2BlockSize (0 : Int64)).get i = 0 :=
      Vector.getElem_replicate i.2
    rw [Requirements.init, hget, Int64.toInt_zero]
  exact ⟨exact_iff hs, fun v mem => totalExact_iff (hs v mem)⟩

/-- Calls that can be computed, to variables that can be checked. -/
theorem exists_run {P : ReqVars → Prop} [DecidablePred P] {ops : List ReqOp}
    (h : (Run.exec ReqOp.step (fun _ _ => True) (fun _ => .init) ops).any (decide <| P ·) = true) :
    ∃ s, Run (fun s op s' => ReqOp.step s op = some s') (fun _ => .init) ops s ∧ P s := by
  obtain ⟨s, hrun, hP⟩ := Run.exists_of_exec h
  exact ⟨s, hrun.mono fun _ _ _ h => h.1, hP⟩

/-- A buffer of 100 bytes in blocks of 32, added to another variable. -/
theorem requirements_exact_iff_add :
    ∃ s, Run (fun s op s' => ReqOp.step s op = some s') (fun _ => .init)
        [.addBuffer 0 .cuda 100 32, .add 1 0] s ∧ totalSize (s 1 .cuda) = 128 ∧
      ((∀ op : ReqOp, op.Exact s ↔ op.Meets s) ∧ ∀ v mem, TotalExact (s v mem) ↔
        totalSize (s v mem) < 2 ^ 63 ∨ 2 ^ 63 ≤ computedSize (s v mem)) := by
  obtain ⟨s, h, ht⟩ := @exists_run (fun s => totalSize (s 1 .cuda) = 128) _
    [.addBuffer 0 .cuda 100 32, .add 1 0] (by decide +kernel)
  exact ⟨s, h, ht, requirements_exact_iff h⟩

/-- Two buffers of the largest size make `2^33` blocks of `2^31` bytes, which are counted as no
byte; and as many blocks of a byte as there can be are added to themselves. -/
theorem total_wraps :
    (∃ s, Run (fun s op s' => ReqOp.step s op = some s') (fun _ => .init)
        [.addBuffer 0 .cuda (2 ^ 63 - 1) (2 ^ 31), .addBuffer 0 .cuda (2 ^ 63 - 1) (2 ^ 31)] s ∧
      (calcTotalSizeBytes (s 0 .cuda)).toOption = some 0 ∧ totalSize (s 0 .cuda) = 2 ^ 64) ∧
    ∃ s, Run (fun s op s' => ReqOp.step s op = some s') (fun _ => .init)
        [.addBuffer 0 .cuda (2 ^ 63 - 1) 1] s ∧ (ReqOp.exec s (.add 0 0)).isNone = true := by
  exact ⟨exists_run (by decide +kernel), exists_run (by decide +kernel)⟩

end Nvcv
