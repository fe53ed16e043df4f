import CvCuda.Lib.Int32
import CvCuda.Nvcv.Tensor
import CvCuda.Nvcv.Proof.Reshape

/-! # Wrapping what a created tensor exports

`CalcRequirements` packs the rows of a layout that ends with `WC`; `ValidateTensorBufferStrided`
expects packed rows of every layout that ends with `C`, and of no layout at all.

* `rowAlignment_spec`: the row alignment is a power of two, and what it divides.
* `testDims_prefix`: the dimensions before the packed ones pass the test when these do; what the
  test considers is always within the dimension it has reached (`testDims_reach`).
* `testDims_pair`, `pack_iff`: when a packed row passes.
* `exported_wraps_iff`: **create, export and wrap agree** exactly under `Rewrappable`.
-/

namespace Nvcv

open Outcome Rounding

/-! ## Alignments -/

theorem bitsPerPixelOf_mem (p : BitVec 64) :
    Packing.bitsPerPixelOf p ∈ [0, 1, 2, 4, 8, 16, 24, 32, 48, 64, 96, 128, 192, 256] := by
  unfold Packing.bitsPerPixelOf
  generalize (p >>> 6).toNat = bpp
  generalize (p &&& 0b1111#64).toNat = code
  dsimp only
  split_ifs with h0 h1 h2 h3 h4 h5 h6 h7
  · interval_cases code <;> simp
  · simp
  · simp
  · simp
  · interval_cases bpp <;> simp_all
  · have : bpp = 4 ∨ bpp = 5 := by omega
    rcases this with rfl | rfl <;> simp
  · have : bpp = 6 ∨ bpp = 7 := by omega
    rcases this with rfl | rfl <;> simp
  · have : bpp = 8 ∨ bpp = 9 := by omega
    rcases this with rfl | rfl <;> simp
  · simp

theorem strideBytes_mem (dtype : DataType) :
    dtype.strideBytes ∈ ([0, 1, 2, 3, 4, 6, 8, 12, 16, 24, 32] : List Int32) := by
  have h := bitsPerPixelOf_mem dtype.packing
  unfold DataType.strideBytes
  generalize Packing.bitsPerPixelOf dtype.packing = b at h
  simp only [List.mem_cons, List.not_mem_nil, or_false] at h
  rcases h with rfl | rfl | rfl | rfl | rfl | rfl | rfl | rfl | rfl | rfl | rfl | rfl | rfl | rfl <;>
    decide

/-- A packing with an alignment has a stride. -/
theorem alignment_spec {dtype : DataType} {a : Int32} (h : dtype.alignment = some a)
    (h0 : a ≠ 0) : (∃ k < 6, a.toInt = 2 ^ k) ∧ dtype.strideBytes ≠ 0 := by
  unfold DataType.alignment Packing.alignmentOf at h
  simp only [Option.map_map, Option.map_eq_some_iff] at h
  obtain ⟨p, hp, rfl⟩ := h
  have hv := List.find?_some hp
  have hv : p.value = dtype.packing := by simpa using hv
  unfold DataType.strideBytes
  rw [← hv]
  clear hv hp
  revert h0
  cases p <;> decide +kernel

/-- What the row alignment is made of: every one of it divides `n`. -/
def RowAligned (dev : Device) (dtype : DataType) (userRowAlign : Int32) (n : Int) : Prop :=
  if userRowAlign = 0 then
    (∀ a, dev.texturePitchAlignment = .ok a → (min a 32).toInt ∣ n) ∧
      (roundUpNextPowerOfTwo dtype.strideBytes).toInt ∣ n
  else userRowAlign.toInt ∣ n ∧ ∀ a, dtype.alignment = some a → a.toInt ∣ n

/-- The least `int` is a power of two to the code as well, but its absolute value is no `int`. -/
theorem toInt_of_isPowerOfTwo {u : Int32} (h : isPowerOfTwo u) (h0 : u ≠ 0)
    (habs : u.toInt.natAbs < 2 ^ 31) : ∃ k < 31, u.toInt = 2 ^ k := by
  have hn : u.toBitVec.toNat ≠ 0 := fun hz =>
    h0 (Int32.toBitVec_inj.1 (BitVec.eq_of_toNat_eq hz))
  have hlt := u.toBitVec.isLt
  have hand : u.toBitVec.toNat &&& (u.toBitVec.toNat - 1) = 0 := by
    have h := congrArg (fun x : Int32 => x.toBitVec.toNat) h
    simp only [Int32.toBitVec_and, Int32.toBitVec_sub, BitVec.toNat_and] at h
    rwa [BitVec.toNat_sub_of_le (by rw [BitVec.le_def]; exact Nat.one_le_iff_ne_zero.2 hn)] at h
  obtain ⟨k, hk⟩ := (Nat.and_sub_one_eq_zero_iff_isPowerOfTwo hn).1 hand
  rw [hk] at hlt
  have hk32 : k < 32 := (Nat.pow_lt_pow_iff_right (by decide)).1 hlt
  rw [← Int32.toInt_toBitVec, BitVec.toInt_eq_toNat_cond, hk] at habs ⊢
  by_cases hk31 : k < 31
  · have h31 : 2 ^ k < 2 ^ 31 := Nat.pow_lt_pow_right (by decide) hk31
    rw [if_pos (by omega)]
    exact ⟨k, hk31, by push_cast; rfl⟩
  · have : k = 31 := by omega
    subst this
    exact absurd habs (by decide)

/-- The least common multiple of two powers of two. -/
theorem lcm_two_pow {x y : Int} {i j : Nat} (hx : x = 2 ^ i) (hy : y = 2 ^ j) :
    ∃ k, (k = i ∨ k = j) ∧ (Int.lcm x y : Int) = 2 ^ k := by
  have hn : Int.lcm x y = Nat.lcm (2 ^ i) (2 ^ j) := by
    simp [Int.lcm, hx, hy, Int.natAbs_pow]
  rw [hn]
  rcases Nat.le_total i j with h | h
  · refine ⟨j, .inr rfl, ?_⟩
    rw [Nat.lcm_eq_right (Nat.pow_dvd_pow 2 h)]
    exact_mod_cast rfl
  · refine ⟨i, .inl rfl, ?_⟩
    rw [Nat.lcm_eq_left (Nat.pow_dvd_pow 2 h)]
    exact_mod_cast rfl

theorem roundUpNextPowerOfTwo_strideBytes {dtype : DataType} (h : dtype.strideBytes ≠ 0) :
    ∃ k < 6, (roundUpNextPowerOfTwo dtype.strideBytes).toInt = 2 ^ k := by
  have hm := strideBytes_mem dtype
  generalize dtype.strideBytes = s at h hm
  revert h
  simp only [List.mem_cons, List.not_mem_nil, or_false] at hm
  rcases hm with rfl | rfl | rfl | rfl | rfl | rfl | rfl | rfl | rfl | rfl | rfl <;> decide

theorem toInt_min_32 {a : Int32} {i : Nat} (h : a.toInt = 2 ^ i) :
    (min a 32).toInt = 2 ^ min i 5 := by
  rw [Int32.toInt_min, h, show (32 : Int32).toInt = 2 ^ 5 from rfl]
  rcases Nat.le_total i 5 with h5 | h5
  · rw [min_eq_left h5, min_eq_left (pow_le_pow_right₀ (by decide) h5)]
  · rw [min_eq_right h5, min_eq_right (pow_le_pow_right₀ (by decide) h5)]

/-- **The row alignment**, where it is not zero, is a power of two, and divides what everything it
is made of divides. -/
theorem rowAlignment_spec {dev : Device} {dtype : DataType} {u r : Int32}
    (h : Returns (Tensor.rowAlignment dev dtype u) r) (h0 : r ≠ 0) :
    (∃ k < 31, r.toInt = 2 ^ k) ∧ dtype.strideBytes ≠ 0 ∧
      ∀ n, r.toInt ∣ n ↔ RowAligned dev dtype u n := by
  have hz : r.toInt ≠ 0 := fun h => h0 (Int32.toInt_inj.1 h)
  unfold Tensor.rowAlignment at h
  by_cases hu : u = 0
  · rw [if_pos hu] at h
    obtain ⟨a, ha, hr⟩ := returns_bind.1 h
    have ha : dev.texturePitchAlignment = .ok a := Option.some.inj ha
    have hr := (returns_pure.1 hr).symm
    have hs : dtype.strideBytes ≠ 0 := by
      intro hs
      apply h0
      rw [hr, hs, show (roundUpNextPowerOfTwo 0).toInt = 0 from rfl, Int.lcm_zero_right]
      rfl
    obtain ⟨i, hi, hai⟩ := dev.isPow2 a ha
    obtain ⟨j, hj, hsj⟩ := roundUpNextPowerOfTwo_strideBytes hs
    obtain ⟨k, hk, hlcm⟩ := lcm_two_pow (toInt_min_32 hai) hsj
    have hlt : (2 : Int) ^ k < 2 ^ 31 := by
      exact_mod_cast Nat.pow_lt_pow_right (by decide) (by omega)
    have hpos : (0 : Int) < 2 ^ k := by positivity
    have hrk : r.toInt = 2 ^ k := by
      rw [hr, hlcm]
      exact Int32.toInt_ofInt_of_le (by omega) hlt
    refine ⟨⟨k, by omega, hrk⟩, hs, fun n => ?_⟩
    rw [hrk, ← hlcm, Int.coe_lcm_dvd_iff, RowAligned, if_pos hu]
    refine and_congr_left' ⟨fun h b hb => ?_, fun h => h a ha⟩
    cases ha.symm.trans hb
    exact h
  · rw [if_neg hu] at h
    obtain ⟨hpow, h⟩ := returns_refuse_bind.1 h
    obtain ⟨a, ha, h⟩ := returns_bind.1 h
    have ha := returns_lift.1 ha
    have hri := toInt_int32 (returns_lift.1 h)
    have ha0 : a ≠ 0 := by
      rintro rfl
      apply hz
      rw [hri, Int32.toInt_zero, Int.lcm_zero_right]
      rfl
    obtain ⟨⟨j, hj, haj⟩, hs⟩ := alignment_spec ha ha0
    have habs : u.toInt.natAbs < 2 ^ 31 := by
      have hle : u.toInt.natAbs ≤ Int.lcm u.toInt a.toInt :=
        Nat.le_of_dvd (by omega) (Nat.dvd_lcm_left _ _)
      have hlt := r.toInt_lt
      omega
    obtain ⟨i, hi, hui⟩ := toInt_of_isPowerOfTwo (not_not.1 hpow) hu habs
    obtain ⟨k, hk, hlcm⟩ := lcm_two_pow hui haj
    rw [hlcm] at hri
    refine ⟨⟨k, by omega, hri⟩, hs, fun n => ?_⟩
    rw [hri, ← hlcm, Int.coe_lcm_dvd_iff, RowAligned, if_neg hu]
    refine and_congr_right' ⟨fun h b hb => ?_, fun h => h a ha⟩
    cases ha.symm.trans hb
    exact h

theorem addBuffer_pos {memReq r : MemRequirements} {bufSize a : Int64}
    (h : Returns (addBuffer memReq bufSize a) r) : 0 < a.toInt := by
  have h := (returns_refuse_bind.1 h).1
  rw [Int64.le_iff_toInt_le, Int64.toInt_zero] at h
  omega

theorem baseAlignment_zero {dev : Device} {userBaseAlign a : Int32}
    (h : Returns (Tensor.baseAlignment dev 0 userBaseAlign) a) : a = 0 := by
  have zero_of_lcm : ∀ {x y z : Int32}, lcm x y = some z → x = 0 ∨ y = 0 → z = 0 := by
    intro x y z hz h0
    apply Int32.toInt_inj.1
    rw [toInt_int32 hz]
    rcases h0 with rfl | rfl
    · rw [Int32.toInt_zero, Int.lcm_zero_left]
      rfl
    · rw [Int32.toInt_zero, Int.lcm_zero_right]
      rfl
  unfold Tensor.baseAlignment at h
  split_ifs at h
  · obtain ⟨addr, -, h⟩ := returns_bind.1 h
    obtain ⟨al, hal, h⟩ := returns_bind.1 h
    have hr := returns_pure.1 (returns_refuse_bind.1 h).2
    rw [← hr, zero_of_lcm (returns_lift.1 hal) (.inr rfl)]
    rfl
  · exact zero_of_lcm (returns_lift.1 (returns_refuse_bind.1 h).2) (.inl rfl)

/-! ## Layouts -/

/-- The last label is the channel's, or there is no label. -/
def TensorLayout.ChannelLast (layout : TensorLayout) : Prop :=
  layout.labels = [] ∨ layout.labels.getLast? = some 'C'.toUInt8

instance (layout : TensorLayout) : Decidable layout.ChannelLast :=
  inferInstanceAs (Decidable (_ ∨ _))

theorem length_labels {layout : TensorLayout} (h : layout.InBounds) :
    layout.labels.length = layout.rank.toInt.toNat := by
  obtain ⟨h0, h16⟩ := h
  rw [Int32.le_iff_toInt_le] at h0 h16
  have h16' : (16 : Int32).toInt = 16 := rfl
  rw [TensorLayout.labels, List.length_take, Vector.length_toList]
  unfold tensorMaxRank
  omega

theorem isChannelLast_eq {layout : TensorLayout} (h : layout.InBounds) :
    layout.isChannelLast = some (decide layout.ChannelLast) := by
  have hlen := length_labels h
  have hrank : layout.rank = 0 ↔ layout.labels = [] := by
    have h0 := Int32.le_iff_toInt_le.1 h.1
    rw [Int32.toInt_zero] at h0
    rw [← List.length_eq_zero_iff, hlen, ← Int32.toInt_inj, Int32.toInt_zero]
    omega
  unfold TensorLayout.isChannelLast
  by_cases h0 : layout.rank = 0
  · have hc : layout.ChannelLast := .inl (hrank.1 h0)
    rw [if_pos h0, decide_eq_true hc]
  · have hc : layout.ChannelLast ↔ layout.labels.getLast? = some 'C'.toUInt8 :=
      or_iff_right fun hnil => h0 (hrank.2 hnil)
    rw [if_neg h0, if_pos h]
    exact congrArg some (decide_eq_decide.2 hc.symm)

theorem createLast_wc {layout : TensorLayout} {last : List UInt8}
    (h : Returns (layout.createLast 2) last) :
    layout.InBounds ∧ (last = TensorLayout.wc ↔ TensorLayout.wc <:+ layout.labels) := by
  unfold TensorLayout.createLast at h
  have h := (returns_refuse_bind.1 h).2
  split_ifs at h with hb
  · refine ⟨hb, ?_⟩
    rw [← returns_pure.1 h, List.suffix_iff_eq_drop, eq_comm, TensorLayout.wc]
    rcases Nat.le_total 2 layout.labels.length with h2 | h2
    · rw [min_eq_left h2]
      rfl
    · rw [min_eq_right h2, Nat.sub_self, List.drop_zero]
      have : layout.labels.length - 2 = 0 := by omega
      simp [this]
  · exact absurd (returns_lift.1 h) (by simp)

/-! ## The strides -/

theorem calcStrides_cons {e : Int64} {fp : Nat} {ra : Int32} {d : Nat} {m n : Int64}
    {ns ts : List Int64} (h : Tensor.calcStrides e fp ra d (m :: n :: ns) = some ts) :
    ∃ t s ss v, ts = t :: s :: ss ∧ Tensor.calcStrides e fp ra (d + 1) (n :: ns) = some (s :: ss) ∧
      v.toInt = n.toInt * s.toInt ∧
      (if d + 1 = fp then roundUpPowerOfTwo v ra else some v) = some t := by
  unfold Tensor.calcStrides at h
  rcases htail : Tensor.calcStrides e fp ra (d + 1) (n :: ns) with _ | _ | ⟨s, ss⟩
  · simp [htail] at h
  · simp [htail] at h
  · rcases hv : int64? (n.toInt * s.toInt) with _ | v
    · simp [htail, hv] at h
    · simp only [htail, hv, Option.bind_eq_bind, Option.bind_some, Option.pure_def] at h
      by_cases hd : d + 1 = fp
      · rw [if_pos hd] at h
        obtain ⟨t, ht, he⟩ := Option.bind_eq_some_iff.1 h
        exact ⟨t, s, ss, v, (Option.some.inj he).symm, rfl, toInt_int64 hv, by rw [if_pos hd, ht]⟩
      · rw [if_neg hd] at h
        exact ⟨v, s, ss, v, (Option.some.inj h).symm, rfl, toInt_int64 hv, by rw [if_neg hd]⟩

/-- A stride reaches over the dimension after it, and is the size of it where nothing is rounded. -/
theorem stride_spec {fp d : Nat} {ra : Int32} {k : Nat} (hk : k < 31) (hra : ra.toInt = 2 ^ k)
    {v t : Int64} (hv : 0 ≤ v.toInt)
    (h : (if d + 1 = fp then roundUpPowerOfTwo v ra else some v) = some t) :
    v.toInt ≤ t.toInt ∧ (t.toInt = v.toInt ↔ d + 1 ≠ fp ∨ ra.toInt ∣ v.toInt) := by
  split_ifs at h with hd
  · have hr := toInt_roundUpPowerOfTwo hk hra hv h
    have h2k := Nat.two_pow_pos k
    have hle := le_roundUp v.toInt.toNat h2k
    have heq := roundUp_eq_iff (n := v.toInt.toNat) h2k
    refine ⟨by omega, ?_⟩
    have hcast : ra.toInt ∣ v.toInt ↔ 2 ^ k ∣ v.toInt.toNat := by
      rw [hra, ← Int.natCast_dvd_natCast, Int.toNat_of_nonneg hv]
      push_cast
      rfl
    rw [hcast, ← heq]
    omega
  · cases h
    exact ⟨le_refl _, iff_of_true rfl (.inl hd)⟩

/-! ## The test -/

/-- The stride and the size that are considered reach over at most `n`. -/
def Reach (r : Int32 × Int32) (n : Int) : Prop :=
  ∃ p q : Int, 0 ≤ p ∧ 0 ≤ q ∧ r.1 = .ofInt p ∧ r.2 = .ofInt q ∧ p * q ≤ n

theorem bmod_le_self {x : Int} (h : 0 ≤ x) : x.bmod (2 ^ 32) ≤ x := by
  rw [Int.bmod_def]
  split_ifs <;> omega

theorem Reach.le {r : Int32 × Int32} {n : Int} (h : Reach r n) : (r.1 * r.2).toInt ≤ n := by
  obtain ⟨p, q, hp, hq, h1, h2, hle⟩ := h
  rw [h1, h2, ← Int32.ofInt_mul, Int32.toInt_ofInt]
  exact (bmod_le_self (Int.mul_nonneg hp hq)).trans hle

section
variable {e : Int32} {fp : Nat}

/-- One dimension more: what was considered before it, and when it passes. -/
theorem testDims_cons {d : Nat} {m t : Int64} {x : Int64 × Int64} {ds : List (Int64 × Int64)}
    {r : Int32 × Int32} : testDims e fp d ((m, t) :: x :: ds) = .ok r ↔
      ∃ p, testDims e fp (d + 1) (x :: ds) = .ok p ∧
        if m ≤ 1 then r = p
        else r = (t.toInt32, m.toInt32) ∧
          if fp ≤ d then t = (p.1 * p.2).toInt64 else (p.1 * p.2).toInt64 ≤ t := by
  rw [testDims, if_neg (List.cons_ne_nil _ _)]
  rcases testDims e fp (d + 1) (x :: ds) with err | ⟨p, q⟩
  · simp [bind, Except.bind]
  · simp only [bind, Except.bind, pure, Except.pure, List.cons_ne_nil, if_false, throw,
      throwThe, MonadExceptOf.throw, Except.ok.injEq, exists_eq_left']
    by_cases hm : m ≤ 1
    · rw [if_pos hm, if_pos hm, Except.ok.injEq, eq_comm]
    · rw [if_neg hm, if_neg hm]
      by_cases hd : fp ≤ d
      · rw [if_pos hd, if_pos hd]
        by_cases ht : t = (p * q).toInt64
        · simp [ht, eq_comm]
        · simp [ht]
      · rw [if_neg hd, if_neg hd]
        by_cases ht : t < (p * q).toInt64
        · simp [ht]
        · simp [ht, Int64.not_lt.1 ht, eq_comm]

/-- The last dimension passes with the stride of an element. -/
theorem testDims_last {d : Nat} (hd : fp ≤ d) (n : Int64) :
    testDims e fp d [(n, e.toInt64)] = .ok (e, n.toInt32) := by
  rw [testDims, if_pos rfl]
  simp only [bind, Except.bind, pure, Except.pure, if_true, Int32.toInt32_toInt64]
  by_cases hn : n ≤ 1
  · rw [if_pos hn]
  · rw [if_neg hn, if_pos hd, if_neg (not_not_intro rfl)]

/-- The two dimensions at the end, of which the first is packed. -/
theorem testDims_pair {d : Nat} (hd : fp ≤ d) (m t n : Int64) :
    (∃ r, testDims e fp d [(m, t), (n, e.toInt64)] = .ok r) ↔
      m ≤ 1 ∨ t = (e * n.toInt32).toInt64 := by
  have hl := testDims_last (e := e) (by omega : fp ≤ d + 1) n
  constructor
  · rintro ⟨r, h⟩
    obtain ⟨p, hp, h⟩ := testDims_cons.1 h
    cases hl.symm.trans hp
    split_ifs at h with hm
    · exact .inl hm
    · exact .inr h.2
  · rintro (hm | ht)
    · exact ⟨_, testDims_cons.2 ⟨_, hl, by rw [if_pos hm]⟩⟩
    · by_cases hm : m ≤ 1
      · exact ⟨_, testDims_cons.2 ⟨_, hl, by rw [if_pos hm]⟩⟩
      · exact ⟨_, testDims_cons.2 ⟨_, hl, by rw [if_neg hm, if_pos hd]; exact ⟨rfl, ht⟩⟩⟩

end

section
variable {e ra : Int32} {k fpC : Nat} (he : 0 < e.toInt) (hk : k < 31) (hra : ra.toInt = 2 ^ k)
include he hk hra

/-- What is considered after the dimensions from `d` on is within the first of them. -/
theorem testDims_reach {fp d : Nat} {n : Int64} {ns ss : List Int64} {r : Int32 × Int32}
    (hc : Tensor.calcStrides e.toInt64 fpC ra d (n :: ns) = some ss)
    (hpos : ∀ m ∈ n :: ns, 1 ≤ m.toInt) (hfp : fp ≤ d + ns.length)
    (h : testDims e fp d ((n :: ns).zip ss) = .ok r) :
    ∃ s ss', ss = s :: ss' ∧ 0 < s.toInt ∧ Reach r (n.toInt * s.toInt) := by
  induction ns generalizing d n ss r with
  | nil =>
    cases hc
    refine ⟨_, _, rfl, by rwa [Int32.toInt_toInt64], ?_⟩
    cases (testDims_last hfp n).symm.trans h
    have hn := hpos n (.head _)
    refine ⟨e.toInt, n.toInt, he.le, by omega, (Int32.ofInt_toInt e).symm, ?_, ?_⟩
    · exact (Int32.ofInt_int64ToInt n).symm
    · rw [Int32.toInt_toInt64, Int.mul_comm]
  | cons m ns ih =>
    obtain ⟨t, s, ss', v, rfl, hc', hv, ht⟩ := calcStrides_cons hc
    obtain ⟨p, hp, h⟩ := testDims_cons.1 h
    obtain ⟨s', ss'', he', hs, hreach⟩ := ih hc' (fun m hm => hpos m (.tail _ hm))
      (by rw [List.length_cons] at hfp; omega) hp
    cases he'
    have hn := hpos n (.head _)
    have hm := hpos m (.tail _ (.head _))
    have hv0 : 0 < v.toInt := by
      rw [hv]
      exact Int.mul_pos (by omega) hs
    have hvt := (stride_spec hk hra hv0.le ht).1
    refine ⟨t, _, rfl, by omega, ?_⟩
    by_cases h1 : n ≤ 1
    · rw [if_pos h1] at h
      obtain ⟨a, b, ha, hb, h1', h2', hle⟩ := hreach
      rw [Int64.le_iff_toInt_le] at h1
      have h1 : n.toInt = 1 := le_antisymm h1 hn
      subst h
      refine ⟨a, b, ha, hb, h1', h2', ?_⟩
      rw [h1, Int.one_mul]
      omega
    · rw [if_neg h1] at h
      obtain ⟨rfl, -⟩ := h
      refine ⟨t.toInt, n.toInt, by omega, by omega, (Int32.ofInt_int64ToInt t).symm,
        (Int32.ofInt_int64ToInt n).symm, by rw [Int.mul_comm]⟩

/-- **Only the packed dimensions decide**: the dimensions before them pass when they do. -/
theorem testDims_prefix {d : Nat} {pre last ss : List Int64} (hl : last ≠ [])
    (hc : Tensor.calcStrides e.toInt64 fpC ra d (pre ++ last) = some ss)
    (hpos : ∀ m ∈ pre ++ last, 1 ≤ m.toInt) :
    ∃ ls, Tensor.calcStrides e.toInt64 fpC ra (d + pre.length) last = some ls ∧
      ((∃ r, testDims e (d + pre.length) d ((pre ++ last).zip ss) = .ok r) ↔
        ∃ r, testDims e (d + pre.length) (d + pre.length) (last.zip ls) = .ok r) := by
  induction pre generalizing d ss with
  | nil => exact ⟨ss, hc, Iff.rfl⟩
  | cons m pre ih =>
    obtain ⟨n, ns, hn⟩ := List.exists_cons_of_ne_nil (List.append_ne_nil_of_right_ne_nil pre hl)
    rw [List.cons_append, hn] at hc
    obtain ⟨t, s, ss', v, rfl, hc', hv, ht⟩ := calcStrides_cons hc
    have hpos' : ∀ x ∈ pre ++ last, 1 ≤ x.toInt := fun x hx => hpos x (.tail _ hx)
    rw [← hn] at hc'
    obtain ⟨ls, hls, hiff⟩ := ih hc' hpos'
    rw [List.length_cons, show d + (pre.length + 1) = d + 1 + pre.length by omega]
    refine ⟨ls, hls, Iff.trans ?_ hiff⟩
    rw [List.cons_append, List.zip_cons_cons, hn, List.zip_cons_cons]
    constructor
    · rintro ⟨r, h⟩
      obtain ⟨p, hp, -⟩ := testDims_cons.1 h
      exact ⟨p, hp⟩
    · rintro ⟨p, hp⟩
      rw [hn] at hc' hpos'
      obtain ⟨s', ss'', he', hs, hreach⟩ := testDims_reach he hk hra hc' hpos' (by
        have := congrArg List.length hn
        have := List.length_pos_iff.2 hl
        simp only [List.length_append, List.length_cons] at *
        omega) hp
      cases he'
      have hv0 : 0 ≤ v.toInt := by
        rw [hv]
        exact Int.mul_nonneg (by have := hpos' n (.head _); omega) hs.le
      have hvt := (stride_spec hk hra hv0 ht).1
      have hle : (p.1 * p.2).toInt64 ≤ t := by
        rw [Int64.le_iff_toInt_le, Int32.toInt_toInt64]
        exact hreach.le.trans (hv ▸ hvt)
      by_cases hm : m ≤ 1
      · exact ⟨p, testDims_cons.2 ⟨p, hp, by rw [if_pos hm]⟩⟩
      · exact ⟨_, testDims_cons.2 ⟨p, hp, by rw [if_neg hm, if_neg (by omega)]; exact ⟨rfl, hle⟩⟩⟩


theorem pack_iff {t v n : Int64} (hv : v.toInt = n.toInt * e.toInt) (hn : 1 ≤ n.toInt)
    {d : Nat} (ht : (if d + 1 = fpC then roundUpPowerOfTwo v ra else some v) = some t) :
    t = (e * n.toInt32).toInt64 ↔
      n.toInt * e.toInt < 2 ^ 31 ∧ (d + 1 ≠ fpC ∨ ra.toInt ∣ n.toInt * e.toInt) := by
  have hpos : 0 ≤ n.toInt * e.toInt := Int.mul_nonneg (by omega) he.le
  obtain ⟨hle, heq⟩ := stride_spec hk hra (hv ▸ hpos) ht
  have hmul : (e * n.toInt32).toInt = (n.toInt * e.toInt).bmod (2 ^ 32) := by
    rw [← Int32.ofInt_int64ToInt, ← Int32.ofInt_toInt e, ← Int32.ofInt_mul, Int32.toInt_ofInt,
      Int32.ofInt_toInt, Int.mul_comm]
    rfl
  have hb := bmod_le_self hpos
  have hlt := Int.bmod_lt (x := n.toInt * e.toInt) (m := 2 ^ 32) (by decide)
  rw [← Int64.toInt_inj, Int32.toInt_toInt64, hmul, ← hv, ← heq]
  rw [← hv] at hb hlt
  constructor
  · intro h
    refine ⟨by omega, by omega⟩
  · rintro ⟨h31, ht⟩
    rw [ht]
    exact (Int.bmod_eq_of_le (by omega) (by omega)).symm

end

/-! ## The call as a whole -/

theorem testShape_ok {i : Nat} {ns : List Int64} :
    testShape i ns = .ok () ↔ ∀ n ∈ ns, 1 ≤ n.toInt := by
  induction ns generalizing i with
  | nil => simp [testShape]
  | cons n ns ih =>
    have h1 : n < 1 ↔ ¬1 ≤ n.toInt := by
      rw [Int64.lt_iff_toInt_lt, show (1 : Int64).toInt = 1 from rfl]
      omega
    rw [testShape, List.forall_mem_cons]
    by_cases hn : n < 1
    · rw [if_pos hn]
      exact iff_of_false nofun fun h => h1.1 hn h.1
    · rw [if_neg hn, ih, and_iff_right (not_not.1 (mt h1.2 hn))]

theorem length_calcStrides {e : Int64} {fp : Nat} {ra : Int32} {d : Nat} {sh ss : List Int64}
    (h : Tensor.calcStrides e fp ra d sh = some ss) : ss.length = sh.length := by
  induction sh generalizing d ss with
  | nil => cases h; rfl
  | cons m sh ih =>
    cases sh with
    | nil => cases h; rfl
    | cons n ns =>
      obtain ⟨t, s, ss', v, rfl, hc, -⟩ := calcStrides_cons h
      rw [List.length_cons, ih hc]
      rfl

/-- What a call that succeeds has computed. -/
theorem calcRequirements_spec {dev : Device} {rank : Int32} {shape : Nat → Int64}
    {dtype : DataType} {layout : TensorLayout} {userBaseAlign userRowAlign : Int32}
    {reqs : TensorRequirements}
    (h : Returns (Tensor.calcRequirements dev rank shape dtype layout userBaseAlign userRowAlign)
      reqs) :
    layout.InBounds ∧ reqs.layout = layout ∧ reqs.dtype = dtype ∧
      0 < (targetShape rank shape).length ∧ reqs.rank = (targetShape rank shape).length ∧
      ∃ rowAlign strides, Returns (Tensor.rowAlignment dev dtype userRowAlign) rowAlign ∧
        rowAlign ≠ 0 ∧
        Tensor.calcStrides dtype.strideBytes.toInt64
          (if TensorLayout.wc <:+ layout.labels then (targetShape rank shape).length - 2
            else (targetShape rank shape).length - 1) rowAlign 0 (targetShape rank shape) =
          some strides ∧
        ∀ memBuffer, (reqs.exportData memBuffer).dims = (targetShape rank shape).zip strides := by
  have hlen : (targetShape rank shape).length = rank.toInt.toNat := by simp [targetShape]
  obtain ⟨-, h⟩ := returns_refuse_bind.1 h
  obtain ⟨hrank, h⟩ := returns_refuse_bind.1 h
  rw [Int32.le_iff_toInt_le, Int32.toInt_zero] at hrank
  split_ifs at h with hmax
  · obtain ⟨-, -, h⟩ := returns_bind.1 h
    obtain ⟨rowAlign, hrow, h⟩ := returns_bind.1 h
    obtain ⟨alignBytes, hbase, h⟩ := returns_bind.1 h
    obtain ⟨last, hlast, h⟩ := returns_bind.1 h
    obtain ⟨strides, hstrides, h⟩ := returns_bind.1 h
    obtain ⟨bufSize, -, h⟩ := returns_bind.1 h
    obtain ⟨cudaMem, hadd, h⟩ := returns_bind.1 h
    obtain ⟨hb, hwc⟩ := createLast_wc hlast
    have hstrides := returns_lift.1 hstrides
    rw [hlen] at hstrides
    have hslen := length_calcStrides hstrides
    have hreqs := returns_pure.1 h
    refine ⟨hb, by rw [← hreqs], by rw [← hreqs], by omega, by rw [← hreqs, hlen],
      rowAlign, strides, hrow, ?_, ?_, fun memBuffer => ?_⟩
    · rintro rfl
      have := addBuffer_pos hadd
      rw [baseAlignment_zero hbase] at this
      exact absurd this (by decide)
    · simp only [hwc] at hstrides
      rw [hlen]
      exact hstrides
    · unfold tensorMaxRank at hmax
      rw [← hreqs]
      unfold TensorData.dims TensorRequirements.exportData
      dsimp only
      rw [toList_overwrite _ (by unfold tensorMaxRank; omega),
        toList_overwrite _ (by unfold tensorMaxRank; omega), List.take_left' hlen,
        List.take_left' (hslen.trans hlen)]
  · cases returns_lift.1 h

theorem validate_iff {t : TensorData} (hbuf : t.basePtr ≠ 0#64) (hrank : t.rank ≠ 0)
    (hb : t.layout.InBounds) :
    Returns (validateTensorBufferStrided t) () ↔
      testShape 0 (t.dims.map Prod.fst) = .ok () ∧
        ∃ r, testDims t.dtype.strideBytes
          (if t.layout.ChannelLast then t.rank - 2 else t.rank - 1) 0 t.dims = .ok r := by
  unfold validateTensorBufferStrided
  rw [returns_refuse_bind, returns_refuse_bind, returns_bind, and_iff_right hbuf,
    and_iff_right hrank]
  have hmk : ∀ {α : Type} {x : Except Exception α} {a : α},
      Returns (ExceptT.mk (some x) : Call α) a ↔ x = .ok a := by
    intro α x a
    exact ⟨Option.some.inj, congrArg some⟩
  constructor
  · rintro ⟨u, hs, h⟩
    obtain ⟨c, hc, h⟩ := returns_bind.1 h
    obtain ⟨r, hr, -⟩ := returns_bind.1 h
    have hc := (isChannelLast_eq hb).symm.trans (returns_lift.1 hc)
    rw [← Option.some.inj hc] at hr
    exact ⟨hmk.1 hs, r, by simpa using hmk.1 hr⟩
  · rintro ⟨hs, r, hr⟩
    refine ⟨(), hmk.2 hs, returns_bind.2 ⟨_, returns_lift.2 (isChannelLast_eq hb),
      returns_bind.2 ⟨r, hmk.2 ?_, returns_pure.2 rfl⟩⟩⟩
    simpa using hr

theorem strideBytes_pos {dtype : DataType} (h : dtype.strideBytes ≠ 0) :
    0 < dtype.strideBytes.toInt := by
  have hm := strideBytes_mem dtype
  generalize dtype.strideBytes = s at h hm
  revert h
  simp only [List.mem_cons, List.not_mem_nil, or_false] at hm
  rcases hm with rfl | rfl | rfl | rfl | rfl | rfl | rfl | rfl | rfl | rfl | rfl <;> decide

theorem split_last {α : Type} {l : List α} (h : l ≠ []) : ∃ pre x, l = pre ++ [x] :=
  ⟨_, _, (List.dropLast_append_getLast h).symm⟩

/-- When a tensor's exported data can be wrapped: no size is below one, and, where the layout says
nothing or ends with the channels, the rows are packed and their bytes counted in an `int`. -/
structure Rewrappable (dev : Device) (sh : List Int64) (dtype : DataType) (layout : TensorLayout)
    (userRowAlign : Int32) : Prop where
  sizes : ∀ n ∈ sh, 1 ≤ n.toInt
  rows : layout.ChannelLast → ∀ pre m n, sh = pre ++ [m, n] → m = 1 ∨
    n.toInt * dtype.strideBytes.toInt < 2 ^ 31 ∧
      (TensorLayout.wc <:+ layout.labels ∨
        RowAligned dev dtype userRowAlign (n.toInt * dtype.strideBytes.toInt))

/-- **When computed strides pass**: the rows of a layout that is taken for channel-last are packed,
and their bytes counted in an `int`. -/
theorem testDims_rows_iff {e ra : Int32} {k fpC : Nat} (he : 0 < e.toInt) (hk : k < 31)
    (hra : ra.toInt = 2 ^ k) (channelLast : Bool) {sh ss : List Int64}
    (hc : Tensor.calcStrides e.toInt64 fpC ra 0 sh = some ss) (hpos : ∀ n ∈ sh, 1 ≤ n.toInt)
    (hne : sh ≠ []) :
    (∃ r, testDims e (if channelLast then sh.length - 2 else sh.length - 1) 0 (sh.zip ss) = .ok r) ↔
      (channelLast → ∀ pre m n, sh = pre ++ [m, n] → m = 1 ∨
        n.toInt * e.toInt < 2 ^ 31 ∧ (pre.length + 1 ≠ fpC ∨ ra.toInt ∣ n.toInt * e.toInt)) := by
  obtain ⟨pre, n, rfl⟩ := split_last hne
  by_cases hpack : channelLast ∧ pre ≠ []
  · obtain ⟨hcl, hpre⟩ := hpack
    obtain ⟨pre, m, rfl⟩ := split_last hpre
    rw [List.append_assoc] at hc hpos ⊢
    rw [if_pos hcl]
    obtain ⟨ls, hls, hiff⟩ := testDims_prefix he hk hra (by simp) hc hpos
    obtain ⟨t, s, ss', v, rfl, hlast, hv, ht⟩ := calcStrides_cons hls
    cases hlast
    have hm := hpos m (by simp)
    have hn := hpos n (by simp)
    have hm1 : m ≤ 1 ↔ m = 1 := by
      rw [Int64.le_iff_toInt_le, ← Int64.toInt_inj, show (1 : Int64).toInt = 1 from rfl]
      omega
    have hfp : ((pre ++ ([m] ++ [n])).length - 2) = 0 + pre.length := by simp
    rw [hfp, hiff, List.cons_append, List.nil_append, List.zip_cons_cons, List.zip_cons_cons,
      List.zip_nil_left, testDims_pair le_rfl, hm1,
      pack_iff he hk hra (by rw [hv, Int32.toInt_toInt64]) hn ht, Nat.zero_add]
    constructor
    · rintro h - pre' m' n' heq
      obtain ⟨rfl, hmn⟩ := List.append_inj' heq rfl
      cases hmn
      exact h
    · exact fun h => h hcl pre m n rfl
  · have hfp : (if channelLast then (pre ++ [n]).length - 2 else (pre ++ [n]).length - 1) =
        0 + pre.length := by
      split_ifs with hcl
      · have : pre = [] := by
          by_contra hne
          exact hpack ⟨hcl, hne⟩
        simp [this]
      · simp
    obtain ⟨ls, hls, hiff⟩ := testDims_prefix he hk hra (by simp) hc hpos
    cases hls
    rw [hfp, hiff]
    refine iff_of_true ⟨_, testDims_last le_rfl n⟩ fun hcl pre' m' n' heq => absurd ⟨hcl, ?_⟩ hpack
    intro hnil
    have := congrArg List.length heq
    simp [hnil] at this

/-- **What a created tensor exports can be wrapped again** if, and only if, the sizes are positive
and the rows of a layout that is taken for channel-last are packed. -/
theorem exported_wraps_iff {dev : Device} {rank : Int32} {shape : Nat → Int64} {dtype : DataType}
    {layout : TensorLayout} {userBaseAlign userRowAlign : Int32} {reqs : TensorRequirements}
    (h : Returns (Tensor.calcRequirements dev rank shape dtype layout userBaseAlign userRowAlign)
      reqs) {memBuffer : BitVec 64} (hbuf : memBuffer ≠ 0#64) :
    Returns (validateTensorBufferStrided (reqs.exportData memBuffer)) () ↔
      Rewrappable dev (targetShape rank shape) dtype layout userRowAlign := by
  obtain ⟨hb, hlayout, hdtype, hlen, hrank, ra, ss, hrow, hra0, hc, hdims⟩ :=
    calcRequirements_spec h
  obtain ⟨⟨k, hk, hra⟩, hs0, haligned⟩ := rowAlignment_spec hrow hra0
  have he := strideBytes_pos hs0
  have hsplit : Rewrappable dev (targetShape rank shape) dtype layout userRowAlign ↔ _ ∧ _ :=
    ⟨fun h => ⟨h.sizes, h.rows⟩, fun h => ⟨h.1, h.2⟩⟩
  rw [validate_iff hbuf (by show reqs.rank ≠ 0; omega) (by show reqs.layout.InBounds; rwa [hlayout]),
    hdims, hsplit]
  show _ ∧ (∃ r, testDims reqs.dtype.strideBytes
    (if reqs.layout.ChannelLast then reqs.rank - 2 else reqs.rank - 1) 0 _ = .ok r) ↔ _
  rw [hlayout, hdtype, hrank]
  generalize targetShape rank shape = sh at *
  rw [List.map_fst_zip (length_calcStrides hc).ge, testShape_ok]
  refine and_congr_right fun hpos => ?_
  have hrows := testDims_rows_iff he hk hra (decide layout.ChannelLast) hc hpos
    (List.length_pos_iff.1 hlen)
  simp only [decide_eq_true_eq] at hrows
  rw [hrows]
  refine imp_congr_right fun hcl => forall_congr' fun pre => forall_congr' fun m =>
    forall_congr' fun n => forall_congr' fun heq => ?_
  have hlen : sh.length = pre.length + 2 := by rw [heq, List.length_append]; rfl
  have hwc : pre.length + 1 ≠ (if TensorLayout.wc <:+ layout.labels then sh.length - 2
      else sh.length - 1) ↔ TensorLayout.wc <:+ layout.labels := by
    split_ifs with hw
    · exact iff_of_true (by omega) hw
    · exact iff_of_false (by omega) hw
  rw [hwc, haligned]

/-- A device with rows of 32 bytes and textures of 512. -/
def device : Device where
  getDevice := .ok ()
  texturePitchAlignment := .ok 32
  textureAlignment := .ok 512
  isPow2 := by
    intro a ha
    cases ha
    exact ⟨5, by decide, by decide⟩

/-- `NVCV_DATA_TYPE_U8`. -/
def u8 : DataType :=
  ImageFormat.makeFormat .undefined (.ofNat 64 (2 ^ 15 - 1)) 0#64
    { memLayout := .pitchLinear, dataKind := .unsigned, swizzle := .SX000, alphaType := .associated,
      packing0 := .X8, packing1 := .zero, packing2 := .zero, packing3 := .zero,
      exChannelInfo := none }

def layoutOf (labels : List Char) : TensorLayout :=
  ⟨.ofFn fun i => (labels.map Char.toUInt8).getD i.1 0, .ofNat labels.length⟩

def sizes (ns : List Int64) : Nat → Int64 := fun i => ns.getD i 0

def requirements (layout : TensorLayout) (sh ss : List Int64) (h : sh.length ≤ tensorMaxRank) :
    TensorRequirements where
  dtype := u8
  layout := layout
  rank := sh.length
  rank_le := h
  shape := overwrite (.replicate _ 0) sh
  strides := overwrite (.replicate _ 0) ss
  alignBytes := 512
  cudaMem := (Vector.replicate _ 0).set 9 1

/-- Two rows of four pixels with three channels. -/
theorem exported_wraps_iff_hwc :
    let reqs := requirements (layoutOf ['H', 'W', 'C']) [2, 4, 3] [32, 3, 1] (by decide)
    Returns (Tensor.calcRequirements device 3 (sizes [2, 4, 3]) u8 (layoutOf ['H', 'W', 'C']) 0 0)
        reqs ∧ Returns (validateTensorBufferStrided (reqs.exportData 512#64)) () := by
  have h : Returns (Tensor.calcRequirements device 3 (sizes [2, 4, 3]) u8
      (layoutOf ['H', 'W', 'C']) 0 0)
      (requirements (layoutOf ['H', 'W', 'C']) [2, 4, 3] [32, 3, 1] (by decide)) := by
    decide +kernel
  refine ⟨h, (exported_wraps_iff h (by decide)).2 ⟨forall_mem_of_all rfl, fun _ pre m n heq => .inr ?_⟩⟩
  have heq : [2] ++ [4, 3] = pre ++ [m, n] := heq
  obtain ⟨-, heq⟩ := List.append_inj' heq rfl
  cases heq
  exact ⟨by decide +kernel, .inl ⟨['H'.toUInt8], by decide⟩⟩

/-- Four rows of three bytes without a layout: created with padded rows, which wrapping refuses. -/
theorem padded_rows_refused :
    let reqs := requirements (layoutOf []) [4, 3] [32, 1] (by decide)
    Returns (Tensor.calcRequirements device 2 (sizes [4, 3]) u8 (layoutOf []) 0 0) reqs ∧
      512 % reqs.alignBytes.toInt = 0 ∧
      (validateTensorBufferStrided (reqs.exportData 512#64)).run =
        some (.error (.nvcv .invalidArgument
          "Pitch of dimension 0 must be == 3 (packed), but it is 32")) ∧
      ¬Returns (validateTensorBufferStrided (reqs.exportData 512#64)) () := by
  refine ⟨by decide +kernel, by decide +kernel, by decide +kernel, by decide +kernel⟩

end Nvcv
