import CvCuda.Cvcuda.StreamId

/-! # What the stream identifiers tell apart

The identifier of a per-thread stream has the device above the thread; that of a legacy stream is
`-1` on every device, which is also the key of a payload without a stream.

* `legacy_id`, `perThread_toNat`: the identifiers.
* `cacheKey_injective_iff`: which default streams have a key of their own.
* `legacy_shared`: the legacy streams of two devices.
-/

namespace Cvcuda

open Nvcv

/-! ## The words -/

theorem signExtend_neg_one : toUInt64 (-1) = -1#64 := by decide

theorem legacy_id (dev : Int32) : makeLegacyStreamId dev (-1) = -1#64 := by
  rw [makeLegacyStreamId, signExtend_neg_one]
  exact BitVec.or_allOnes

theorem toUInt64_toNat {x : Int32} (h : 0 ≤ x) : (toUInt64 x).toNat = x.toInt.toNat := by
  have hx : 0 ≤ x.toInt := Int32.le_iff_toInt_le.1 h
  have hm : x.toBitVec.msb = false := by
    rw [BitVec.msb_eq_false_iff_two_mul_lt]
    rw [← Int32.toInt_toBitVec, BitVec.toInt_eq_toNat_cond] at hx
    split_ifs at hx with hc
    · exact hc
    · have := x.toBitVec.isLt
      omega
  rw [toUInt64, BitVec.signExtend_eq_setWidth_of_msb_false hm, BitVec.toNat_setWidth,
    ← Int32.toInt_toBitVec, BitVec.toInt_eq_toNat_of_msb hm, Int.toNat_natCast]
  exact Nat.mod_eq_of_lt (by have := x.toBitVec.isLt; omega)

theorem perThread_toNat {dev tid : Int32} (hd : 0 ≤ dev) (ht : 0 ≤ tid) :
    (makeLegacyStreamId dev tid).toNat = dev.toInt.toNat * 2 ^ 32 + tid.toInt.toNat := by
  have hdl := dev.toInt_lt
  have htl := tid.toInt_lt
  have hshift : (toUInt64 dev <<< 32).toNat = dev.toInt.toNat * 2 ^ 32 := by
    rw [BitVec.toNat_shiftLeft, toUInt64_toNat hd, Nat.shiftLeft_eq]
    exact Nat.mod_eq_of_lt (by omega)
  rw [makeLegacyStreamId, BitVec.toNat_or, hshift, toUInt64_toNat ht, Nat.mul_comm,
    ← Nat.two_pow_add_eq_or_of_lt (by omega)]

/-! ## The default streams -/

/-- A default stream, or none; threads have one each on every device. -/
inductive DefaultStream (Thread : Type) where
  | legacy
  | perThread (t : Thread)
  | absent
  deriving DecidableEq

namespace DefaultStream

variable {Thread : Type}

/-- The handles of a default stream. -/
inductive Handle : DefaultStream Thread → Option MUstream → Prop where
  | null : Handle .legacy (some .null)
  | legacy : Handle .legacy (some .legacy)
  | perThread (t : Thread) : Handle (.perThread t) (some .perThread)
  | absent : Handle .absent none

/-- The key of a default stream on a device. -/
def key (gettid : Thread → Int32) (dev : Int32) : DefaultStream Thread → BitVec 64
  | .legacy => makeLegacyStreamId dev (-1)
  | .perThread t => makeLegacyStreamId dev (gettid t)
  | .absent => -1

/-- The caller `c` has the device and, for a per-thread stream, is the thread. -/
structure CalledBy (gettid : Thread → Int32) (dev : Int32) (s : DefaultStream Thread)
    (c : Caller) : Prop where
  device : c.device = some dev
  tid : ∀ t, s = .perThread t → c.tid = gettid t

/-- The key that is computed does not depend on the handle or the driver. -/
theorem cacheKey_eq {gettid : Thread → Int32} {dev : Int32} {s : DefaultStream Thread}
    {c : Caller} {handle : Option MUstream} (hc : CalledBy gettid dev s c) (hh : Handle s handle)
    (fn : CuStreamGetId) : cacheKey fn c handle = .ok (key gettid dev s) := by
  cases hh with
  | null => simp [cacheKey, getCudaStreamIdHint, CuStreamGetId.call, tryGetPseudoStreamId,
      hc.device, key]
  | legacy => simp [cacheKey, getCudaStreamIdHint, CuStreamGetId.call, tryGetPseudoStreamId,
      hc.device, key]
  | perThread t => simp [cacheKey, getCudaStreamIdHint, CuStreamGetId.call, tryGetPseudoStreamId,
      hc.device, hc.tid t rfl, key]
  | absent => rfl

/-- The legacy streams of all devices and no stream have one key. -/
theorem key_shared (gettid : Thread → Int32) (dev : Int32) {s : DefaultStream Thread}
    (hs : ∀ t, s ≠ .perThread t) : key gettid dev s = -1#64 := by
  cases s with
  | legacy => exact legacy_id dev
  | perThread t => exact absurd rfl (hs t)
  | absent => rfl

section
variable {gettid : Thread → Int32} {dev dev' : Int32}

/-- The key of a per-thread stream is not that of the others. -/
theorem key_ne (hpos : ∀ t, 0 < gettid t) (hd : 0 ≤ dev) (t : Thread) :
    key gettid dev (.perThread t) ≠ -1#64 := by
  intro h
  have h := congrArg BitVec.toNat h
  rw [key, perThread_toNat hd (Int32.le_of_lt (hpos t))] at h
  have htl := (gettid t).toInt_lt
  have hdl := dev.toInt_lt
  have hn : (-1#64).toNat = 2 ^ 64 - 1 := rfl
  omega

theorem key_perThread_inj (hinj : Function.Injective gettid) (hpos : ∀ t, 0 < gettid t)
    (hd : 0 ≤ dev) (hd' : 0 ≤ dev') {t t' : Thread}
    (h : key gettid dev (.perThread t) = key gettid dev' (.perThread t')) :
    dev = dev' ∧ t = t' := by
  have h := congrArg BitVec.toNat h
  have ht := Int32.le_of_lt (hpos t)
  have ht' := Int32.le_of_lt (hpos t')
  rw [key, key, perThread_toNat hd ht, perThread_toNat hd' ht'] at h
  rw [Int32.le_iff_toInt_le, Int32.toInt_zero] at hd hd' ht ht'
  have htl := (gettid t).toInt_lt
  have htl' := (gettid t').toInt_lt
  have htid : (gettid t).toInt = (gettid t').toInt := by omega
  have hdev : dev.toInt = dev'.toInt := by omega
  exact ⟨Int32.toInt_inj.1 hdev, hinj (Int32.toInt_inj.1 htid)⟩

end

end DefaultStream

open DefaultStream in
/-- **Which keys tell apart**: on two devices, two default streams with the same key are the same
if, and only if, one of them is a per-thread stream or they are the same anyway. -/
theorem cacheKey_injective_iff {Thread : Type} {gettid : Thread → Int32}
    (hinj : Function.Injective gettid) (hpos : ∀ t, 0 < gettid t) {dev dev' : Int32}
    (hd : 0 ≤ dev) (hd' : 0 ≤ dev') {s s' : DefaultStream Thread} {c c' : Caller}
    {handle handle' : Option MUstream} (hc : CalledBy gettid dev s c) (hh : Handle s handle)
    (hc' : CalledBy gettid dev' s' c') (hh' : Handle s' handle') (fn : CuStreamGetId) :
    (∃ id id', cacheKey fn c handle = .ok id ∧ cacheKey fn c' handle' = .ok id' ∧
        (id = id' → dev = dev' ∧ s = s')) ↔
      (∃ t, s = .perThread t) ∨ (∃ t, s' = .perThread t) ∨ dev = dev' ∧ s = s' := by
  rw [cacheKey_eq hc hh, cacheKey_eq hc' hh']
  have hiff : (∃ id id', (.ok (key gettid dev s) : Except Exception _) = .ok id ∧
      (.ok (key gettid dev' s') : Except Exception _) = .ok id' ∧
        (id = id' → dev = dev' ∧ s = s')) ↔
      (key gettid dev s = key gettid dev' s' → dev = dev' ∧ s = s') := by
    constructor
    · rintro ⟨id, id', h, h', hid⟩
      cases h
      cases h'
      exact hid
    · exact fun h => ⟨_, _, rfl, rfl, h⟩
  rw [hiff]
  constructor
  · intro h
    by_cases hs : ∃ t, s = .perThread t
    · exact .inl hs
    · by_cases hs' : ∃ t, s' = .perThread t
      · exact .inr (.inl hs')
      · rw [not_exists] at hs hs'
        refine .inr (.inr (h ?_))
        rw [key_shared gettid dev hs, key_shared gettid dev' hs']
  · rintro (⟨t, rfl⟩ | ⟨t, rfl⟩ | h) heq
    · by_cases hs' : ∃ t, s' = .perThread t
      · obtain ⟨t', rfl⟩ := hs'
        obtain ⟨h₁, rfl⟩ := key_perThread_inj hinj hpos hd hd' heq
        exact ⟨h₁, rfl⟩
      · rw [key_shared gettid dev' (not_exists.1 hs')] at heq
        exact absurd heq (key_ne hpos hd t)
    · by_cases hs : ∃ t, s = .perThread t
      · obtain ⟨t', rfl⟩ := hs
        obtain ⟨h₁, rfl⟩ := key_perThread_inj hinj hpos hd hd' heq
        exact ⟨h₁, rfl⟩
      · rw [key_shared gettid dev (not_exists.1 hs)] at heq
        exact absurd heq.symm (key_ne hpos hd' t)
    · exact h

/-- A thread on a device; the driver knows no created streams. -/
def callerOn (dev tid : Int32) : Caller := ⟨some dev, tid, fun _ => .error .invalidValue⟩

open DefaultStream in
/-- The main thread and another one, on two devices. -/
theorem cacheKey_injective_iff_twoThreads :
    ∃ id id', cacheKey .withPseudoDefault (callerOn 0 4321) (some .perThread) = .ok id ∧
      cacheKey .withPseudoDefault (callerOn 1 4322) (some .perThread) = .ok id' ∧
      (id = id' → (0 : Int32) = 1 ∧
        (DefaultStream.perThread false : DefaultStream Bool) = .perThread true) := by
  have hinj : Function.Injective fun t : Bool => if t then (4322 : Int32) else 4321 := by
    intro t t'
    cases t <;> cases t' <;> decide
  have hpos : ∀ t : Bool, 0 < if t then (4322 : Int32) else 4321 := by
    intro t
    cases t <;> decide
  have hc : CalledBy (fun t : Bool => if t then (4322 : Int32) else 4321) 0 (.perThread false)
      (callerOn 0 4321) := ⟨rfl, fun t ht => by cases ht; rfl⟩
  have hc' : CalledBy (fun t : Bool => if t then (4322 : Int32) else 4321) 1 (.perThread true)
      (callerOn 1 4322) := ⟨rfl, fun t ht => by cases ht; rfl⟩
  exact (cacheKey_injective_iff hinj hpos (by decide) (by decide) hc (.perThread false) hc'
    (.perThread true) .withPseudoDefault).2 (.inl ⟨_, rfl⟩)

/-- The legacy streams of two devices have one key. -/
theorem legacy_shared : ∃ id, cacheKey .withPseudoDefault (callerOn 0 4321) (some .legacy) = .ok id ∧
    cacheKey .withPseudoDefault (callerOn 1 4321) (some .legacy) = .ok id := by
  refine ⟨-1#64, ?_, ?_⟩ <;> decide

end Cvcuda
