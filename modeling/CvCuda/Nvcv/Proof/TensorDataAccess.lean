import CvCuda.Lib.Axes
import CvCuda.Nvcv.TensorDataAccess
import CvCuda.Nvcv.Proof.TensorShape
import Mathlib.Data.BitVec
import Mathlib.Data.List.GetD

/-! # What the access to the planes of an image tensor reaches

The strides and sizes an access reports are those of four dimensions at most: the samples, the
channels (by plane or in the pixel), the rows and the columns.

* `assert_iheight`: the assertion of `IsCompatible` never fails.
* `address_eq`: for all strides, the address an access computes is that of an element.
* `planar_access_iff`: the access meets each element exactly once exactly when the other dimensions
  have one element and these four have less than 2^31.
-/

namespace Nvcv

open Outcome

namespace TensorLayout
variable {layout : TensorLayout}

theorem findDimIndex_lt (layout : TensorLayout) (l : UInt8) :
    layout.findDimIndex l < layout.labels.length := by
  unfold findDimIndex
  split_ifs with h
  · exact Int.ofNat_lt.2 (List.idxOf_lt_length_of_mem h)
  · omega

theorem getElem_findDimIndex {l : UInt8} (h : 0 ≤ layout.findDimIndex l) :
    layout.labels[(layout.findDimIndex l).toNat]? = some l := by
  unfold findDimIndex at h ⊢
  split_ifs at h ⊢ with hmem
  · rw [Int.toNat_natCast, List.getElem?_eq_getElem (List.idxOf_lt_length_of_mem hmem),
      List.getElem_idxOf]
  · exact absurd h (by decide)

theorem getLabel_eq {idx : Nat} {l : UInt8} (hl : l ≠ 0) :
    layout.getLabel idx = l ↔ layout.labels[idx]? = some l := by
  have h0 : ¬(idx : Int) < 0 := by omega
  simp only [getLabel, if_neg h0]
  by_cases h : idx < layout.labels.length
  · rw [if_pos ⟨by omega, by omega⟩, Int.toNat_natCast, List.getD_eq_getElem?_getD,
      List.getElem?_eq_getElem h]
    simp
  · rw [if_neg (by omega), List.getElem?_eq_none (by omega)]
    exact iff_of_false hl.symm (by simp)

/-- An image in rows has its width after its height. -/
theorem assert_iheight (hrow : layout.isRowMajor) (h : 0 ≤ layout.idxHeight) :
    layout.idxHeight + 1 < layout.labels.length := by
  have hlt := findDimIndex_lt layout labelHeight
  have hget := getElem_findDimIndex h
  have hlast : layout.labels.getLast? ≠ some labelHeight := by
    unfold isRowMajor endsWith at hrow
    rw [Bool.or_eq_true, List.isSuffixOf_iff_suffix, List.isSuffixOf_iff_suffix] at hrow
    rcases hrow with ⟨ls, hls⟩ | ⟨ls, hls⟩
    · rw [← hls, List.getLast?_concat]
      decide
    · rw [← hls, List.getLast?_append, show wc.getLast? = some labelChannel from rfl,
        Option.some_or]
      decide
  unfold idxHeight at h ⊢
  rw [List.getLast?_eq_getElem?] at hlast
  by_contra hge
  apply hlast
  rw [← hget]
  congr 1
  omega

/-- **The assertion** of `IsCompatible` never fails. -/
theorem isPlanarCompatible_ne_none (layout : TensorLayout) :
    layout.isPlanarCompatible ≠ none := by
  unfold isPlanarCompatible
  dsimp only
  split_ifs with himage h hheight hassert
  · simp
  · exact absurd (assert_iheight h.1 hheight) hassert
  all_goals simp

theorem hasChannel_of_not_last (h0 : layout.rank ≠ 0) (h : layout.infoIsChannelLast = false) :
    0 ≤ layout.idxChannel := by
  by_contra hneg
  have hch : layout.hasChannel = false := decide_eq_false hneg
  rw [infoIsChannelLast, decide_eq_false_iff_not] at h
  exact h ⟨h0, Or.inr hch⟩

/-- What `IsCompatible` tests that the access relies on. -/
theorem first_or_last (h : layout.isPlanarCompatible = some true) :
    layout.rank ≠ 0 ∧ (layout.isChannelFirst ∨ layout.infoIsChannelLast) := by
  unfold isPlanarCompatible at h
  dsimp only at h
  split_ifs at h with himage hrow
  · exact ⟨(of_decide_eq_true himage).1, hrow.2⟩
  · exact ⟨(of_decide_eq_true himage).1, hrow.2⟩
  · exact absurd h (by simp)
  · exact absurd h (by simp)

end TensorLayout

namespace PlanarAccess
variable (access : PlanarAccess)

/-! ## The four dimensions -/

/-- What the access has strides and sizes for. -/
inductive Axis where
  | sample | channel | row | col
  deriving DecidableEq

instance : Fintype Axis :=
  ⟨{.sample, .channel, .row, .col}, fun a => by cases a <;> simp⟩

/-- The label of the dimension. -/
def Axis.label : Axis → UInt8
  | .sample => TensorLayout.labelBatch
  | .channel => TensorLayout.labelChannel
  | .row => TensorLayout.labelHeight
  | .col => TensorLayout.labelWidth

theorem Axis.label_injective : Function.Injective Axis.label := by decide

/-- Its index in the layout, or -1. -/
def axisIdx : Axis → Int
  | .sample => access.layout.idxSample
  | .channel => access.layout.idxChannel
  | .row => access.layout.idxHeight
  | .col => access.layout.idxWidth

/-- Its size, narrowed, or 1. -/
def axisSize (a : Axis) : Int32 := access.cachedSize (access.axisIdx a) 1

abbrev rank : Nat := access.tshape.shape.length

/-- The dimension, if there is one. -/
def pos (a : Axis) : Option (Fin access.rank) :=
  if h : 0 ≤ access.axisIdx a ∧ (access.axisIdx a).toNat < access.rank then
    some ⟨(access.axisIdx a).toNat, h.2⟩
  else none

theorem length_labels : access.layout.labels.length = access.rank :=
  access.tshape.rank_eq (TensorLayout.first_or_last access.compatible).1

theorem axisIdx_lt (a : Axis) : access.axisIdx a < access.rank := by
  have hle := access.length_labels
  cases a with
  | sample =>
    change access.layout.idxSample < _
    unfold TensorLayout.idxSample
    split_ifs with h
    · have := (of_decide_eq_true h).1
      omega
    · omega
  | channel => exact hle ▸ TensorLayout.findDimIndex_lt _ _
  | row => exact hle ▸ TensorLayout.findDimIndex_lt _ _
  | col => exact hle ▸ TensorLayout.findDimIndex_lt _ _

theorem getElem_axisIdx {a : Axis} (h : 0 ≤ access.axisIdx a) :
    access.layout.labels[(access.axisIdx a).toNat]? = some a.label := by
  cases a with
  | sample =>
    change 0 ≤ access.layout.idxSample at h
    change access.layout.labels[access.layout.idxSample.toNat]? = _
    unfold TensorLayout.idxSample at h ⊢
    split_ifs at h ⊢ with hbatch
    · exact (TensorLayout.getLabel_eq (by decide)).1 (of_decide_eq_true hbatch).2
    · exact absurd h (by decide)
  | channel => exact TensorLayout.getElem_findDimIndex h
  | row => exact TensorLayout.getElem_findDimIndex h
  | col => exact TensorLayout.getElem_findDimIndex h

theorem pos_eq_some {a : Axis} {i : Fin access.rank} :
    access.pos a = some i ↔ access.axisIdx a = (i : Nat) := by
  unfold pos
  have hlt := access.axisIdx_lt a
  split_ifs with h
  · rw [Option.some.injEq, Fin.ext_iff]
    dsimp only
    omega
  · refine iff_of_false (by simp) fun heq => h ?_
    omega

theorem pos_eq_none {a : Axis} : access.pos a = none ↔ access.axisIdx a < 0 := by
  unfold pos
  have hlt := access.axisIdx_lt a
  split_ifs with h
  · exact iff_of_false (by simp) (by omega)
  · exact iff_of_true rfl (by omega)

/-- Different labels are at different places. -/
theorem separate : Axes.Separate access.pos := by
  intro a b i ha hb
  rw [pos_eq_some] at ha hb
  have hla := access.getElem_axisIdx (a := a) (by omega)
  have hlb := access.getElem_axisIdx (a := b) (by omega)
  rw [ha] at hla
  rw [hb, hla] at hlb
  exact Axis.label_injective (Option.some.inj hlb)

theorem axisSize_of_pos {a : Axis} {i : Fin access.rank} (h : access.pos a = some i) :
    access.axisSize a = (access.tshape.shape.get i).toInt32 := by
  rw [pos_eq_some] at h
  rw [axisSize, cachedSize, h, if_pos (by omega), Int.toNat_natCast,
    List.getD_eq_getElem _ _ i.isLt]
  rfl

theorem axisSize_of_none {a : Axis} (h : access.pos a = none) : access.axisSize a = 1 := by
  rw [pos_eq_none] at h
  rw [axisSize, cachedSize, if_neg (by omega)]

/-- The strides of the array. -/
def strideOf (i : Fin access.rank) : BitVec 64 :=
  (access.strides.get (i.cast access.length_strides.symm)).toBitVec

theorem stride_axisIdx (a : Axis) :
    (access.stride (access.axisIdx a)).toBitVec = (access.pos a).elim 0 access.strideOf := by
  cases h : access.pos a with
  | none =>
    rw [pos_eq_none] at h
    rw [stride, if_neg (by omega)]
    rfl
  | some i =>
    rw [pos_eq_some] at h
    have hi : (i : Nat) < access.strides.length := access.length_strides.symm ▸ i.isLt
    rw [stride, h, if_pos (by omega), Int.toNat_natCast, List.getD_eq_getElem _ _ hi]
    rfl

/-! ## What the access reaches -/

/-- A sample, a plane, a row, a column, and a channel in the pixel. -/
structure Place where
  n : Nat
  p : Nat
  y : Nat
  x : Nat
  c : Nat

/-- The places the sizes of the access allow. -/
def InRange (a : Place) : Prop :=
  (a.n : Int) < access.numSamples.toInt ∧ (a.p : Int) < access.numPlanes.toInt ∧
    (a.y : Int) < access.numRows.toInt ∧ (a.x : Int) < access.numCols.toInt ∧
    (a.c : Int) < (access.numChannels / access.numPlanes).toInt

/-- The address that the access computes. -/
def address (a : Place) : BitVec 64 :=
  access.chData a.c (access.rowData a.y (access.planeData a.p (access.sampleData a.n))) +
    bytes access.colStride a.x

/-- The place along the four dimensions. A channel is a plane or in the pixel. -/
def Place.along (a : Place) : Axis → Nat
  | .sample => a.n
  | .channel => a.p + a.c
  | .row => a.y
  | .col => a.x

/-- The element of the tensor at a place. -/
def element (a : Place) : Fin access.rank → Nat := Axes.index access.pos a.along

/-- The address of an element of the tensor. -/
def elementAddress (m : Fin access.rank → Nat) : BitVec 64 :=
  access.basePtr + ∑ i, access.strideOf i * (m i : BitVec 64)

/-- The elements of the tensor. -/
def Elements : Set (Fin access.rank → Nat) :=
  Axes.Below fun i => (access.tshape.shape.get i).toInt.toNat

theorem numPlanes_of_last (h : access.layout.infoIsChannelLast) : access.numPlanes = 1 := if_pos h

theorem numPlanes_of_not_last (h : access.layout.infoIsChannelLast = false) :
    access.numPlanes = access.numChannels := by
  rw [numPlanes, if_neg (by simp [h])]
  rfl

/-- The plane is zero where planes have no stride. -/
theorem bytes_planeStride {a : Place} (h : access.InRange a) :
    bytes access.planeStride a.p = bytes access.chStride a.p := by
  unfold planeStride
  split_ifs with hfirst
  · rfl
  · have hlast := (TensorLayout.first_or_last access.compatible).2.resolve_left hfirst
    have hp := h.2.1
    rw [access.numPlanes_of_last hlast] at hp
    have hp0 : a.p = 0 := by
      have h1 : (1 : Int32).toInt = 1 := rfl
      omega
    rw [hp0, bytes, bytes, BitVec.mul_zero, BitVec.mul_zero]

theorem Axis.sum_univ (f : Axis → BitVec 64) :
    ∑ b, f b = f .sample + (f .channel + (f .row + f .col)) := by
  change ∑ b ∈ ({.sample, .channel, .row, .col} : Finset Axis), f b = _
  rw [Finset.sum_insert (by decide), Finset.sum_insert (by decide), Finset.sum_insert (by decide),
    Finset.sum_singleton]

theorem address_eq_sum {a : Place} (h : access.InRange a) :
    access.address a = access.basePtr +
      ∑ b : Axis, (access.stride (access.axisIdx b)).toBitVec * (a.along b : BitVec 64) := by
  have hbytes : ∀ (s : Int64) (n : Nat), bytes s n = s.toBitVec * (n : BitVec 64) :=
    fun _ _ => rfl
  have hplane := access.bytes_planeStride h
  rw [Axis.sum_univ, address, chData, rowData, planeData, sampleData, hplane]
  simp only [hbytes, Place.along, axisIdx, sampleStride, chStride, rowStride, colStride]
  push_cast
  ring

/-- **The address** an access computes is that of an element of the tensor, whatever the strides
are. -/
theorem address_eq {a : Place} (h : access.InRange a) :
    access.address a = access.elementAddress (access.element a) := by
  rw [access.address_eq_sum h, elementAddress, element, Axes.sum_index]
  simp only [stride_axisIdx]

/-- The limits of the loops over the four dimensions. -/
def limit (a : Axis) : Nat := (access.axisSize a).toInt.toNat

theorem limit_idle : Axes.Idle access.pos access.limit := by
  intro a h
  rw [limit, access.axisSize_of_none h]
  rfl

/-- A channel is a plane, or is in the pixel. -/
theorem channels (a : Place) :
    ((a.p : Int) < access.numPlanes.toInt ∧
        (a.c : Int) < (access.numChannels / access.numPlanes).toInt) ↔
      if access.layout.infoIsChannelLast then a.p = 0 ∧ (a.c : Int) < access.numChannels.toInt
      else a.c = 0 ∧ (a.p : Int) < access.numChannels.toInt := by
  have h1 : (1 : Int32).toInt = 1 := rfl
  split_ifs with hlast
  · rw [access.numPlanes_of_last hlast, Int32.div_one]
    omega
  · rw [access.numPlanes_of_not_last (by simpa using hlast), and_comm]
    refine and_congr_left fun hp => ?_
    have hne : access.numChannels ≠ 0 := by
      intro hz
      have h0 : (0 : Int32).toInt = 0 := rfl
      rw [hz] at hp
      omega
    rw [Int32.div_self, if_neg hne, h1]
    omega

theorem inRange_iff (a : Place) :
    access.InRange a ↔ a.along ∈ Axes.Below access.limit ∧
      if access.layout.infoIsChannelLast then a.p = 0 else a.c = 0 := by
  have hbelow : a.along ∈ Axes.Below access.limit ↔
      (a.n : Int) < access.numSamples.toInt ∧
        ((a.p + a.c : Nat) : Int) < access.numChannels.toInt ∧
        (a.y : Int) < access.numRows.toInt ∧ (a.x : Int) < access.numCols.toInt := by
    have hlt : ∀ (n : Nat) (s : Int32), n < s.toInt.toNat ↔ (n : Int) < s.toInt := by
      intro n s
      omega
    constructor
    · intro h
      exact ⟨(hlt _ _).1 (h .sample), (hlt _ _).1 (h .channel), (hlt _ _).1 (h .row),
        (hlt _ _).1 (h .col)⟩
    · rintro ⟨hn, hc, hy, hx⟩ b
      cases b with
      | sample => exact (hlt _ _).2 hn
      | channel => exact (hlt _ _).2 hc
      | row => exact (hlt _ _).2 hy
      | col => exact (hlt _ _).2 hx
  have hch := access.channels a
  rw [hbelow, InRange]
  split_ifs at hch ⊢ with hlast
  · constructor
    · rintro ⟨hn, hp, hy, hx, hc⟩
      obtain ⟨hp0, hc⟩ := hch.1 ⟨hp, hc⟩
      rw [hp0, Nat.zero_add]
      exact ⟨⟨hn, hc, hy, hx⟩, rfl⟩
    · rintro ⟨⟨hn, hc, hy, hx⟩, hp0⟩
      rw [hp0, Nat.zero_add] at hc
      obtain ⟨hp, hc⟩ := hch.2 ⟨hp0, hc⟩
      exact ⟨hn, hp, hy, hx, hc⟩
  · constructor
    · rintro ⟨hn, hp, hy, hx, hc⟩
      obtain ⟨hc0, hp⟩ := hch.1 ⟨hp, hc⟩
      rw [hc0, Nat.add_zero]
      exact ⟨⟨hn, hp, hy, hx⟩, rfl⟩
    · rintro ⟨⟨hn, hp, hy, hx⟩, hc0⟩
      rw [hc0, Nat.add_zero] at hp
      obtain ⟨hp, hc⟩ := hch.2 ⟨hc0, hp⟩
      exact ⟨hn, hp, hy, hx, hc⟩

/-- The places in range, along the four dimensions. -/
theorem bijOn_along : Set.BijOn Place.along {a | access.InRange a} (Axes.Below access.limit) := by
  refine ⟨fun a ha => ((access.inRange_iff a).1 ha).1, ?_, fun k hk => ?_⟩
  · intro a ha b hb heq
    have hpa := ((access.inRange_iff a).1 ha).2
    have hpb := ((access.inRange_iff b).1 hb).2
    have hn : a.n = b.n := congrFun heq .sample
    have hc : a.p + a.c = b.p + b.c := congrFun heq .channel
    have hy : a.y = b.y := congrFun heq .row
    have hx : a.x = b.x := congrFun heq .col
    cases a
    cases b
    simp only [Place.mk.injEq] at *
    split_ifs at hpa hpb <;> omega
  · by_cases hlast : access.layout.infoIsChannelLast
    · refine ⟨⟨k .sample, 0, k .row, k .col, k .channel⟩, (access.inRange_iff _).2 ⟨?_, ?_⟩, ?_⟩
      · intro b
        cases b with
        | channel => exact (Nat.zero_add _).trans_lt (hk .channel)
        | sample | row | col => exact hk _
      · rw [if_pos hlast]
      · funext b
        cases b with
        | channel => exact Nat.zero_add _
        | sample | row | col => rfl
    · refine ⟨⟨k .sample, k .channel, k .row, k .col, 0⟩, (access.inRange_iff _).2 ⟨?_, ?_⟩, ?_⟩
      · intro b
        cases b with
        | channel => exact hk .channel
        | sample | row | col => exact hk _
      · rw [if_neg hlast]
      · funext b
        cases b <;> rfl

theorem limit_eq_iff {a : Axis} {i : Fin access.rank} (h : access.pos a = some i)
    (hpos : 0 < access.tshape.shape.get i) :
    access.limit a = (access.tshape.shape.get i).toInt.toNat ↔
      (access.tshape.shape.get i).toInt < 2 ^ 31 := by
  have h0 : 0 < (access.tshape.shape.get i).toInt := Int64.lt_iff_toInt_lt.1 hpos
  rw [limit, access.axisSize_of_pos h, Int64.toInt_toInt32]
  constructor
  · intro heq
    have hlt := @Int.bmod_lt (access.tshape.shape.get i).toInt (2 ^ 32) (by decide)
    omega
  · intro hlt
    rw [Int.bmod_eq_of_le (by omega) (by omega)]

/-- The dimension of an axis. -/
def OnAxis (i : Fin access.rank) : Prop := ∃ a, access.pos a = some i

/-- **Access by planes** to a tensor of positive sizes: for all strides, each place in range is at
the address of an element, and each element is met exactly once exactly when the dimensions that the
access does not step along have one element, and those it does have less than 2^31. -/
theorem planar_access_iff (hpos : ∀ i, 0 < access.tshape.shape.get i) :
    (∀ a, access.InRange a → access.address a = access.elementAddress (access.element a)) ∧
      (Set.BijOn access.element {a | access.InRange a} access.Elements ↔
        ∀ i, (access.OnAxis i → (access.tshape.shape.get i).toInt < 2 ^ 31) ∧
          (¬access.OnAxis i → access.tshape.shape.get i = 1)) := by
  refine ⟨fun a ha => access.address_eq ha, ?_⟩
  have hsize : ∀ i, 0 < (access.tshape.shape.get i).toInt.toNat := by
    intro i
    have h0 : 0 < (access.tshape.shape.get i).toInt := Int64.lt_iff_toInt_lt.1 (hpos i)
    omega
  have hal := access.bijOn_along
  have hcomp : Set.BijOn access.element {a | access.InRange a} access.Elements ↔
      Set.BijOn (Axes.index access.pos) (Axes.Below access.limit) access.Elements := by
    rw [← hal.image_eq]
    exact Set.bijOn_comp_iff hal.injOn
  rw [hcomp, Elements, Axes.bijOn_index_iff access.separate access.limit_idle hsize]
  constructor
  · rintro ⟨haxis, hother⟩ i
    refine ⟨fun ⟨a, ha⟩ => (access.limit_eq_iff ha (hpos i)).1 (haxis a i ha), fun hi => ?_⟩
    have h1 : (access.tshape.shape.get i).toInt.toNat = 1 := hother i (not_exists.1 hi)
    have hi0 := hsize i
    exact Int64.toInt_inj.1 (show (access.tshape.shape.get i).toInt = 1 by omega)
  · intro h
    refine ⟨fun a i ha => (access.limit_eq_iff ha (hpos i)).2 ((h i).1 ⟨a, ha⟩), fun i hi => ?_⟩
    exact congrArg (fun n : Int64 => n.toInt.toNat) ((h i).2 (not_exists.2 hi))

/-- Four planes with padded rows. -/
def paddedRows : PlanarAccess where
  tshape := .fourPlanes
  strides := [96, 24, 8, 1]
  basePtr := 4096#64
  length_strides := by decide
  compatible := by decide

theorem planar_access_paddedRows :
    (∀ a, paddedRows.InRange a →
        paddedRows.address a = paddedRows.elementAddress (paddedRows.element a)) ∧
      (Set.BijOn paddedRows.element {a | paddedRows.InRange a} paddedRows.Elements ↔
        ∀ i, (paddedRows.OnAxis i → (paddedRows.tshape.shape.get i).toInt < 2 ^ 31) ∧
          (¬paddedRows.OnAxis i → paddedRows.tshape.shape.get i = 1)) :=
  planar_access_iff paddedRows (by decide)

end PlanarAccess

end Nvcv
