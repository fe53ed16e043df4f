import CvCuda.Cvcuda.Proof.Crop
import CvCuda.Cvcuda.Reformat

/-! # When reformatting moves every element

* `Reformatted`: the extents agree, nothing outside an element is touched, and every order of the
  copies gives each element of the output the value of the input.
* `Moves`: the copies are those of all bytes of all elements; `Moves.reformatted`.
* `reformat_exact_iff`: when a call that succeeds moves every element.
-/

namespace Cvcuda

open BoxBlur (ErrorCode DataFormat)
open Ptr2dNHWC (dataSize)
open Copies
open Crop (Outcome threads)

namespace ImageTensor

/-- The bytes of an element. -/
def element {V : Type} (t : ImageTensor) (mem : ℤ → V) (p : Place) : List V :=
  (List.range t.elemSize).map fun j : Nat => mem (t.offset p + (j : ℤ))

/-- The last place. -/
def last (t : ImageTensor) : Place :=
  ⟨t.numSamples.toInt - 1, t.numRows.toInt - 1, t.numCols.toInt - 1, t.numChannels.toInt - 1⟩

theorem Admitted.has_last {t : ImageTensor} (h : t.Admitted) : t.Has t.last := by
  obtain ⟨hn, hy, hx, hc⟩ := h.pos
  unfold last Has
  dsimp only
  omega

theorem Admitted.offset_le_last {t : ImageTensor} (h : t.Admitted) {p : Place} (hp : t.Has p) :
    t.offset p ≤ t.offset t.last := by
  obtain ⟨hn, hy, hx, hc⟩ := hp
  refine h.offset_mono ⟨hn, hy, hx, hc⟩ h.has_last ?_ ?_ ?_ ?_ <;> unfold last <;> dsimp only <;>
    omega

/-- No byte of an element is behind the last one. -/
theorem Admitted.byte_le_last {t : ImageTensor} (h : t.Admitted) {p : Place} (hp : t.Has p) {j : Nat}
    (hj : j < t.elemSize) : t.offset p + (j : ℤ) ≤ t.offset t.last + (t.elemSize - 1 : Nat) := by
  have hle := h.offset_le_last hp
  omega

end ImageTensor

namespace Reformat

variable {inData outData : ImageTensor} {cs : List (ℤ × ℤ)}

/-- Both tensors have the same places. -/
def SameExtents (inData outData : ImageTensor) : Prop :=
  inData.numSamples = outData.numSamples ∧ inData.numRows = outData.numRows ∧
    inData.numCols = outData.numCols ∧ inData.numChannels = outData.numChannels

instance (inData outData : ImageTensor) : Decidable (SameExtents inData outData) :=
  inferInstanceAs (Decidable (_ ∧ _))

theorem SameExtents.has_iff (h : SameExtents inData outData) (p : Place) :
    inData.Has p ↔ outData.Has p := by
  obtain ⟨hn, hy, hx, hc⟩ := h
  unfold ImageTensor.Has
  rw [hn, hy, hx, hc]

theorem SameExtents.last_eq (h : SameExtents inData outData) : inData.last = outData.last := by
  obtain ⟨hn, hy, hx, hc⟩ := h
  unfold ImageTensor.last
  rw [hn, hy, hx, hc]

/-- Every element is moved to its place, in any order, and nothing else is touched. -/
structure Reformatted (inData outData : ImageTensor) (copies : List (ℤ × ℤ)) : Prop where
  extents : SameExtents inData outData
  source : ∀ c ∈ copies, ∃ p, ∃ j : Nat,
    inData.Has p ∧ j < inData.elemSize ∧ c.2 = inData.offset p + j
  dest : ∀ c ∈ copies, ∃ p, ∃ j : Nat,
    outData.Has p ∧ j < outData.elemSize ∧ c.1 = outData.offset p + j
  moved : ∀ (m d d' : ℤ → UInt8), Leaves copies m d d' → ∀ p, outData.Has p →
    outData.element d' p = inData.element m p

/-- The copies are those of all bytes of all elements. -/
def Moves (inData outData : ImageTensor) (copies : List (ℤ × ℤ)) : Prop :=
  ∀ c, c ∈ copies ↔ ∃ p, ∃ j : Nat, inData.Has p ∧ j < inData.elemSize ∧
    c = (outData.offset p + (j : ℤ), inData.offset p + (j : ℤ))

/-- **All bytes** of all elements, once each, are every element. -/
theorem Moves.reformatted (h : Moves inData outData cs) (hout : outData.Admitted)
    (hext : SameExtents inData outData) (helem : inData.elemSize = outData.elemSize) :
    Reformatted inData outData cs where
  extents := hext
  source c hc := by
    obtain ⟨p, j, hp, hj, rfl⟩ := (h c).1 hc
    exact ⟨p, j, hp, hj, rfl⟩
  dest c hc := by
    obtain ⟨p, j, hp, hj, rfl⟩ := (h c).1 hc
    exact ⟨p, j, (hext.has_iff p).1 hp, helem ▸ hj, rfl⟩
  moved m d d' hl p hp := by
    unfold ImageTensor.element
    rw [← helem]
    refine List.map_congr_left fun j hj => ?_
    have hj := List.mem_range.1 hj
    refine hl.copied ⟨_, (h _).2 ⟨p, j, (hext.has_iff p).2 hp, hj, rfl⟩, rfl⟩ fun c hc hcb => ?_
    obtain ⟨q, k, hq, hk, rfl⟩ := (h c).1 hc
    obtain ⟨rfl, rfl⟩ := hout.byte_inj ((hext.has_iff q).1 hq) hp (helem ▸ hk) (helem ▸ hj) hcb
    rfl

namespace Reformatted

theorem elemSize_eq (h : Reformatted inData outData cs) (hin : inData.Admitted) :
    outData.elemSize = inData.elemSize := by
  obtain ⟨d', hl⟩ := exists_leaves cs (fun _ => (0 : UInt8)) fun _ => 0
  have hlen := congrArg List.length
    (h.moved _ _ d' hl ⟨0, 0, 0, 0⟩ ((h.extents.has_iff _).1 hin.has_zero))
  simpa [ImageTensor.element] using hlen

/-- Every byte is copied. -/
theorem copy_mem (h : Reformatted inData outData cs) (hin : inData.Admitted) {p : Place}
    (hp : inData.Has p) {j : Nat} (hj : j < inData.elemSize) :
    (outData.offset p + (j : ℤ), inData.offset p + (j : ℤ)) ∈ cs := by
  refine mem_of_copied (V := UInt8) fun m d d' hl => ?_
  have heq := h.moved m d d' hl p ((h.extents.has_iff p).1 hp)
  rw [ImageTensor.element, ImageTensor.element, h.elemSize_eq hin] at heq
  exact List.map_inj_left.1 heq j (List.mem_range.2 hj)

/-- **There and back**: a second call that moves every element of what the first one wrote to a third
tensor leaves there what the first tensor held. -/
theorem back {backData : ImageTensor} {cs' : List (ℤ × ℤ)}
    (h : Reformatted inData outData cs) (h' : Reformatted outData backData cs')
    {m d d' b b' : ℤ → UInt8} (hl : Leaves cs m d d') (hl' : Leaves cs' d' b b') {p : Place}
    (hp : inData.Has p) : backData.element b' p = inData.element m p := by
  have hp' := (h.extents.has_iff p).1 hp
  rw [h'.moved d' b b' hl' p ((h'.extents.has_iff p).1 hp'), h.moved m d d' hl p hp']

end Reformatted

/-! ## Rows -/

section
variable {t : ImageTensor}

/-- The bytes of a row of a plane. -/
def rowBytes (t : ImageTensor) : Nat :=
  match t.layout with
  | .nhwc | .hwc => t.numCols.toInt.toNat * t.pixelSize
  | .nchw | .chw => t.numCols.toInt.toNat * t.elemSize

/-- The element of a byte in a row of a plane, and its byte there. -/
def rowByte (t : ImageTensor) (i r p j : Nat) : Place × Nat :=
  match t.layout with
  | .nhwc | .hwc =>
    (⟨i, r, (j / t.pixelSize : Nat), (j % t.pixelSize / t.elemSize : Nat)⟩,
      j % t.pixelSize % t.elemSize)
  | .nchw | .chw => (⟨i, r, (j / t.elemSize : Nat), p⟩, j % t.elemSize)

/-- The rows of all planes. -/
def InRows (t : ImageTensor) (i r p j : Nat) : Prop :=
  ((i < t.numSamples.toInt.toNat ∧ p < numPlanes t) ∧ r < t.numRows.toInt.toNat) ∧
    j < rowBytes t

theorem lt_toNat {n : Nat} {k : ℤ} : n < k.toNat ↔ (n : ℤ) < k := by omega

theorem offset_interleaved (h : t.Admitted) (hl : t.Interleaved) (n y : ℤ) (x : Nat) :
    t.offset ⟨n, y, x, 0⟩ = t.offset ⟨n, y, 0, 0⟩ + ((x * t.pixelSize : Nat) : ℤ) := by
  have hcol := (h.dense hl).2
  have hsize := h.pixelSize_cast
  unfold ImageTensor.offset
  push_cast
  rw [hsize, hcol]
  ring

theorem offset_planar (h : t.Admitted) (hl : t.layout = .nchw ∨ t.layout = .chw) (n y c : ℤ)
    {x : Nat} (hx : x < t.numCols.toInt.toNat) :
    t.offset ⟨n, y, x, c⟩ = t.offset ⟨n, y, 0, c⟩ + ((x * t.elemSize : Nat) : ℤ) := by
  have hpacked : 1 < t.numCols.toInt → t.colStride.toInt = t.elemSize := by
    have := h.packed
    rcases hl with hl | hl <;> rwa [hl] at this
  unfold ImageTensor.offset
  push_cast
  by_cases hone : 1 < t.numCols.toInt
  · rw [hpacked hone]
    ring
  · obtain rfl : x = 0 := by omega
    simp

/-- A byte of a row is one of an element. -/
theorem rowByte_spec (h : t.Admitted) {i r p j : Nat} (hin : InRows t i r p j) :
    t.Has (rowByte t i r p j).1 ∧ (rowByte t i r p j).2 < t.elemSize ∧
      t.offset (rowByte t i r p j).1 + ((rowByte t i r p j).2 : ℤ) =
        t.offset ⟨i, r, 0, p⟩ + (j : ℤ) := by
  obtain ⟨⟨⟨hi, hp⟩, hr⟩, hj⟩ := hin
  have helem := h.elemSize_pos
  rw [lt_toNat] at hi hr
  by_cases hl : t.Interleaved
  · have hpix := h.pixelSize_pos
    have hrow : rowBytes t = t.numCols.toInt.toNat * t.pixelSize := by
      rcases hl with hl | hl <;> simp only [rowBytes, hl]
    have hplanes : numPlanes t = 1 := by
      rcases hl with hl | hl <;> simp only [numPlanes, hl]
    have hbyte : rowByte t i r p j = (⟨i, r, (j / t.pixelSize : Nat),
        (j % t.pixelSize / t.elemSize : Nat)⟩, j % t.pixelSize % t.elemSize) := by
      rcases hl with hl | hl <;> simp only [rowByte, hl]
    obtain rfl : p = 0 := by omega
    have hx : j / t.pixelSize < t.numCols.toInt.toNat := by
      rw [Nat.div_lt_iff_lt_mul hpix, ← hrow]
      exact hj
    have hhas : t.Has ⟨i, r, (j / t.pixelSize : Nat), 0⟩ :=
      ⟨⟨Int.natCast_nonneg _, hi⟩, ⟨Int.natCast_nonneg _, hr⟩,
        ⟨Int.natCast_nonneg _, lt_toNat.1 hx⟩, le_rfl, h.pos.2.2.2⟩
    obtain ⟨hhas', hoff⟩ := h.pixel_byte hl hhas (Nat.mod_lt j hpix)
    rw [hbyte]
    refine ⟨hhas', Nat.mod_lt _ helem, ?_⟩
    have hdiv : ((j / t.pixelSize * t.pixelSize : Nat) : ℤ) + ((j % t.pixelSize : Nat) : ℤ) = j := by
      exact_mod_cast Nat.div_add_mod' j t.pixelSize
    rw [← hoff, offset_interleaved h hl, add_assoc, hdiv]
    rfl
  · have hlay : t.layout = .nchw ∨ t.layout = .chw := by
      unfold ImageTensor.Interleaved at hl
      cases hlay : t.layout <;> simp_all
    have hrow : rowBytes t = t.numCols.toInt.toNat * t.elemSize := by
      rcases hlay with hl | hl <;> simp only [rowBytes, hl]
    have hplanes : numPlanes t = t.numChannels.toInt.toNat := by
      rcases hlay with hl | hl <;> simp only [numPlanes, hl]
    have hbyte : rowByte t i r p j = (⟨i, r, (j / t.elemSize : Nat), p⟩, j % t.elemSize) := by
      rcases hlay with hl | hl <;> simp only [rowByte, hl]
    have hx : j / t.elemSize < t.numCols.toInt.toNat := by
      rw [Nat.div_lt_iff_lt_mul helem, ← hrow]
      exact hj
    rw [hbyte]
    refine ⟨⟨⟨Int.natCast_nonneg _, hi⟩, ⟨Int.natCast_nonneg _, hr⟩,
      ⟨Int.natCast_nonneg _, lt_toNat.1 hx⟩, Int.natCast_nonneg _, lt_toNat.1 (hplanes ▸ hp)⟩,
      Nat.mod_lt _ helem, ?_⟩
    have hdiv : ((j / t.elemSize * t.elemSize : Nat) : ℤ) + ((j % t.elemSize : Nat) : ℤ) = j := by
      exact_mod_cast Nat.div_add_mod' j t.elemSize
    rw [offset_planar h hlay _ _ _ hx]
    linarith

/-- Every byte of an element is one of a row. -/
theorem exists_rowByte (h : t.Admitted) {q : Place} (hq : t.Has q) {k : Nat}
    (hk : k < t.elemSize) : ∃ i r p j, InRows t i r p j ∧ rowByte t i r p j = (q, k) := by
  obtain ⟨⟨hn0, hn⟩, ⟨hy0, hy⟩, ⟨hx0, hx⟩, hc0, hc⟩ := hq
  obtain ⟨n, y, x, c⟩ := q
  dsimp only at hn0 hn hy0 hy hx0 hx hc0 hc
  lift n to ℕ using hn0
  lift y to ℕ using hy0
  lift x to ℕ using hx0
  lift c to ℕ using hc0
  have helem := h.elemSize_pos
  have hin : ∀ a b size : Nat, a < b → ∀ k < size, a * size + k < b * size := by
    intro a b size hab k hk
    calc a * size + k < a * size + size := Nat.add_lt_add_left hk _
      _ = (a + 1) * size := (Nat.succ_mul a size).symm
      _ ≤ b * size := Nat.mul_le_mul_right _ hab
  have hdiv : ∀ a size k : Nat, k < size → (a * size + k) / size = a := by
    intro a size k hk
    rw [Nat.add_comm, Nat.add_mul_div_right _ _ (Nat.zero_lt_of_lt hk), Nat.div_eq_of_lt hk,
      Nat.zero_add]
  have hmod : ∀ a size k : Nat, k < size → (a * size + k) % size = k := by
    intro a size k hk
    rw [Nat.add_comm, Nat.add_mul_mod_self_right, Nat.mod_eq_of_lt hk]
  by_cases hl : t.Interleaved
  · have hpixel : c * t.elemSize + k < t.pixelSize := hin c _ _ (lt_toNat.2 hc) k hk
    refine ⟨n, y, 0, x * t.pixelSize + (c * t.elemSize + k),
      ⟨⟨⟨lt_toNat.2 hn, ?_⟩, lt_toNat.2 hy⟩, ?_⟩, ?_⟩
    · rcases hl with hl | hl <;> simp only [numPlanes, hl, Nat.one_pos]
    · have hrow : rowBytes t = t.numCols.toInt.toNat * t.pixelSize := by
        rcases hl with hl | hl <;> simp only [rowBytes, hl]
      rw [hrow]
      exact hin x _ _ (lt_toNat.2 hx) _ hpixel
    · rcases hl with hl | hl <;> simp only [rowByte, hl] <;>
        rw [hdiv x _ _ hpixel, hmod x _ _ hpixel, hdiv c _ _ hk, hmod c _ _ hk]
  · have hlay : t.layout = .nchw ∨ t.layout = .chw := by
      unfold ImageTensor.Interleaved at hl
      cases hlay : t.layout <;> simp_all
    refine ⟨n, y, c, x * t.elemSize + k, ⟨⟨⟨lt_toNat.2 hn, ?_⟩, lt_toNat.2 hy⟩, ?_⟩, ?_⟩
    · rcases hlay with hl | hl <;> simp only [numPlanes, hl] <;> exact lt_toNat.2 hc
    · have hrow : rowBytes t = t.numCols.toInt.toNat * t.elemSize := by
        rcases hlay with hl | hl <;> simp only [rowBytes, hl]
      rw [hrow]
      exact hin x _ _ (lt_toNat.2 hx) _ hk
    · rcases hlay with hl | hl <;> simp only [rowByte, hl] <;>
        rw [hdiv x _ _ hk, hmod x _ _ hk]

end

/-! ## The copy path -/

section

theorem sameShape_extents (h : sameShape inData outData) : SameExtents inData outData := h.2

/-- Rows are where their pitches lead. -/
theorem row_offset {t : ImageTensor} (h : t.Admitted) {i p r : Nat} (hr : r < t.numRows.toInt.toNat)
    (hp : p < numPlanes t) :
    planeData t i p + r * (t.rowStride.toUInt64.toNat : ℤ) = t.offset ⟨i, r, 0, p⟩ := by
  have hplane : (p : ℤ) * (planeStride t).toInt = p * t.chStride.toInt := by
    unfold planeStride
    unfold numPlanes at hp
    cases hl : t.layout <;> rw [hl] at hp <;> try rfl
    all_goals
      obtain rfl : p = 0 := by simpa using hp
      simp
  have hrow : (r : ℤ) * (t.rowStride.toUInt64.toNat : ℤ) = r * t.rowStride.toInt := by
    rcases Nat.eq_zero_or_pos r with rfl | hpos
    · simp
    · have hnonneg := h.strides_nonneg.2.1 (by omega)
      rw [Int64.toNat_toUInt64_of_le (Int64.le_iff_toInt_le.2 hnonneg)]
      exact congrArg _ (Int.toNat_of_nonneg hnonneg)
  unfold planeData ImageTensor.offset
  rw [hplane, hrow]
  ring

theorem mem_memcpy2D {dst src : ℤ} {dpitch spitch width : UInt64} {height : Nat}
    {copies : List (ℤ × ℤ)} (h : memcpy2D dst dpitch src spitch width height = some copies)
    {c : ℤ × ℤ} : c ∈ copies ↔ ∃ r j : Nat, r < height ∧ j < width.toNat ∧
      c = (dst + r * (dpitch.toNat : ℤ) + j, src + r * (spitch.toNat : ℤ) + j) := by
  unfold memcpy2D at h
  split_ifs at h
  obtain rfl := Option.some.inj h
  simp only [List.mem_flatMap, List.mem_range, mem_bytes]
  constructor
  · rintro ⟨r, hr, j, hj, rfl⟩
    exact ⟨r, j, hr, hj, rfl⟩
  · rintro ⟨r, j, hr, hj, rfl⟩
    exact ⟨r, hr, j, hj, rfl⟩

theorem mem_copyPlanes (hin : inData.Admitted) (hout : outData.Admitted)
    (hshape : sameShape inData outData) {rows : List (List (ℤ × ℤ))}
    (h : copyPlanes inData outData = some rows) {c : ℤ × ℤ} :
    c ∈ rows.flatten ↔ ∃ i r p j : Nat, ((i < inData.numSamples.toInt.toNat ∧ p < numPlanes inData) ∧
      r < inData.numRows.toInt.toNat) ∧ j < (width inData).toNat ∧
        c = (outData.offset ⟨i, r, 0, p⟩ + j, inData.offset ⟨i, r, 0, p⟩ + j) := by
  obtain ⟨hlay, hn, hy, hx, hc⟩ := hshape
  have hplanes : numPlanes outData = numPlanes inData := by
    unfold numPlanes
    rw [hlay, hc]
  rw [mem_flatten_of_mapM h]
  constructor
  · rintro ⟨⟨i, p⟩, hip, ds, hds, hcd⟩
    rw [List.mem_product, List.mem_range, List.mem_range] at hip
    obtain ⟨r, j, hr, hj, rfl⟩ := (mem_memcpy2D hds).1 hcd
    refine ⟨i, r, p, j, ⟨hip, hr⟩, hj, ?_⟩
    rw [row_offset hout (hy ▸ hr) (hplanes ▸ hip.2), row_offset hin hr hip.2]
  · rintro ⟨i, r, p, j, ⟨hip, hr⟩, hj, rfl⟩
    have hmem : (i, p) ∈ List.range inData.numSamples.toInt.toNat ×ˢ
        List.range (numPlanes inData) :=
      List.mem_product.2 ⟨List.mem_range.2 hip.1, List.mem_range.2 hip.2⟩
    obtain ⟨ds, hds⟩ := exists_of_mapM h hmem
    refine ⟨(i, p), hmem, ds, hds, (mem_memcpy2D hds).2 ⟨r, j, hr, hj, ?_⟩⟩
    rw [row_offset hout (hy ▸ hr) (hplanes ▸ hip.2), row_offset hin hr hip.2]

theorem rowByte_eq (hshape : sameShape inData outData)
    (helem : inData.elemSize = outData.elemSize) (i r p j : Nat) :
    rowByte outData i r p j = rowByte inData i r p j := by
  obtain ⟨hlay, -, -, -, hc⟩ := hshape
  have hpixel : outData.pixelSize = inData.pixelSize := by
    unfold ImageTensor.pixelSize
    rw [hc, helem]
  unfold rowByte
  rw [hlay, hpixel, helem]

theorem InRows.out (hshape : sameShape inData outData)
    (helem : inData.elemSize = outData.elemSize) {i r p j : Nat} (h : InRows inData i r p j) :
    InRows outData i r p j := by
  obtain ⟨hlay, hn, hy, hx, hc⟩ := hshape
  have hpixel : outData.pixelSize = inData.pixelSize := by
    unfold ImageTensor.pixelSize
    rw [hc, helem]
  unfold InRows numPlanes rowBytes at *
  rwa [hlay, hn, hy, hx, hc, helem, ← hpixel] at h

theorem elemSize_eq_of_sameType (h : Crop.sameType inData outData) :
    inData.elemSize = outData.elemSize := by
  unfold ImageTensor.elemSize
  rw [h.1, h.2]

/-- Rows of the right length are all bytes. -/
theorem moves_of_width (hin : inData.Admitted) (hout : outData.Admitted)
    (htype : Crop.sameType inData outData) (hshape : sameShape inData outData)
    {rows : List (List (ℤ × ℤ))} (h : copyPlanes inData outData = some rows)
    (hwidth : (width inData).toNat = rowBytes inData) : Moves inData outData rows.flatten := by
  have helem := elemSize_eq_of_sameType htype
  have hat : ∀ i r p j, InRows inData i r p j →
      (outData.offset ⟨i, r, 0, p⟩ + (j : ℤ), inData.offset ⟨i, r, 0, p⟩ + (j : ℤ)) =
        (outData.offset (rowByte inData i r p j).1 + ((rowByte inData i r p j).2 : ℤ),
          inData.offset (rowByte inData i r p j).1 + ((rowByte inData i r p j).2 : ℤ)) := by
    intro i r p j hrow
    have hrow' := rowByte_spec hout (hrow.out hshape helem)
    rw [rowByte_eq hshape helem] at hrow'
    rw [(rowByte_spec hin hrow).2.2, hrow'.2.2]
  intro c
  rw [mem_copyPlanes hin hout hshape h, hwidth]
  constructor
  · rintro ⟨i, r, p, j, hip, hj, rfl⟩
    obtain ⟨hhas, hk, -⟩ := rowByte_spec hin ⟨hip, hj⟩
    exact ⟨_, _, hhas, hk, hat i r p j ⟨hip, hj⟩⟩
  · rintro ⟨q, k, hq, hk, rfl⟩
    obtain ⟨i, r, p, j, hrow, hbyte⟩ := exists_rowByte hin hq hk
    have hqk := hat i r p j hrow
    rw [hbyte] at hqk
    exact ⟨i, r, p, j, hrow.1, hrow.2, hqk.symm⟩

/-- Rows of another length leave out the last byte, or copy the one behind it. -/
theorem width_of_reformatted (hin : inData.Admitted) (hout : outData.Admitted)
    (hshape : sameShape inData outData) {rows : List (List (ℤ × ℤ))}
    (h : copyPlanes inData outData = some rows)
    (href : Reformatted inData outData rows.flatten) :
    (width inData).toNat = rowBytes inData := by
  have helem := hin.elemSize_pos
  have hlast := hin.has_last
  obtain ⟨i, r, p, j, hrow, hbyte⟩ :=
    exists_rowByte hin hlast (Nat.sub_lt helem Nat.one_pos)
  have hspec := (rowByte_spec hin hrow).2.2
  rw [hbyte] at hspec
  dsimp only at hspec
  -- no byte of a row is behind the last one
  have hle : ∀ i r p j, InRows inData i r p j →
      inData.offset ⟨i, r, 0, p⟩ + (j : ℤ) ≤
        inData.offset inData.last + (inData.elemSize - 1 : Nat) := by
    intro i r p j hrow
    obtain ⟨hhas, hk, heq⟩ := rowByte_spec hin hrow
    rw [← heq]
    exact hin.byte_le_last hhas hk
  have hj := hle i r p (rowBytes inData - 1)
    ⟨hrow.1, Nat.sub_lt (Nat.zero_lt_of_lt hrow.2) Nat.one_pos⟩
  have hjlt := hrow.2
  rcases Nat.lt_trichotomy (width inData).toNat (rowBytes inData) with hlt | heq | hgt
  · have hmem := href.copy_mem hin hlast (Nat.sub_lt helem Nat.one_pos)
    obtain ⟨i', r', p', j', hip', hj', hc⟩ := (mem_copyPlanes hin hout hshape h).1 hmem
    have hc' := congrArg Prod.snd hc
    have hnext := hle i' r' p' (j' + 1) ⟨hip', by omega⟩
    dsimp only at hc'
    push_cast at hnext
    omega
  · exact heq
  · have hmem := (mem_copyPlanes hin hout hshape h).2
      ⟨i, r, p, rowBytes inData, hrow.1, hgt, rfl⟩
    obtain ⟨q, k, hq, hk, hqk⟩ := href.source _ hmem
    have hqle := hin.byte_le_last hq hk
    dsimp only at hqk
    omega

end

/-! ## The transposing kernel -/

section
variable {t : ImageTensor} {size : Nat}

/-- Where a wrap has an element, before it is kept in 32 bits. -/
def wrapOffset (t : ImageTensor) (size : Nat) (p : Place) : ℤ :=
  match t.layout with
  | .nhwc => p.n * t.sampleStride.toInt + p.y * t.rowStride.toInt + p.x * t.colStride.toInt +
      p.c * size
  | .nchw => p.n * t.sampleStride.toInt + p.y * t.rowStride.toInt + p.x * size +
      p.c * t.chStride.toInt
  | .hwc => p.y * t.rowStride.toInt + p.x * t.colStride.toInt + p.c * size
  | .chw => p.y * t.rowStride.toInt + p.x * size + p.c * t.chStride.toInt

/-- The coordinates of a layout. -/
def coordsOf (layout : DataFormat) (x y z c : Int32) : List Int32 :=
  match layout with
  | .nchw => [z, c, y, x]
  | .nhwc => [z, y, x, c]
  | .chw => [c, y, x]
  | .hwc => [y, x, c]

theorem toInt_ptr_eq (t : ImageTensor) (size n y x c : Nat) :
    ((tensorWrap t size).ptr (coordsOf t.layout (.ofNat x) (.ofNat y) (.ofNat n) (.ofNat c))).toInt =
      (wrapOffset t size ⟨n, y, x, c⟩).bmod (2 ^ 32) := by
  have hs := Int64.modEq_toInt_toInt32
  have hn := Int32.modEq_toInt_ofNat
  have hstrides : List.Forall₂ (fun (s : Int32) z => s.toInt ≡ z [ZMOD 2 ^ 32])
      (tensorWrap t size).strides (match t.layout with
        | .nhwc => [t.sampleStride.toInt, t.rowStride.toInt, t.colStride.toInt, (size : ℤ)]
        | .nchw => [t.sampleStride.toInt, t.chStride.toInt, t.rowStride.toInt, (size : ℤ)]
        | .hwc => [t.rowStride.toInt, t.colStride.toInt, (size : ℤ)]
        | .chw => [t.chStride.toInt, t.rowStride.toInt, (size : ℤ)]) := by
    unfold tensorWrap
    cases t.layout
    · exact .cons (hs _) (.cons (hs _) (.cons (hs _) (.cons (hn _) .nil)))
    · exact .cons (hs _) (.cons (hs _) (.cons (hs _) (.cons (hn _) .nil)))
    · exact .cons (hs _) (.cons (hs _) (.cons (hn _) .nil))
    · exact .cons (hs _) (.cons (hs _) (.cons (hn _) .nil))
  have hcoords : List.Forall₂ (fun (c : Int32) z => c.toInt ≡ z [ZMOD 2 ^ 32])
      (coordsOf t.layout (.ofNat x) (.ofNat y) (.ofNat n) (.ofNat c)) (match t.layout with
        | .nchw => [(n : ℤ), (c : ℤ), (y : ℤ), (x : ℤ)]
        | .nhwc => [(n : ℤ), (y : ℤ), (x : ℤ), (c : ℤ)]
        | .chw => [(c : ℤ), (y : ℤ), (x : ℤ)]
        | .hwc => [(y : ℤ), (x : ℤ), (c : ℤ)]) := by
    unfold coordsOf
    cases t.layout
    · exact .cons (hn _) (.cons (hn _) (.cons (hn _) (.cons (hn _) .nil)))
    · exact .cons (hn _) (.cons (hn _) (.cons (hn _) (.cons (hn _) .nil)))
    · exact .cons (hn _) (.cons (hn _) (.cons (hn _) .nil))
    · exact .cons (hn _) (.cons (hn _) (.cons (hn _) .nil))
  rw [TensorWrap.toInt_ptr hstrides hcoords]
  congr 1
  unfold wrapOffset
  cases t.layout <;> simp only [Strides.address_cons, Strides.address_nil] <;> ring

/-- The innermost coordinate, and the place with its first index there. -/
def innermost (t : ImageTensor) (p : Place) : ℤ × Place :=
  match t.layout with
  | .nhwc | .hwc => (p.c, { p with c := 0 })
  | .nchw | .chw => (p.x, { p with x := 0 })

theorem innermost_has (h : t.Admitted) {p : Place} (hp : t.Has p) :
    0 ≤ (innermost t p).1 ∧ t.Has (innermost t p).2 := by
  obtain ⟨hn, hy, hx, hc⟩ := hp
  obtain ⟨-, -, hpx, hpc⟩ := h.pos
  unfold innermost
  cases t.layout
  · exact ⟨hx.1, hn, hy, ⟨le_rfl, hpx⟩, hc⟩
  · exact ⟨hc.1, hn, hy, hx, le_rfl, hpc⟩
  · exact ⟨hx.1, hn, hy, ⟨le_rfl, hpx⟩, hc⟩
  · exact ⟨hc.1, hn, hy, hx, le_rfl, hpc⟩

/-- A wrap steps by its own size along the innermost dimension, where the tensor steps by its. -/
theorem wrapOffset_eq_add (h : t.Admitted) (size : Nat) {p : Place} (hp : t.Has p) :
    wrapOffset t size p = t.offset (innermost t p).2 + (innermost t p).1 * size ∧
      t.offset p = t.offset (innermost t p).2 + (innermost t p).1 * t.elemSize := by
  have hpacked := h.packed
  have hsingle := h.single
  have hx : p.x * t.colStride.toInt = p.x * t.elemSize ∨ t.layout = .nhwc ∨ t.layout = .hwc := by
    by_cases hone : 1 < t.numCols.toInt
    · cases hl : t.layout <;> rw [hl] at hpacked <;> simp_all
    · obtain ⟨-, -, hx, -⟩ := hp
      have hx0 : p.x = 0 := by omega
      left
      rw [hx0]
      simp
  unfold wrapOffset innermost ImageTensor.offset
  cases hl : t.layout <;> rw [hl] at hpacked hsingle hx <;>
    simp only [reduceCtorEq, or_false, or_true, forall_const, or_self] at hsingle hx ⊢
  · rw [hx]
    constructor <;> ring
  · rw [hpacked.1]
    constructor <;> ring
  · rw [hx, hsingle.2]
    constructor <;> simp <;> ring
  · rw [hpacked.1, hsingle.2]
    constructor <;> simp

/-- A wrap of elements that are not too large has them no further than they are. -/
theorem wrapOffset_le (h : t.Admitted) (hsize : size ≤ t.elemSize) {p : Place} (hp : t.Has p) :
    0 ≤ wrapOffset t size p ∧ wrapOffset t size p ≤ t.offset p := by
  obtain ⟨hwrap, hoff⟩ := wrapOffset_eq_add h size hp
  obtain ⟨hpos, hbase⟩ := innermost_has h hp
  have hnonneg := h.offset_nonneg hbase
  have hmul := mul_le_mul_of_nonneg_left (Int.ofNat_le.2 hsize) hpos
  have hmul0 := mul_nonneg hpos (Int.natCast_nonneg size)
  rw [hwrap, hoff]
  omega

theorem wrapOffset_eq (h : t.Admitted) (hsize : size = t.elemSize) {p : Place} (hp : t.Has p) :
    wrapOffset t size p = t.offset p := by
  obtain ⟨hwrap, hoff⟩ := wrapOffset_eq_add h size hp
  rw [hwrap, hoff, hsize]

end

/-- The layouts that `transform` exchanges. -/
def Opposite (inData outData : ImageTensor) : Prop :=
  match inData.layout with
  | .nchw => outData.layout = .nhwc
  | .nhwc => outData.layout = .nchw
  | .chw => outData.layout = .hwc
  | .hwc => outData.layout = .chw

theorem srcCoord_eq (layout : DataFormat) (x y z c : Int32) :
    srcCoord layout x y z c = coordsOf layout x y z c := by
  cases layout <;> rfl

theorem dstCoord_eq (h : Opposite inData outData) (x y z c : Int32) :
    dstCoord inData.layout x y z c = coordsOf outData.layout x y z c := by
  unfold Opposite at h
  cases hl : inData.layout <;> rw [hl] at h <;> simp only at h <;> rw [h] <;> rfl

/-- The copies of a launch. -/
def launched (inData outData : ImageTensor) : List (ℤ × ℤ) :=
  (Kernel.launch (divUp inData.numCols.toInt.toNat 32) (divUp inData.numRows.toInt.toNat 8)
    inData.numSamples.toInt.toNat 32 8).flatMap
      (transformFormat inData.layout (tensorWrap inData (dataSize inData.dataType))
        (tensorWrap outData (dataSize inData.dataType)) (dataSize inData.dataType)
        (inData.numCols, inData.numRows, outData.numChannels))

/-- The copies of a launch, thread by thread. -/
theorem mem_launched (hopp : Opposite inData outData) {c : ℤ × ℤ} :
    c ∈ launched inData outData ↔ ∃ n y x k j : Nat, n < inData.numSamples.toInt.toNat ∧
      (y < threads inData.numRows 8 ∧ (y : ℤ) < inData.numRows.toInt) ∧
      (x < threads inData.numCols 32 ∧ (x : ℤ) < inData.numCols.toInt) ∧
      k < outData.numChannels.toInt.toNat ∧ j < dataSize inData.dataType ∧
      c = ((wrapOffset outData (dataSize inData.dataType) ⟨n, y, x, k⟩).bmod (2 ^ 32) + (j : ℤ),
        (wrapOffset inData (dataSize inData.dataType) ⟨n, y, x, k⟩).bmod (2 ^ 32) + (j : ℤ)) := by
  have hlt : ∀ (i : Nat) (k : Int32), i < 2 ^ 31 → (k ≤ Int32.ofNat i ↔ ¬(i : ℤ) < k.toInt) := by
    intro i k hi
    rw [Int32.le_iff_toInt_le, Int32.toInt_ofNat_of_lt hi, not_lt]
  have hX : threads inData.numCols 32 ≤ 2 ^ 31 := Crop.threads_le (k := 5) _ (by norm_num)
  have hY : threads inData.numRows 8 ≤ 2 ^ 31 := Crop.threads_le (k := 3) _ (by norm_num)
  unfold launched transformFormat
  rw [List.mem_flatMap, Kernel.exists_mem_launch (P := fun n y x =>
    c ∈ if inData.numCols ≤ Int32.ofNat x ∨ inData.numRows ≤ Int32.ofNat y then []
      else (List.range outData.numChannels.toInt.toNat).flatMap fun k =>
        bytes (dataSize inData.dataType)
          ((tensorWrap outData (dataSize inData.dataType)).ptr
            (dstCoord inData.layout (.ofNat x) (.ofNat y) (.ofNat n) (.ofNat k))).toInt
          ((tensorWrap inData (dataSize inData.dataType)).ptr
            (srcCoord inData.layout (.ofNat x) (.ofNat y) (.ofNat n) (.ofNat k))).toInt)]
  refine exists_congr fun n => exists_congr fun y => exists_congr fun x => ?_
  constructor
  · rintro ⟨hn, hy, hx, hc⟩
    split_ifs at hc with hout
    · cases hc
    · rw [hlt x _ (hx.trans_le hX), hlt y _ (hy.trans_le hY), not_or, not_not, not_not] at hout
      obtain ⟨k, hk, hc⟩ := List.mem_flatMap.1 hc
      rw [dstCoord_eq hopp, srcCoord_eq, toInt_ptr_eq, toInt_ptr_eq, mem_bytes] at hc
      obtain ⟨j, hj, rfl⟩ := hc
      exact ⟨k, j, hn, ⟨hy, hout.2⟩, ⟨hx, hout.1⟩, List.mem_range.1 hk, hj, rfl⟩
  · rintro ⟨k, j, hn, ⟨hy, hyh⟩, ⟨hx, hxw⟩, hk, hj, rfl⟩
    refine ⟨hn, hy, hx, ?_⟩
    rw [if_neg (by
      rw [hlt x _ (hx.trans_le hX), hlt y _ (hy.trans_le hY), not_or, not_not, not_not]
      exact ⟨hxw, hyh⟩)]
    refine List.mem_flatMap.2 ⟨k, List.mem_range.2 hk, ?_⟩
    rw [dstCoord_eq hopp, srcCoord_eq, toInt_ptr_eq, toInt_ptr_eq, mem_bytes]
    exact ⟨j, hj, rfl⟩

/-- What `transform` does not check. -/
structure Transposes (inData outData : ImageTensor) : Prop where
  extents : SameExtents inData outData
  /-- An element is one number. -/
  dtype : inData.dtypeChannels = 1 ∧ outData.dtypeChannels = 1
  /-- The last element begins less than 2 GiB behind the base pointer. -/
  near : inData.offset inData.last < 2 ^ 31
  outNear : outData.offset outData.last < 2 ^ 31
  covered : inData.numCols.toInt ≤ threads inData.numCols 32 ∧
    inData.numRows.toInt ≤ threads inData.numRows 8

theorem elemSize_of_dtype {t : ImageTensor} (h : t.dtypeChannels = 1) :
    t.elemSize = dataSize t.dataType := by
  rw [ImageTensor.elemSize, h, Nat.one_mul]

/-- Such a launch moves every byte. -/
theorem Transposes.moves (h : Transposes inData outData) (hin : inData.Admitted)
    (hout : outData.Admitted) (hopp : Opposite inData outData)
    (htype : inData.dataType = outData.dataType) :
    Moves inData outData (launched inData outData) := by
  obtain ⟨hext, ⟨hd, hd'⟩, hnear, hnear', hcovX, hcovY⟩ := h
  have hsize : dataSize inData.dataType = inData.elemSize := (elemSize_of_dtype hd).symm
  have hsize' : dataSize inData.dataType = outData.elemSize := by
    rw [elemSize_of_dtype hd', htype]
  have hptr : ∀ p, inData.Has p →
      (wrapOffset inData (dataSize inData.dataType) p).bmod (2 ^ 32) = inData.offset p ∧
        (wrapOffset outData (dataSize inData.dataType) p).bmod (2 ^ 32) = outData.offset p := by
    intro p hp
    have hp' := (hext.has_iff p).1 hp
    rw [wrapOffset_eq hin hsize hp, wrapOffset_eq hout hsize' hp']
    exact ⟨Crop.bmod_of_near (hin.offset_nonneg hp) ((hin.offset_le_last hp).trans_lt hnear),
      Crop.bmod_of_near (hout.offset_nonneg hp') ((hout.offset_le_last hp').trans_lt hnear')⟩
  intro c
  rw [mem_launched hopp]
  constructor
  · rintro ⟨n, y, x, k, j, hn, ⟨-, hy⟩, ⟨-, hx⟩, hk, hj, rfl⟩
    have hp : inData.Has ⟨n, y, x, k⟩ := by
      refine ⟨⟨Int.natCast_nonneg _, lt_toNat.1 hn⟩, ⟨Int.natCast_nonneg _, hy⟩,
        ⟨Int.natCast_nonneg _, hx⟩, Int.natCast_nonneg _, ?_⟩
      rw [hext.2.2.2]
      exact lt_toNat.1 hk
    obtain ⟨h1, h2⟩ := hptr _ hp
    exact ⟨_, j, hp, hsize ▸ hj, by rw [h1, h2]⟩
  · rintro ⟨⟨n, y, x, k⟩, j, hp, hj, rfl⟩
    obtain ⟨h1, h2⟩ := hptr _ hp
    obtain ⟨⟨hn0, hn⟩, ⟨hy0, hy⟩, ⟨hx0, hx⟩, hk0, hk⟩ := hp
    dsimp only at hn0 hn hy0 hy hx0 hx hk0 hk
    lift n to ℕ using hn0
    lift y to ℕ using hy0
    lift x to ℕ using hx0
    lift k to ℕ using hk0
    refine ⟨n, y, x, k, j, lt_toNat.2 hn, ⟨?_, hy⟩, ⟨?_, hx⟩, ?_, hsize ▸ hj, by rw [h1, h2]⟩
    · omega
    · omega
    · rw [← hext.2.2.2]
      exact lt_toNat.2 hk

/-- What is kept in 32 bits is no further. -/
theorem bmod_le_self {z : ℤ} (h : 0 ≤ z) : z.bmod (2 ^ 32) ≤ z := by
  rw [Int.bmod_def]
  split_ifs <;> omega

/-- **A launch that moves every element** is such a launch: the last byte of all says so. -/
theorem transposes_of_reformatted (hin : inData.Admitted) (hout : outData.Admitted)
    (hopp : Opposite inData outData) (htype : inData.dataType = outData.dataType)
    (h : Reformatted inData outData (launched inData outData)) : Transposes inData outData := by
  have hext := h.extents
  have helem := h.elemSize_eq hin
  have hpos := hin.elemSize_pos
  have hsize : dataSize inData.dataType ≤ inData.elemSize :=
    Nat.le_mul_of_pos_left _ hin.dtypeChannels.1
  have hmem := h.copy_mem hin hin.has_last (Nat.sub_lt hpos Nat.one_pos)
  obtain ⟨n, y, x, k, j, hn, ⟨hyT, hy⟩, ⟨hxT, hx⟩, hk, hj, heq⟩ := (mem_launched hopp).1 hmem
  have hp : inData.Has ⟨n, y, x, k⟩ := by
    refine ⟨⟨Int.natCast_nonneg _, lt_toNat.1 hn⟩, ⟨Int.natCast_nonneg _, hy⟩,
      ⟨Int.natCast_nonneg _, hx⟩, Int.natCast_nonneg _, ?_⟩
    rw [hext.2.2.2]
    exact lt_toNat.1 hk
  have hp' := (hext.has_iff _).1 hp
  have hw := wrapOffset_le hin hsize hp
  have hw' := wrapOffset_le hout (helem ▸ hsize) hp'
  have hle := hin.offset_le_last hp
  have hle' := hout.offset_le_last hp'
  rw [← hext.last_eq] at hle'
  have hb := bmod_le_self hw.1
  have hb' := bmod_le_self hw'.1
  obtain ⟨h1, h2⟩ := Prod.mk.inj heq
  -- all the inequalities are equations
  have hjE : j = inData.elemSize - 1 := by omega
  have hsizeE : dataSize inData.dataType = inData.elemSize := by omega
  have hlast : (⟨n, y, x, k⟩ : Place) = inData.last :=
    (hin.byte_inj hp hin.has_last (hj.trans_le hsize) (Nat.sub_lt hpos Nat.one_pos) (by omega)).1
  have hfits := (Wrapping.fits32_bmod
    (wrapOffset inData (dataSize inData.dataType) ⟨n, y, x, k⟩)).2
  have hfits' := (Wrapping.fits32_bmod
    (wrapOffset outData (dataSize inData.dataType) ⟨n, y, x, k⟩)).2
  have hdtype : ∀ t : ImageTensor, t.elemSize = dataSize t.dataType → 0 < t.elemSize →
      t.dtypeChannels = 1 := by
    intro t ht hpos
    rw [ht] at hpos
    have heq : t.dtypeChannels * dataSize t.dataType = 1 * dataSize t.dataType := by
      rw [Nat.one_mul]
      exact ht
    exact Nat.eq_of_mul_eq_mul_right hpos heq
  have hy' : (y : ℤ) = inData.numRows.toInt - 1 := congrArg Place.y hlast
  have hx' : (x : ℤ) = inData.numCols.toInt - 1 := congrArg Place.x hlast
  exact {
    extents := hext
    dtype := ⟨hdtype inData hsizeE.symm hpos,
      hdtype outData (by rw [helem, ← hsizeE, htype]) (helem ▸ hpos)⟩
    near := by omega
    outNear := by
      rw [← hext.last_eq]
      omega
    covered := ⟨by omega, by omega⟩ }

/-! ## Calls -/

/-- What a call that succeeds has to meet. -/
def Suits (inData outData : ImageTensor) : Prop :=
  if Crop.sameType inData outData ∧ sameShape inData outData then
    (width inData).toNat = rowBytes inData
  else Transposes inData outData

theorem infer_success {launchable : Nat × Nat × Nat → Bool}
    (h : infer launchable inData outData = .success cs) :
    (Crop.sameType inData outData ∧ sameShape inData outData ∧
        ∃ rows, copyPlanes inData outData = some rows ∧ cs = rows.flatten) ∨
      (¬(Crop.sameType inData outData ∧ sameShape inData outData) ∧ Opposite inData outData ∧
        inData.dataType = outData.dataType ∧ cs = launched inData outData) := by
  unfold infer at h
  split_ifs at h with hsame hformat htype hvalid
  · split at h
    next rows hrows => exact .inl ⟨hsame.1, hsame.2, rows, hrows, (Outcome.success.inj h).symm⟩
    next => cases h
  · refine .inr ⟨hsame, ?_, not_not.1 htype, ?_⟩
    · unfold Opposite
      cases hl : inData.layout <;> rw [hl] at hformat <;> simpa using hformat
    · unfold transform at h
      dsimp only at h
      split_ifs at h
      exact (Outcome.success.inj h).symm

/-- **When a reformat moves every element**: for all tensors that the types admit, and whatever grids
the device takes. -/
theorem reformat_exact_iff (launchable : Nat × Nat × Nat → Bool) (hin : inData.Admitted)
    (hout : outData.Admitted) (h : infer launchable inData outData = .success cs) :
    Reformatted inData outData cs ↔ Suits inData outData := by
  unfold Suits
  rcases infer_success h with ⟨htype, hshape, rows, hrows, rfl⟩ | ⟨hsame, hopp, htype, rfl⟩
  · rw [if_pos ⟨htype, hshape⟩]
    refine ⟨width_of_reformatted hin hout hshape hrows, fun hwidth => ?_⟩
    exact (moves_of_width hin hout htype hshape hrows hwidth).reformatted hout hshape.2
      (elemSize_eq_of_sameType htype)
  · rw [if_neg hsame]
    refine ⟨transposes_of_reformatted hin hout hopp htype, fun ht => ?_⟩
    refine (ht.moves hin hout hopp htype).reformatted hout ht.extents ?_
    rw [elemSize_of_dtype ht.dtype.1, elemSize_of_dtype ht.dtype.2, htype]

/-- A plane of bytes, of a square image. -/
def plane (side : Int32) : ImageTensor where
  layout := .chw
  dataType := .cv8U
  dtypeChannels := 1
  numSamples := 1
  numRows := side
  numCols := side
  numChannels := 1
  sampleStride := 0
  rowStride := side.toInt64
  colStride := 1
  chStride := 0

theorem plane_admitted {side : Int32} (h : 0 < side.toInt) : (plane side).Admitted where
  dtypeChannels := ⟨le_rfl, by norm_num [plane]⟩
  pos := ⟨Int.zero_lt_one, h, h, Int.zero_lt_one⟩
  single := fun _ => ⟨rfl, rfl⟩
  packed := fun _ => rfl
  spans := by
    refine ⟨_, .one 0 (.one 0 (.cons side.toInt ?_ (.cons side.toInt ?_ .nil)))⟩
    · simp [plane]
    · simp [plane, ImageTensor.elemSize, dataSize]

theorem reformat_exact_iff_square : ∃ copies,
    infer (fun _ => true) (Crop.square 4) (plane 4) = .success copies ∧
      Reformatted (Crop.square 4) (plane 4) copies := by
  refine ⟨_, rfl, (reformat_exact_iff (fun _ => true) (Crop.square_admitted (by decide))
    (plane_admitted (by decide)) rfl).2 ?_⟩
  refine (if_neg (by decide)).mpr ⟨by decide, ⟨rfl, rfl⟩, by decide, by decide, ?_, ?_⟩
  · exact Int.ofNat_le.2 (le_divUp_mul (by decide) (by norm_num) (by norm_num))
  · exact Int.ofNat_le.2 (le_divUp_mul (by decide) (by norm_num) (by norm_num))

/-- A plane that is smaller than the image. -/
theorem reformat_outside : (Crop.square 2).Admitted ∧ (plane 1).Admitted ∧ ∃ copies,
    infer (fun _ => true) (Crop.square 2) (plane 1) = .success copies ∧
      ¬Reformatted (Crop.square 2) (plane 1) copies := by
  refine ⟨Crop.square_admitted (by decide), plane_admitted (by decide), _, rfl, fun h => ?_⟩
  exact absurd h.extents (by decide)

end Reformat

end Cvcuda
