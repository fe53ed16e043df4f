import CvCuda.Cvcuda.TensorWrap

/-! # Where the elements of tensors lie

* `toInt_ptr`: the pointer of a wrap is the true offset, kept in 32 bits.
* `Admitted.byte_inj`: the bytes of an admitted tensor are those of one element each.
* `Admitted.pixel_inj`: likewise of its pixels, where channels are interleaved.
-/

namespace Cvcuda

open BoxBlur (DataFormat)
open Strides

/-! ## Wraps -/

theorem Int32.toInt_bmod (i : Int32) : i.toInt.bmod (2 ^ 32) = i.toInt :=
  Int.bmod_eq_of_le (by have := i.le_toInt; omega) (by have := i.toInt_lt; omega)

theorem Int32.modEq_toInt_ofNat (n : Nat) : (Int32.ofNat n).toInt ≡ n [ZMOD 2 ^ 32] := by
  rw [Int32.toInt_ofNat']
  exact Int.bmod_emod

theorem Int64.modEq_toInt_toInt32 (s : Int64) : s.toInt32.toInt ≡ s.toInt [ZMOD 2 ^ 32] := by
  rw [Int64.toInt_toInt32]
  exact Int.bmod_emod

/-- A value of 32 bits that stands for `z` modulo `2 ^ 32`. -/
theorem Int32.toInt_eq_bmod {i : Int32} {z : ℤ} (h : i.toInt ≡ z [ZMOD 2 ^ 32]) :
    i.toInt = z.bmod (2 ^ 32) := by
  have hmod : i.toInt % ((2 ^ 32 : Nat) : ℤ) = z % ((2 ^ 32 : Nat) : ℤ) := by exact_mod_cast h
  rw [← Int32.toInt_bmod i, ← Int.emod_bmod i.toInt, hmod, Int.emod_bmod]

/-- The pointer of a wrap is the true offset, kept in 32 bits. -/
theorem TensorWrap.toInt_ptr {w : TensorWrap} {coords : List Int32} {ss is : List ℤ}
    (hs : List.Forall₂ (fun (s : Int32) z => s.toInt ≡ z [ZMOD 2 ^ 32]) w.strides ss)
    (hc : List.Forall₂ (fun (c : Int32) z => c.toInt ≡ z [ZMOD 2 ^ 32]) coords is) :
    (w.ptr coords).toInt = (address ss is).bmod (2 ^ 32) := by
  refine Int32.toInt_eq_bmod ?_
  obtain ⟨strides⟩ := w
  unfold TensorWrap.ptr
  simp only at hs ⊢
  induction hc generalizing strides ss with
  | nil => rfl
  | @cons c i cs is hci hcs ih =>
    cases hs with
    | nil => rfl
    | @cons s z strides ss hsz hss =>
      rw [List.zipWith_cons_cons, List.sum_cons, address_cons, Int32.toInt_add, Int32.toInt_mul]
      refine Int.bmod_emod.trans (Int.ModEq.add ?_ (ih strides hss))
      exact Int.bmod_emod.trans (Int.ModEq.mul hci hsz)

/-! ## Elements -/

namespace ImageTensor

variable {t : ImageTensor} {p q : Place}

/-- The coordinates of a place, from the outermost dimension to the innermost. -/
def coords (t : ImageTensor) (p : Place) : List ℤ :=
  match t.layout with
  | .nhwc | .hwc => [p.n, p.y, p.x, p.c]
  | .nchw | .chw => [p.n, p.c, p.y, p.x]

theorem address_coords (t : ImageTensor) (p : Place) :
    address (t.dims.map Prod.snd) (t.coords p) = t.offset p := by
  unfold dims coords offset
  cases t.layout <;> simp only [List.map_cons, List.map_nil, address_cons, address_nil] <;> ring

theorem Has.within (h : t.Has p) : Within (t.dims.map Prod.fst) (t.coords p) := by
  obtain ⟨hn, hy, hx, hc⟩ := h
  unfold dims coords
  cases t.layout
  · exact .cons hn (.cons hc (.cons hy (.cons hx .nil)))
  · exact .cons hn (.cons hy (.cons hx (.cons hc .nil)))
  · exact .cons hn (.cons hc (.cons hy (.cons hx .nil)))
  · exact .cons hn (.cons hy (.cons hx (.cons hc .nil)))

theorem coords_inj (h : t.coords p = t.coords q) : p = q := by
  obtain ⟨n, y, x, c⟩ := p
  obtain ⟨n', y', x', c'⟩ := q
  unfold coords at h
  cases hl : t.layout <;> rw [hl] at h <;> simp only [List.cons.injEq, and_true] at h <;>
    simp only [Place.mk.injEq] <;> tauto

/-- No element is before the base pointer. -/
theorem Admitted.offset_nonneg (h : t.Admitted) (hp : t.Has p) : 0 ≤ t.offset p := by
  obtain ⟨r, hr⟩ := h.spans
  rw [← address_coords]
  exact (hr.reach (Int.natCast_nonneg _) hp.within).1

/-- A byte is of one element only. -/
theorem Admitted.byte_inj (h : t.Admitted) (hp : t.Has p) (hq : t.Has q) {j k : Nat}
    (hj : j < t.elemSize) (hk : k < t.elemSize) (he : t.offset p + (j : ℤ) = t.offset q + (k : ℤ)) :
    p = q ∧ j = k := by
  by_cases hpq : p = q
  · subst hpq
    exact ⟨rfl, by omega⟩
  · obtain ⟨r, hr⟩ := h.spans
    have hne : t.coords p ≠ t.coords q := fun hc => hpq (coords_inj hc)
    have hapart := hr.apart (Int.natCast_nonneg _) hp.within hq.within hne
    rw [address_coords, address_coords] at hapart
    omega

theorem Admitted.has_zero (h : t.Admitted) : t.Has ⟨0, 0, 0, 0⟩ :=
  ⟨⟨le_rfl, h.pos.1⟩, ⟨le_rfl, h.pos.2.1⟩, ⟨le_rfl, h.pos.2.2.1⟩, le_rfl, h.pos.2.2.2⟩

/-- Strides of dimensions that have more than one index lead forward. -/
theorem Admitted.strides_nonneg (h : t.Admitted) :
    (1 < t.numSamples.toInt → 0 ≤ t.sampleStride.toInt) ∧
      (1 < t.numRows.toInt → 0 ≤ t.rowStride.toInt) ∧
      (1 < t.numCols.toInt → 0 ≤ t.colStride.toInt) ∧
      (1 < t.numChannels.toInt → 0 ≤ t.chStride.toInt) := by
  obtain ⟨hn, hy, hx, hc⟩ := h.has_zero
  refine ⟨fun hlt => ?_, fun hlt => ?_, fun hlt => ?_, fun hlt => ?_⟩
  · simpa [offset] using h.offset_nonneg (p := ⟨1, 0, 0, 0⟩) ⟨⟨zero_le_one, hlt⟩, hy, hx, hc⟩
  · simpa [offset] using h.offset_nonneg (p := ⟨0, 1, 0, 0⟩) ⟨hn, ⟨zero_le_one, hlt⟩, hx, hc⟩
  · simpa [offset] using h.offset_nonneg (p := ⟨0, 0, 1, 0⟩) ⟨hn, hy, ⟨zero_le_one, hlt⟩, hc⟩
  · simpa [offset] using h.offset_nonneg (p := ⟨0, 0, 0, 1⟩) ⟨hn, hy, hx, zero_le_one, hlt⟩

/-- A step forward by a stride that leads forward. -/
theorem mul_stride_mono {i j n s : ℤ} (hi : 0 ≤ i) (hij : i ≤ j) (hj : j < n)
    (hs : 1 < n → 0 ≤ s) : i * s ≤ j * s := by
  rcases hij.eq_or_lt with rfl | hlt
  · exact le_rfl
  · exact mul_le_mul_of_nonneg_right hij (hs (by omega))

/-- Offsets grow with each coordinate. -/
theorem Admitted.offset_mono (h : t.Admitted) (hp : t.Has p) (hq : t.Has q) (hn : p.n ≤ q.n)
    (hy : p.y ≤ q.y) (hx : p.x ≤ q.x) (hc : p.c ≤ q.c) : t.offset p ≤ t.offset q := by
  obtain ⟨hsn, hsy, hsx, hsc⟩ := h.strides_nonneg
  have h1 := mul_stride_mono hp.1.1 hn hq.1.2 hsn
  have h2 := mul_stride_mono hp.2.1.1 hy hq.2.1.2 hsy
  have h3 := mul_stride_mono hp.2.2.1.1 hx hq.2.2.1.2 hsx
  have h4 := mul_stride_mono hp.2.2.2.1 hc hq.2.2.2.2 hsc
  unfold offset
  linarith

/-! ## Pixels -/

theorem Admitted.elemSize_pos (h : t.Admitted) : 0 < t.elemSize := by
  refine Nat.mul_pos h.dtypeChannels.1 ?_
  unfold Ptr2dNHWC.dataSize
  cases t.dataType <;> decide

/-- The channels come last. -/
def Interleaved (t : ImageTensor) : Prop := t.layout = .nhwc ∨ t.layout = .hwc

theorem Admitted.dense (h : t.Admitted) (hl : t.Interleaved) :
    t.chStride.toInt = t.elemSize ∧ t.colStride.toInt = t.numChannels.toInt * t.elemSize := by
  have := h.packed
  rcases hl with hl | hl <;> rwa [hl] at this

theorem Admitted.pixelSize_cast (h : t.Admitted) :
    (t.pixelSize : ℤ) = t.numChannels.toInt * t.elemSize := by
  rw [pixelSize]
  push_cast
  rw [Int.toNat_of_nonneg h.pos.2.2.2.le]

theorem Admitted.pixelSize_pos (h : t.Admitted) : 0 < t.pixelSize := by
  have := h.pos.2.2.2
  exact Nat.mul_pos (by omega) h.elemSize_pos

/-- A byte of a pixel is one of an element. -/
theorem Admitted.pixel_byte (h : t.Admitted) (hl : t.Interleaved) {n y x : ℤ}
    (hp : t.Has ⟨n, y, x, 0⟩) {j : Nat} (hj : j < t.pixelSize) :
    t.Has ⟨n, y, x, (j / t.elemSize : Nat)⟩ ∧
      t.offset ⟨n, y, x, 0⟩ + (j : ℤ) =
        t.offset ⟨n, y, x, (j / t.elemSize : Nat)⟩ + ((j % t.elemSize : Nat) : ℤ) := by
  obtain ⟨hn, hy, hx, -⟩ := hp
  constructor
  · refine ⟨hn, hy, hx, Int.natCast_nonneg _, ?_⟩
    have hlt : j / t.elemSize < t.numChannels.toInt.toNat := by
      rw [Nat.div_lt_iff_lt_mul h.elemSize_pos]
      exact hj
    exact Int.lt_toNat.1 hlt
  · have hdiv : ((j / t.elemSize : Nat) : ℤ) * t.elemSize + ((j % t.elemSize : Nat) : ℤ) = j := by
      exact_mod_cast Nat.div_add_mod' j t.elemSize
    simp only [offset, (h.dense hl).1]
    linarith

/-- A byte is of one pixel only. -/
theorem Admitted.pixel_inj (h : t.Admitted) (hl : t.Interleaved) {n y x n' y' x' : ℤ}
    (hp : t.Has ⟨n, y, x, 0⟩) (hq : t.Has ⟨n', y', x', 0⟩) {j k : Nat} (hj : j < t.pixelSize)
    (hk : k < t.pixelSize)
    (he : t.offset ⟨n, y, x, 0⟩ + (j : ℤ) = t.offset ⟨n', y', x', 0⟩ + (k : ℤ)) :
    (n = n' ∧ y = y' ∧ x = x') ∧ j = k := by
  obtain ⟨hp', hpj⟩ := h.pixel_byte hl hp hj
  obtain ⟨hq', hqk⟩ := h.pixel_byte hl hq hk
  rw [hpj, hqk] at he
  obtain ⟨hpq, hmod⟩ := h.byte_inj hp' hq' (Nat.mod_lt _ h.elemSize_pos)
    (Nat.mod_lt _ h.elemSize_pos) he
  simp only [Place.mk.injEq] at hpq
  obtain ⟨hn, hy, hx, hc⟩ := hpq
  refine ⟨⟨hn, hy, hx⟩, ?_⟩
  rw [← Nat.div_add_mod j t.elemSize, ← Nat.div_add_mod k t.elemSize, hmod, Int.ofNat_inj.1 hc]

end ImageTensor

end Cvcuda
