import CvCuda.Cvcuda.Crop
import CvCuda.Cvcuda.Proof.TensorWrap
import CvCuda.Cvcuda.Proof.HistogramEq
import CvCuda.Lib.Wrapping

/-! # When a crop copies its window

* `Copied`: the window is in both tensors, and every order of the copies makes its pixels.
* `Sound`: what the tensors, the window and the grid have to be for it; `copied_iff`: it is exact.
* `crops_exact_iff`: when the two operators copy.
-/

namespace Cvcuda

open BoxBlur (ErrorCode DataFormat)
open Ptr2dNHWC (dataSize)
open Copies

instance nontrivial_uint8 : Nontrivial UInt8 := ⟨0, 1, by decide⟩

namespace Crop

/-- The pixel is one of the window, in a sample that a tensor has. -/
def InWindow (inData outData : ImageTensor) (window : RectI) (n y x : ℤ) : Prop :=
  (0 ≤ n ∧ (n < inData.numSamples.toInt ∨ n < outData.numSamples.toInt)) ∧
    (0 ≤ y ∧ y < window.height.toInt) ∧ 0 ≤ x ∧ x < window.width.toInt

/-- The copies crop the window, in any order. -/
structure Copied (inData outData : ImageTensor) (window : RectI) (copies : List (ℤ × ℤ)) :
    Prop where
  source : ∀ n y x, InWindow inData outData window n y x →
    inData.Has ⟨n, y + window.y.toInt, x + window.x.toInt, 0⟩
  dest : ∀ n y x, InWindow inData outData window n y x → outData.Has ⟨n, y, x, 0⟩
  copied : ∀ (m d d' : ℤ → UInt8), Leaves copies m d d' → ∀ n y x,
    InWindow inData outData window n y x →
      outData.pixel d' n y x = inData.pixel m n (y + window.y.toInt) (x + window.x.toInt)
  kept : ∀ (m d d' : ℤ → UInt8), Leaves copies m d d' → ∀ n y x, outData.Has ⟨n, y, x, 0⟩ →
    ¬(y < window.height.toInt ∧ x < window.width.toInt) →
      outData.pixel d' n y x = outData.pixel d n y x

/-- What neither operator checks, for a grid of some threads. -/
structure Suits (inData outData : ImageTensor) (window : RectI) (threadsX threadsY : Nat) :
    Prop where
  channels : inData.numChannels = outData.numChannels
  /-- An element is one number. -/
  dtype : inData.dtypeChannels = 1
  /-- The last pixel of the window begins less than 2 GiB behind the base pointer. -/
  near : inData.offset ⟨inData.numSamples.toInt - 1, window.y.toInt + window.height.toInt - 1,
    window.x.toInt + window.width.toInt - 1, 0⟩ < 2 ^ 31
  outNear : outData.offset ⟨inData.numSamples.toInt - 1, window.height.toInt - 1,
    window.width.toInt - 1, 0⟩ < 2 ^ 31
  covered : window.width.toInt ≤ threadsX ∧ window.height.toInt ≤ threadsY

/-- What the tensors, the window and the grid have to be. -/
structure Sound (inData outData : ImageTensor) (window : RectI) (threadsX threadsY : Nat) : Prop
    extends Suits inData outData window threadsX threadsY where
  samples : inData.numSamples = outData.numSamples
  rows : 0 ≤ window.y.toInt ∧ window.y.toInt + window.height.toInt ≤ inData.numRows.toInt
  cols : 0 ≤ window.x.toInt ∧ window.x.toInt + window.width.toInt ≤ inData.numCols.toInt
  outRows : window.height.toInt ≤ outData.numRows.toInt
  outCols : window.width.toInt ≤ outData.numCols.toInt

/-! ## The copies of a launch -/

section
variable {inData outData : ImageTensor} {window : RectI} {gridX gridY gridZ bsX bsY size : Nat}

/-- The copies of a launch. -/
def copies (inData outData : ImageTensor) (size gridX gridY gridZ bsX bsY : Nat)
    (window : RectI) : List (ℤ × ℤ) :=
  (Kernel.launch gridX gridY gridZ bsX bsY).flatMap
    (kernel (createTensorWrapNHW inData size) (createTensorWrapNHW outData size) size bsX bsY
      window)

/-- Where a wrap has a pixel, before it is kept in 32 bits. -/
def wrapOffset (t : ImageTensor) (size : Nat) (n y x : ℤ) : ℤ :=
  n * t.sampleStride.toInt + y * t.rowStride.toInt + x * size

theorem toInt_ptr_eq {t : ImageTensor} {n y x : Int32} {n' y' x' : ℤ}
    (hn : n.toInt ≡ n' [ZMOD 2 ^ 32]) (hy : y.toInt ≡ y' [ZMOD 2 ^ 32])
    (hx : x.toInt ≡ x' [ZMOD 2 ^ 32]) :
    ((createTensorWrapNHW t size).ptr [n, y, x]).toInt =
      (wrapOffset t size n' y' x').bmod (2 ^ 32) := by
  have hstrides : List.Forall₂ (fun (s : Int32) z => s.toInt ≡ z [ZMOD 2 ^ 32])
      (createTensorWrapNHW t size).strides
      [t.sampleStride.toInt, t.rowStride.toInt, (size : ℤ)] :=
    .cons (Int64.modEq_toInt_toInt32 _) (.cons (Int64.modEq_toInt_toInt32 _)
      (.cons (Int32.modEq_toInt_ofNat size) .nil))
  rw [TensorWrap.toInt_ptr hstrides (.cons hn (.cons hy (.cons hx .nil)))]
  congr 1
  simp only [Strides.address_cons, Strides.address_nil, wrapOffset]
  ring

theorem mem_kernel {src dst : TensorWrap} {t : Kernel.Thread} {c : ℤ × ℤ} :
    c ∈ kernel src dst size bsX bsY window t ↔
      (Int32.ofNat (t.blockIdx.1 * bsX + t.threadIdx.1) < window.width ∧
        Int32.ofNat (t.blockIdx.2.1 * bsY + t.threadIdx.2) < window.height) ∧
      c ∈ bytes size
        (dst.ptr [.ofNat t.blockIdx.2.2, .ofNat (t.blockIdx.2.1 * bsY + t.threadIdx.2),
          .ofNat (t.blockIdx.1 * bsX + t.threadIdx.1)]).toInt
        (src.ptr [.ofNat t.blockIdx.2.2,
          .ofNat (t.blockIdx.2.1 * bsY + t.threadIdx.2) + window.y,
          .ofNat (t.blockIdx.1 * bsX + t.threadIdx.1) + window.x]).toInt := by
  unfold kernel
  dsimp only
  split_ifs with hin
  · exact ⟨fun hc => ⟨hin, hc⟩, fun h => h.2⟩
  · exact ⟨fun hc => absurd hc List.not_mem_nil, fun h => absurd h.1 hin⟩

/-- The copies of a launch, thread by thread. -/
theorem mem_copies (hX : gridX * bsX ≤ 2 ^ 31) (hY : gridY * bsY ≤ 2 ^ 31) {c : ℤ × ℤ} :
    c ∈ copies inData outData size gridX gridY gridZ bsX bsY window ↔
      ∃ n y x j : Nat, n < gridZ ∧ (y < gridY * bsY ∧ (y : ℤ) < window.height.toInt) ∧
        (x < gridX * bsX ∧ (x : ℤ) < window.width.toInt) ∧ j < size ∧
        c = ((wrapOffset outData size n y x).bmod (2 ^ 32) + (j : ℤ),
          (wrapOffset inData size n (y + window.y.toInt) (x + window.x.toInt)).bmod (2 ^ 32) +
            (j : ℤ)) := by
  have hadd : ∀ (i : Nat) (k : Int32), (Int32.ofNat i + k).toInt ≡ i + k.toInt [ZMOD 2 ^ 32] := by
    intro i k
    rw [Int32.toInt_add]
    exact Int.bmod_emod.trans ((Int32.modEq_toInt_ofNat i).add_right _)
  have hlt : ∀ (i : Nat) (k : Int32), i < 2 ^ 31 → (Int32.ofNat i < k ↔ (i : ℤ) < k.toInt) := by
    intro i k hi
    rw [Int32.lt_iff_toInt_lt, Int32.toInt_ofNat_of_lt hi]
  have hbytes : ∀ n y x : Nat, c ∈ bytes size
      ((createTensorWrapNHW outData size).ptr [.ofNat n, .ofNat y, .ofNat x]).toInt
      ((createTensorWrapNHW inData size).ptr
        [.ofNat n, .ofNat y + window.y, .ofNat x + window.x]).toInt ↔
      ∃ j : Nat, j < size ∧ c = ((wrapOffset outData size n y x).bmod (2 ^ 32) + (j : ℤ),
        (wrapOffset inData size n (y + window.y.toInt) (x + window.x.toInt)).bmod (2 ^ 32) +
          (j : ℤ)) := by
    intro n y x
    rw [mem_bytes, toInt_ptr_eq (Int32.modEq_toInt_ofNat n) (Int32.modEq_toInt_ofNat y)
      (Int32.modEq_toInt_ofNat x), toInt_ptr_eq (Int32.modEq_toInt_ofNat n) (hadd y window.y)
      (hadd x window.x)]
  simp only [copies, List.mem_flatMap, mem_kernel]
  rw [Kernel.exists_mem_launch (P := fun n y x =>
    (Int32.ofNat x < window.width ∧ Int32.ofNat y < window.height) ∧
      c ∈ bytes size ((createTensorWrapNHW outData size).ptr [.ofNat n, .ofNat y, .ofNat x]).toInt
        ((createTensorWrapNHW inData size).ptr
          [.ofNat n, .ofNat y + window.y, .ofNat x + window.x]).toInt)]
  refine exists_congr fun n => exists_congr fun y => exists_congr fun x => ?_
  rw [hbytes]
  constructor
  · rintro ⟨hn, hy, hx, hin, j, hj, rfl⟩
    exact ⟨j, hn, ⟨hy, (hlt _ _ (hy.trans_le hY)).1 hin.2⟩,
      ⟨hx, (hlt _ _ (hx.trans_le hX)).1 hin.1⟩, hj, rfl⟩
  · rintro ⟨j, hn, ⟨hy, hyh⟩, ⟨hx, hxw⟩, hj, rfl⟩
    exact ⟨hn, hy, hx, ⟨(hlt _ _ (hx.trans_le hX)).2 hxw, (hlt _ _ (hy.trans_le hY)).2 hyh⟩, j, hj,
      rfl⟩

end

/-! ## Places of pixels -/

section
variable {t : ImageTensor} {n y x : ℤ} {size : Nat}

theorem offset_pixel (h : t.Admitted) (hl : t.Interleaved) (n y x : ℤ) :
    t.offset ⟨n, y, x, 0⟩ = wrapOffset t t.pixelSize n y x := by
  rw [wrapOffset, h.pixelSize_cast, ← (h.dense hl).2, ImageTensor.offset]
  ring

/-- A wrap whose pixels are not too large has them no further than they are. -/
theorem wrapOffset_le (h : t.Admitted) (hl : t.Interleaved) (hp : t.Has ⟨n, y, x, 0⟩)
    (hs : size ≤ t.pixelSize) :
    0 ≤ wrapOffset t size n y x ∧ wrapOffset t size n y x ≤ t.offset ⟨n, y, x, 0⟩ := by
  obtain ⟨hn, hy, hx, hc⟩ := hp
  have hrow : 0 ≤ t.offset ⟨n, y, 0, 0⟩ :=
    h.offset_nonneg ⟨hn, hy, ⟨le_rfl, h.pos.2.2.1⟩, hc⟩
  rw [offset_pixel h hl] at hrow ⊢
  simp only [wrapOffset, zero_mul, add_zero] at hrow ⊢
  have hx0 : 0 ≤ x := hx.1
  have hle : (size : ℤ) ≤ t.pixelSize := by exact_mod_cast hs
  exact ⟨by positivity, by linarith [mul_le_mul_of_nonneg_left hle hx0]⟩

/-- A byte that such a wrap has is one of a pixel of the row, no further right. -/
theorem wrapOffset_byte (h : t.Admitted) (hl : t.Interleaved) {n y : ℤ} {x j : Nat}
    (hp : t.Has ⟨n, y, x, 0⟩) (hs : size ≤ t.pixelSize) (hj : j < size) :
    t.Has ⟨n, y, ((x * size + j) / t.pixelSize : Nat), 0⟩ ∧
      wrapOffset t size n y x + (j : ℤ) =
        t.offset ⟨n, y, ((x * size + j) / t.pixelSize : Nat), 0⟩ +
          (((x * size + j) % t.pixelSize : Nat) : ℤ) := by
  obtain ⟨hn, hy, hx, hc⟩ := hp
  have hpx := h.pixelSize_pos
  constructor
  · have hlt : x * size + j < (x + 1) * t.pixelSize := by
      calc x * size + j < (x + 1) * size := by rw [Nat.add_one_mul]; omega
        _ ≤ (x + 1) * t.pixelSize := Nat.mul_le_mul_left _ hs
    have hle := Nat.lt_succ_iff.1 ((Nat.div_lt_iff_lt_mul hpx).2 hlt)
    exact ⟨hn, hy, ⟨Int.natCast_nonneg _, lt_of_le_of_lt (Int.ofNat_le.2 hle) hx.2⟩, hc⟩
  · have hdiv : (((x * size + j) / t.pixelSize : Nat) : ℤ) * t.pixelSize +
        (((x * size + j) % t.pixelSize : Nat) : ℤ) = x * size + j := by
      exact_mod_cast Nat.div_add_mod' (x * size + j) t.pixelSize
    rw [offset_pixel h hl, wrapOffset, wrapOffset]
    linarith

/-- An offset below 2 GiB is kept. -/
theorem bmod_of_near {z : ℤ} (h0 : 0 ≤ z) (h : z < 2 ^ 31) : z.bmod (2 ^ 32) = z :=
  Wrapping.bmod_of_fits32 ⟨by omega, h⟩

end

section
variable {inData outData : ImageTensor} {window : RectI} {gridX gridY gridZ bsX bsY : Nat}

/-- The type of the input has its channels. -/
def kernelSize (inData : ImageTensor) : Nat :=
  inData.numChannels.toInt.toNat * dataSize inData.dataType

theorem kernelSize_le (h : inData.Admitted) : kernelSize inData ≤ inData.pixelSize :=
  Nat.mul_le_mul_left _ (Nat.le_mul_of_pos_left _ h.dtypeChannels.1)

theorem kernelSize_eq (hd : inData.dtypeChannels = 1) : kernelSize inData = inData.pixelSize := by
  rw [kernelSize, ImageTensor.pixelSize, ImageTensor.elemSize, hd, Nat.one_mul]

theorem pixelSize_eq (htype : sameType inData outData)
    (hc : inData.numChannels = outData.numChannels) : outData.pixelSize = inData.pixelSize := by
  rw [ImageTensor.pixelSize, ImageTensor.pixelSize, ImageTensor.elemSize, ImageTensor.elemSize, hc,
    htype.1, htype.2]

/-- The pixels of a sound window are in the tensors, near their base pointers. -/
theorem Sound.source {threadsX threadsY : Nat} (hs : Sound inData outData window threadsX threadsY)
    (hin : inData.Admitted) {n y x : ℤ} (h : InWindow inData outData window n y x) :
    inData.Has ⟨n, y + window.y.toInt, x + window.x.toInt, 0⟩ ∧
      inData.offset ⟨n, y + window.y.toInt, x + window.x.toInt, 0⟩ < 2 ^ 31 := by
  obtain ⟨⟨hn0, hn⟩, ⟨hy0, hy⟩, hx0, hx⟩ := h
  rw [← hs.samples, or_self] at hn
  obtain ⟨htop, hbottom⟩ := hs.rows
  obtain ⟨hleft, hright⟩ := hs.cols
  have hc : (0 : ℤ) ≤ 0 ∧ 0 < inData.numChannels.toInt := ⟨le_rfl, hin.pos.2.2.2⟩
  have hhas : inData.Has ⟨n, y + window.y.toInt, x + window.x.toInt, 0⟩ :=
    ⟨⟨hn0, hn⟩, ⟨by simp only; omega, by simp only; omega⟩,
      ⟨by simp only; omega, by simp only; omega⟩, hc⟩
  have hlast : inData.Has ⟨inData.numSamples.toInt - 1,
      window.y.toInt + window.height.toInt - 1, window.x.toInt + window.width.toInt - 1, 0⟩ :=
    ⟨⟨by simp only; omega, by simp only; omega⟩, ⟨by simp only; omega, by simp only; omega⟩,
      ⟨by simp only; omega, by simp only; omega⟩, hc⟩
  refine ⟨hhas, lt_of_le_of_lt (hin.offset_mono hhas hlast ?_ ?_ ?_ le_rfl) hs.near⟩
  all_goals
    simp only
    omega

theorem Sound.dest {threadsX threadsY : Nat} (hs : Sound inData outData window threadsX threadsY)
    (hout : outData.Admitted) {n y x : ℤ} (h : InWindow inData outData window n y x) :
    outData.Has ⟨n, y, x, 0⟩ ∧ outData.offset ⟨n, y, x, 0⟩ < 2 ^ 31 := by
  obtain ⟨⟨hn0, hn⟩, ⟨hy0, hy⟩, hx0, hx⟩ := h
  rw [hs.samples, or_self] at hn
  have hrows := hs.outRows
  have hcols := hs.outCols
  have hnear := hs.outNear
  rw [hs.samples] at hnear
  have hc : (0 : ℤ) ≤ 0 ∧ 0 < outData.numChannels.toInt := ⟨le_rfl, hout.pos.2.2.2⟩
  have hhas : outData.Has ⟨n, y, x, 0⟩ :=
    ⟨⟨hn0, hn⟩, ⟨hy0, hy.trans_le hrows⟩, ⟨hx0, hx.trans_le hcols⟩, hc⟩
  have hlast : outData.Has ⟨outData.numSamples.toInt - 1, window.height.toInt - 1,
      window.width.toInt - 1, 0⟩ :=
    ⟨⟨by simp only; omega, by simp only; omega⟩, ⟨by simp only; omega, by simp only; omega⟩,
      ⟨by simp only; omega, by simp only; omega⟩, hc⟩
  refine ⟨hhas, lt_of_le_of_lt (hout.offset_mono hhas hlast ?_ ?_ ?_ le_rfl) hnear⟩
  all_goals
    simp only
    omega

/-- A sound launch copies the pixels of the window. -/
theorem Sound.mem_copies_iff (hs : Sound inData outData window (gridX * bsX) (gridY * bsY))
    (hin : inData.Admitted) (hout : outData.Admitted) (hil : inData.Interleaved)
    (hol : outData.Interleaved) (htype : sameType inData outData)
    (hX : gridX * bsX ≤ 2 ^ 31) (hY : gridY * bsY ≤ 2 ^ 31)
    (hZ : (gridZ : ℤ) = inData.numSamples.toInt) {c : ℤ × ℤ} :
    c ∈ copies inData outData (kernelSize inData) gridX gridY gridZ bsX bsY window ↔
      ∃ n y x j : Nat, InWindow inData outData window n y x ∧ j < inData.pixelSize ∧
        c = (outData.offset ⟨n, y, x, 0⟩ + (j : ℤ),
          inData.offset ⟨n, y + window.y.toInt, x + window.x.toInt, 0⟩ + (j : ℤ)) := by
  rw [mem_copies hX hY, kernelSize_eq hs.dtype]
  refine exists_congr fun n => exists_congr fun y => exists_congr fun x => exists_congr fun j => ?_
  obtain ⟨hcx, hcy⟩ := hs.covered
  have hsize := pixelSize_eq htype hs.channels
  have hkept : InWindow inData outData window n y x →
      (wrapOffset outData inData.pixelSize n y x).bmod (2 ^ 32) = outData.offset ⟨n, y, x, 0⟩ ∧
        (wrapOffset inData inData.pixelSize n (y + window.y.toInt)
          (x + window.x.toInt)).bmod (2 ^ 32) =
            inData.offset ⟨n, y + window.y.toInt, x + window.x.toInt, 0⟩ := by
    intro h
    obtain ⟨hsrc, hnear⟩ := hs.source hin h
    obtain ⟨hdst, houtNear⟩ := hs.dest hout h
    rw [← offset_pixel hin hil, ← hsize, ← offset_pixel hout hol,
      bmod_of_near (hin.offset_nonneg hsrc) hnear,
      bmod_of_near (hout.offset_nonneg hdst) houtNear]
    exact ⟨rfl, rfl⟩
  constructor
  · rintro ⟨hn, ⟨-, hy⟩, ⟨-, hx⟩, hj, rfl⟩
    have h : InWindow inData outData window n y x :=
      ⟨⟨Int.natCast_nonneg _, .inl (by omega)⟩, ⟨Int.natCast_nonneg _, hy⟩,
        Int.natCast_nonneg _, hx⟩
    rw [(hkept h).1, (hkept h).2]
    exact ⟨h, hj, rfl⟩
  · rintro ⟨h, hj, rfl⟩
    have hn : (n : ℤ) < inData.numSamples.toInt := by
      have := h.1.2
      rwa [← hs.samples, or_self] at this
    have hy := h.2.1.2
    have hx := h.2.2.2
    rw [(hkept h).1, (hkept h).2]
    exact ⟨by omega, ⟨by omega, hy⟩, ⟨by omega, hx⟩, hj, rfl⟩

/-- **A sound launch crops.** -/
theorem Sound.copied (hs : Sound inData outData window (gridX * bsX) (gridY * bsY))
    (hin : inData.Admitted) (hout : outData.Admitted) (hil : inData.Interleaved)
    (hol : outData.Interleaved) (htype : sameType inData outData)
    (hX : gridX * bsX ≤ 2 ^ 31) (hY : gridY * bsY ≤ 2 ^ 31)
    (hZ : (gridZ : ℤ) = inData.numSamples.toInt) :
    Copied inData outData window
      (copies inData outData (kernelSize inData) gridX gridY gridZ bsX bsY window) := by
  have hsize := pixelSize_eq htype hs.channels
  refine ⟨fun n y x h => (hs.source hin h).1, fun n y x h => (hs.dest hout h).1, ?_, ?_⟩
  · intro m d d' hl n y x h
    rw [ImageTensor.pixel, ImageTensor.pixel, hsize]
    refine List.map_inj_left.2 fun j hj => ?_
    rw [List.mem_range] at hj
    refine hl.copied ?_ ?_
    · obtain ⟨n, rfl⟩ := Int.eq_ofNat_of_zero_le h.1.1
      obtain ⟨y, rfl⟩ := Int.eq_ofNat_of_zero_le h.2.1.1
      obtain ⟨x, rfl⟩ := Int.eq_ofNat_of_zero_le h.2.2.1
      exact ⟨_, (hs.mem_copies_iff hin hout hil hol htype hX hY hZ).2 ⟨n, y, x, j, h, hj, rfl⟩, rfl⟩
    · intro c hc hcb
      obtain ⟨n', y', x', k, h', hk, rfl⟩ :=
        (hs.mem_copies_iff hin hout hil hol htype hX hY hZ).1 hc
      obtain ⟨⟨rfl, rfl, rfl⟩, rfl⟩ := hout.pixel_inj hol (hs.dest hout h').1 (hs.dest hout h).1
        (hk.trans_eq hsize.symm) (hj.trans_eq hsize.symm) hcb
      rfl
  · intro m d d' hl n y x hp hnot
    refine List.map_inj_left.2 fun j hj => hl.kept fun c hc hcb => hnot ?_
    rw [List.mem_range] at hj
    obtain ⟨n', y', x', k, h', hk, rfl⟩ :=
      (hs.mem_copies_iff hin hout hil hol htype hX hY hZ).1 hc
    obtain ⟨⟨rfl, rfl, rfl⟩, -⟩ := hout.pixel_inj hol (hs.dest hout h').1 hp
      (hk.trans_eq hsize.symm) hj hcb
    exact ⟨h'.2.1.2, h'.2.2.2⟩

/-- A launch that crops has a copy of every byte of the window. -/
theorem Copied.copy_mem {cs : List (ℤ × ℤ)} (h : Copied inData outData window cs)
    {n y x : ℤ} (hw : InWindow inData outData window n y x) {j : Nat} (hj : j < inData.pixelSize)
    (hsize : outData.pixelSize = inData.pixelSize) :
    (outData.offset ⟨n, y, x, 0⟩ + (j : ℤ),
      inData.offset ⟨n, y + window.y.toInt, x + window.x.toInt, 0⟩ + (j : ℤ)) ∈ cs := by
  refine mem_of_copied (V := UInt8) fun m d d' hl => ?_
  have heq := h.copied m d d' hl n y x hw
  rw [ImageTensor.pixel, ImageTensor.pixel, hsize] at heq
  exact List.map_inj_left.1 heq j (List.mem_range.2 hj)

/-- **A launch that crops is sound.** -/
theorem Copied.sound
    (h : Copied inData outData window
      (copies inData outData (kernelSize inData) gridX gridY gridZ bsX bsY window))
    (hin : inData.Admitted) (hout : outData.Admitted) (hol : outData.Interleaved)
    (htype : sameType inData outData) (hX : gridX * bsX ≤ 2 ^ 31) (hY : gridY * bsY ≤ 2 ^ 31)
    (hZ : (gridZ : ℤ) = inData.numSamples.toInt ∨ (gridZ : ℤ) = outData.numSamples.toInt)
    (hw : 0 < window.width.toInt) (hh : 0 < window.height.toInt) :
    Sound inData outData window (gridX * bsX) (gridY * bsY) := by
  have hinN := hin.pos.1
  have houtN := hout.pos.1
  -- the window's first and last pixels are in the tensors
  have hwindow : ∀ n y x : ℤ, 0 ≤ n → n < inData.numSamples.toInt → 0 ≤ y →
      y < window.height.toInt → 0 ≤ x → x < window.width.toInt →
      InWindow inData outData window n y x := fun n y x hn hn' hy hy' hx hx' =>
    ⟨⟨hn, .inl hn'⟩, ⟨hy, hy'⟩, hx, hx'⟩
  have hfirst := hwindow 0 0 0 le_rfl hinN le_rfl hh le_rfl hw
  have hlast := hwindow (inData.numSamples.toInt - 1) (window.height.toInt - 1)
    (window.width.toInt - 1) (by omega) (by omega) (by omega) (by omega) (by omega) (by omega)
  obtain ⟨-, ⟨htop, -⟩, ⟨hleft, -⟩, -⟩ := h.source _ _ _ hfirst
  obtain ⟨-, ⟨-, hbottom⟩, ⟨-, hright⟩, -⟩ := h.source _ _ _ hlast
  obtain ⟨-, ⟨-, hrows⟩, ⟨-, hcols⟩, -⟩ := h.dest _ _ _ hlast
  simp only at htop hleft hbottom hright hrows hcols
  have hsamples : inData.numSamples = outData.numSamples := by
    refine Int32.toInt_inj.1 (le_antisymm ?_ ?_)
    · by_contra hlt
      have := (h.dest outData.numSamples.toInt 0 0
        (hwindow _ _ _ houtN.le (not_le.1 hlt) le_rfl hh le_rfl hw)).1.2
      exact lt_irrefl _ this
    · by_contra hlt
      have := (h.source inData.numSamples.toInt 0 0
        ⟨⟨hinN.le, .inr (not_le.1 hlt)⟩, ⟨le_rfl, hh⟩, le_rfl, hw⟩).1.2
      exact lt_irrefl _ this
  have hZ' : (gridZ : ℤ) = inData.numSamples.toInt := by
    rwa [← hsamples, or_self] at hZ
  have hsize : outData.pixelSize = inData.pixelSize := by
    obtain ⟨d', hl⟩ := exists_leaves
      (copies inData outData (kernelSize inData) gridX gridY gridZ bsX bsY window)
      (fun _ => (0 : UInt8)) fun _ => 0
    simpa [ImageTensor.pixel] using congrArg List.length (h.copied _ _ _ hl _ _ _ hfirst)
  have hchannels : inData.numChannels = outData.numChannels := by
    have helem : outData.elemSize = inData.elemSize := by
      rw [ImageTensor.elemSize, ImageTensor.elemSize, htype.1, htype.2]
    rw [ImageTensor.pixelSize, ImageTensor.pixelSize, helem] at hsize
    have hnat := Nat.eq_of_mul_eq_mul_right hin.elemSize_pos hsize
    have hpos := hin.pos.2.2.2
    have hpos' := hout.pos.2.2.2
    exact Int32.toInt_inj.1 (by omega)
  have hpx := hin.pixelSize_pos
  have hle : kernelSize inData ≤ inData.pixelSize := kernelSize_le hin
  -- no copy begins further than 2 GiB behind a base pointer
  have hreach : outData.offset ⟨inData.numSamples.toInt - 1, window.height.toInt - 1,
        window.width.toInt - 1, 0⟩ < 2 ^ 31 ∧
      inData.offset ⟨inData.numSamples.toInt - 1, window.height.toInt - 1 + window.y.toInt,
        window.width.toInt - 1 + window.x.toInt, 0⟩ < 2 ^ 31 := by
    have hmem := h.copy_mem hlast (j := inData.pixelSize - 1) (by omega) hsize
    obtain ⟨n, y, x, j, -, -, -, hj, he⟩ := (mem_copies hX hY).1 hmem
    rw [Prod.mk.injEq] at he
    have hfit := (Wrapping.fits32_bmod (wrapOffset outData (kernelSize inData) n y x)).2
    have hfit' := (Wrapping.fits32_bmod (wrapOffset inData (kernelSize inData) n
      (y + window.y.toInt) (x + window.x.toInt))).2
    omega
  obtain ⟨houtNear, hnear⟩ := hreach
  -- so the copies are where the wrap has their pixels
  have hplace : ∀ n y x : Nat, InWindow inData outData window n y x →
      outData.Has ⟨n, y, x, 0⟩ ∧ (wrapOffset outData (kernelSize inData) n y x).bmod (2 ^ 32) =
        wrapOffset outData (kernelSize inData) n y x := by
    intro n y x hwin
    have hhas := h.dest _ _ _ hwin
    have hn := hwin.1.2
    rw [← hsamples, or_self] at hn
    have hend := h.dest _ _ _ hlast
    have hmono := hout.offset_mono hhas hend (by simp only; omega)
      (Int.le_sub_one_of_lt hwin.2.1.2) (Int.le_sub_one_of_lt hwin.2.2.2) le_rfl
    obtain ⟨h0, hwle⟩ := wrapOffset_le hout hol hhas (hle.trans_eq hsize.symm)
    exact ⟨hhas, bmod_of_near h0 ((hwle.trans hmono).trans_lt houtNear)⟩
  -- the thread that writes the last byte of the window in sample 0
  obtain ⟨hdtype, hcovered⟩ : kernelSize inData = inData.pixelSize ∧
      (window.width.toInt ≤ (gridX * bsX : Nat) ∧ window.height.toInt ≤ (gridY * bsY : Nat)) := by
    have hcorner := hwindow 0 (window.height.toInt - 1) (window.width.toInt - 1) le_rfl hinN
      (by omega) (by omega) (by omega) (by omega)
    have hmem := h.copy_mem hcorner (j := inData.pixelSize - 1) (by omega) hsize
    obtain ⟨n, y, x, j, hn, ⟨hyg, hy⟩, ⟨hxg, hx⟩, hj, he⟩ := (Crop.mem_copies hX hY).1 hmem
    obtain ⟨hhas, hbmod⟩ := hplace n y x
      (hwindow _ _ _ (Int.natCast_nonneg _) (by omega) (Int.natCast_nonneg _) hy
        (Int.natCast_nonneg _) hx)
    have hwrites := (Prod.mk.inj he).1
    obtain ⟨hhas', hbyte⟩ := wrapOffset_byte hout hol hhas (hle.trans_eq hsize.symm) hj
    rw [hbmod, hbyte] at hwrites
    obtain ⟨⟨-, hrow, hcol⟩, hlow⟩ := hout.pixel_inj hol (h.dest _ _ _ hcorner) hhas'
      (by omega) (Nat.mod_lt _ hout.pixelSize_pos) hwrites
    rw [hsize] at hcol hlow
    have hdiv := Nat.div_add_mod' (x * kernelSize inData + j) inData.pixelSize
    rw [← hlow] at hdiv
    have hend : x * kernelSize inData + j < (x + 1) * kernelSize inData := by
      rw [Nat.add_one_mul]
      omega
    obtain ⟨q, hq⟩ : ∃ q : Nat, q = (x * kernelSize inData + j) / inData.pixelSize := ⟨_, rfl⟩
    rw [← hq] at hcol hdiv
    have hfull : (q + 1) * inData.pixelSize ≤ (x + 1) * kernelSize inData := by
      rw [Nat.add_one_mul]
      omega
    have hqx : q = x := by
      have := Nat.le_of_mul_le_mul_right (hfull.trans (Nat.mul_le_mul_left _ hle)) hpx
      omega
    subst hqx
    exact ⟨le_antisymm hle (Nat.le_of_mul_le_mul_left hfull (Nat.succ_pos q)), by omega, by omega⟩
  have hone : inData.dtypeChannels = 1 := by
    have hpos : 0 < inData.numChannels.toInt.toNat := by
      have := hin.pos.2.2.2
      omega
    have hdata : 0 < dataSize inData.dataType := by
      unfold dataSize
      cases inData.dataType <;> decide
    refine Nat.eq_of_mul_eq_mul_right hdata ?_
    rw [Nat.one_mul]
    exact (Nat.eq_of_mul_eq_mul_left hpos hdtype).symm
  refine ⟨⟨hchannels, hone, ?_, houtNear, hcovered⟩, hsamples, ⟨by omega, by omega⟩,
    ⟨by omega, by omega⟩, by omega, by omega⟩
  rw [show window.y.toInt + window.height.toInt - 1 = window.height.toInt - 1 + window.y.toInt by
    ring, show window.x.toInt + window.width.toInt - 1 = window.width.toInt - 1 + window.x.toInt by
    ring]
  exact hnear

/-- **When a launch crops.** -/
theorem copied_iff (hin : inData.Admitted) (hout : outData.Admitted) (hil : inData.Interleaved)
    (hol : outData.Interleaved) (htype : sameType inData outData)
    (hX : gridX * bsX ≤ 2 ^ 31) (hY : gridY * bsY ≤ 2 ^ 31)
    (hZ : (gridZ : ℤ) = inData.numSamples.toInt ∨ (gridZ : ℤ) = outData.numSamples.toInt)
    (hw : 0 < window.width.toInt) (hh : 0 < window.height.toInt) :
    Copied inData outData window
        (copies inData outData (kernelSize inData) gridX gridY gridZ bsX bsY window) ↔
      Sound inData outData window (gridX * bsX) (gridY * bsY) := by
  constructor
  · intro h
    exact h.sound hin hout hol htype hX hY hZ hw hh
  · intro hs
    refine hs.copied hin hout hil hol htype hX hY ?_
    rwa [← hs.samples, or_self] at hZ

end

/-! ## The operators -/

section
variable {launchable : Nat × Nat × Nat → Bool} {inData outData : ImageTensor} {cs : List (ℤ × ℤ)}

/-- The threads of the grids of an operator, along a dimension. -/
def threads (extent : Int32) (bs : Nat) : Nat := divUp extent.toInt.toNat bs * bs

theorem threads_le (extent : Int32) {k : Nat} (hk : k ≤ 24) : threads extent (2 ^ k) ≤ 2 ^ 31 := by
  have hlt : extent.toInt.toNat < 2 ^ (31 - k + k) := by
    rw [Nat.sub_add_cancel (hk.trans (by norm_num))]
    have := extent.toInt_lt
    omega
  have hle := divUp_two_pow_mul_le hlt hk
  rwa [Nat.sub_add_cancel (hk.trans (by norm_num))] at hle

theorem launch_success {bsX bsY : Nat} {window : RectI} {gridZ : Int32}
    (h : launch launchable inData outData bsX bsY window gridZ = .success cs) :
    cs = copies inData outData (kernelSize inData) (divUp window.width.toInt.toNat bsX)
      (divUp window.height.toInt.toNat bsY) gridZ.toInt.toNat bsX bsY window := by
  unfold launch at h
  dsimp only at h
  split_ifs at h
  exact (Outcome.success.inj h).symm

/-- **When the launch of an operator crops.** -/
theorem launch_copied_iff (hin : inData.Admitted) (hout : outData.Admitted)
    (hil : inData.Interleaved) (hol : outData.Interleaved) (htype : sameType inData outData)
    {kX kY : Nat} (hkX : kX ≤ 24) (hkY : kY ≤ 24) {window : RectI} {gridZ : Int32}
    (hZ : gridZ = inData.numSamples ∨ gridZ = outData.numSamples)
    (hw : 0 < window.width) (hh : 0 < window.height)
    (h : launch launchable inData outData (2 ^ kX) (2 ^ kY) window gridZ = .success cs) :
    Copied inData outData window cs ↔
      Sound inData outData window (threads window.width (2 ^ kX))
        (threads window.height (2 ^ kY)) := by
  rw [launch_success h]
  refine copied_iff hin hout hil hol htype (threads_le _ hkX) (threads_le _ hkY) ?_
    (Int32.lt_iff_toInt_lt.1 hw) (Int32.lt_iff_toInt_lt.1 hh)
  refine hZ.imp ?_ ?_
  · rintro rfl
    exact Int.toNat_of_nonneg hin.pos.1.le
  · rintro rfl
    exact Int.toNat_of_nonneg hout.pos.1.le

/-- `CenterCrop`'s window. -/
def centerWindow (inData : ImageTensor) (cropRows cropColumns : Int32) : RectI :=
  ⟨(inData.numCols - cropColumns) / 2, (inData.numRows - cropRows) / 2, cropColumns, cropRows⟩

theorem centerCropInfer_success {cropRows cropColumns : Int32}
    (h : centerCropInfer launchable inData outData cropRows cropColumns = .success cs) :
    (sameType inData outData ∧ inData.Interleaved ∧ outData.Interleaved) ∧
      (inData.numSamples = outData.numSamples ∧ cropRows ≤ outData.numRows ∧
        cropColumns ≤ outData.numCols) ∧
      launch launchable inData outData (2 ^ 5) (2 ^ 3) (centerWindow inData cropRows cropColumns)
        inData.numSamples = .success cs := by
  unfold centerCropInfer at h
  split_ifs at h with htype hlayout hchannels hshape
  obtain ⟨hil, hol⟩ := not_or.1 hlayout
  obtain ⟨hsamples, hsizes⟩ := not_or.1 hshape
  obtain ⟨hrows, hcols⟩ := not_or.1 hsizes
  exact ⟨⟨htype, not_not.1 hil, not_not.1 hol⟩,
    ⟨not_not.1 hsamples, Int32.not_lt.1 hrows, Int32.not_lt.1 hcols⟩, h⟩

theorem customCropInfer_success {roi : RectI}
    (h : customCropInfer launchable inData outData roi = .success cs) :
    (sameType inData outData ∧ inData.Interleaved ∧ outData.Interleaved) ∧
      (roi.height ≤ outData.numRows ∧ roi.width ≤ outData.numCols) ∧
      ((0 ≤ roi.x ∧ roi.x + roi.width - 1 < inData.numCols) ∧
        0 ≤ roi.y ∧ roi.y + roi.height - 1 < inData.numRows) ∧
      launch launchable inData outData (2 ^ 4) (2 ^ 4) roi outData.numSamples = .success cs := by
  unfold customCropInfer customCrop at h
  dsimp only at h
  split_ifs at h with hlayout htype hchannels hout hroi
  obtain ⟨hil, hol⟩ := not_or.1 hlayout
  obtain ⟨hrows, hcols⟩ := not_or.1 hout
  simp only [not_or, Int32.not_lt, Int32.not_le] at hroi
  obtain ⟨hx, hy, hendX, hendY⟩ := hroi
  exact ⟨⟨htype, not_not.1 hil, not_not.1 hol⟩,
    ⟨Int32.not_lt.1 hrows, Int32.not_lt.1 hcols⟩, ⟨⟨hx, hendX⟩, hy, hendY⟩, h⟩

end

/-- A centred interval is inside when it is no longer. -/
theorem centred_iff {extent crop : Int32} (he : 0 < extent.toInt) (hc : 0 < crop.toInt) :
    0 ≤ ((extent - crop) / 2).toInt ∧ ((extent - crop) / 2).toInt + crop.toInt ≤ extent.toInt ↔
      crop ≤ extent := by
  have hel := extent.toInt_lt
  have hcl := crop.toInt_lt
  have hsub : (extent - crop).toInt = extent.toInt - crop.toInt := by
    rw [Int32.toInt_sub]
    exact Int.bmod_eq_of_le (by omega) (by omega)
  have hdiv : ((extent - crop) / 2).toInt = (extent.toInt - crop.toInt).tdiv 2 := by
    rw [Int32.toInt_div, hsub, show (2 : Int32).toInt = 2 from rfl]
    rcases le_total 0 (extent.toInt - crop.toInt) with h | h
    · rw [Int.tdiv_eq_ediv_of_nonneg h]
      exact Int.bmod_eq_of_le (by omega) (by omega)
    · rw [show extent.toInt - crop.toInt = -(crop.toInt - extent.toInt) by ring, Int.neg_tdiv,
        Int.tdiv_eq_ediv_of_nonneg (by omega)]
      exact Int.bmod_eq_of_le (by omega) (by omega)
  rw [hdiv, Int32.le_iff_toInt_le]
  rcases le_total 0 (extent.toInt - crop.toInt) with h | h
  · rw [Int.tdiv_eq_ediv_of_nonneg h]
    omega
  · rw [show extent.toInt - crop.toInt = -(crop.toInt - extent.toInt) by ring, Int.neg_tdiv,
      Int.tdiv_eq_ediv_of_nonneg (by omega)]
    omega

/-- An end that is kept in 32 bits is inside when it does not wrap. -/
theorem end_iff {extent start size : Int32} (hstart : 0 ≤ start.toInt) (hsize : 0 < size.toInt)
    (h : start + size - 1 < extent) :
    start.toInt + size.toInt ≤ extent.toInt ↔ start.toInt + size.toInt < 2 ^ 31 := by
  have hel := extent.toInt_lt
  constructor
  · intro hle
    omega
  · intro hlt
    rw [Int32.lt_iff_toInt_lt, Int32.toInt_sub, Int32.toInt_add, show (1 : Int32).toInt = 1 from rfl,
      Int.bmod_eq_of_le (n := start.toInt + size.toInt) (by omega) (by omega),
      Int.bmod_eq_of_le (by omega) (by omega)] at h
    omega

/-- A square of bytes. -/
def square (side : Int32) : ImageTensor where
  layout := .hwc
  dataType := .cv8U
  dtypeChannels := 1
  numSamples := 1
  numRows := side
  numCols := side
  numChannels := 1
  sampleStride := 0
  rowStride := side.toInt64
  colStride := 1
  chStride := 1

theorem square_admitted {side : Int32} (h : 0 < side.toInt) : (square side).Admitted where
  dtypeChannels := ⟨le_rfl, by norm_num [square]⟩
  pos := ⟨Int.zero_lt_one, h, h, Int.zero_lt_one⟩
  single := fun _ => ⟨rfl, rfl⟩
  packed := ⟨rfl, rfl⟩
  spans := by
    refine ⟨_, .one 0 (.cons side.toInt ?_ (.cons side.toInt ?_ (.one 1 .nil)))⟩
    · simp [square]
    · simp [square, ImageTensor.elemSize, dataSize]

end Crop

end Cvcuda
