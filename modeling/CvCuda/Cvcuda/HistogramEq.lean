import CvCuda.Lib.FloatRound
import CvCuda.Lib.Kernel
import CvCuda.Cvcuda.BoxBlur

/-! # Histogram equalisation

`HistogramEq` of `priv_musa/legacy/histogram_eq.mu`, `HistogramEqVarShape` of
`histogram_eq_var_shape.mu` and the operator over the two. Each of the two has a histogram of its
own in device memory, which it keeps from one call to the next.

* Device memory is a function of the address, and holds anything at first.
* Threads of a block are in step between barriers. Counts are taken not to overflow.
* In double precision exponents have no bound, and `0.0 / 0` counts as 0.
-/

namespace Cvcuda

open Kernel FloatRound

/-- `divUp` of `CvCudaUtils.muh`, by way of `float`. -/
def divUp (a b : Nat) : Nat := ⌈rn 24 (rn 24 a / rn 24 b)⌉.toNat

namespace HistogramEq

open BoxBlur (ErrorCode DataFormat)

/-! ## Data -/

/-- `DataType`. -/
inductive DataType where
  | cv8U | cv8S | cv16U | cv16S | cv32S | cv32F | cv64F | cv16F
  deriving DecidableEq

/-- `Size2D`: width and height. -/
abbrev Size2D := Nat × Nat

/-- The 8-bit channels of an image, by column, row and channel. -/
abbrev Pixels := Nat × Nat × Nat → BitVec 8

def blank : Pixels := fun _ => 0#8

structure Image where
  size : Size2D
  pixels : Pixels

/-- `uniqueFormat()`, with what the helpers make of it. -/
structure ImageFormat where
  dataFormat : DataFormat
  dataType : DataType
  numChannels : Nat
  deriving DecidableEq

/-- `ImageBatchVarShapeDataStridedCuda`. -/
structure ImageBatch where
  uniqueFormat : Option ImageFormat
  images : List Image

/-- `maxSize()`. -/
def ImageBatch.maxSize (b : ImageBatch) : Size2D :=
  (b.images.foldl (fun m img => max m img.size.1) 0, b.images.foldl (fun m img => max m img.size.2) 0)

/-- The size of one of the images. -/
def ImageBatch.size (b : ImageBatch) (batchIdx : Nat) : Size2D :=
  (b.images[batchIdx]?.map Image.size).getD (0, 0)

/-- `TensorDataStridedCuda` of images. -/
structure Tensor where
  layout : DataFormat
  dtype : DataType
  numChannels : Nat
  size : Size2D
  sampleStride : ℤ
  samples : List Pixels

/-! ## Kernels -/

/-- `SaturateCast<int>` of a `double`. -/
def saturateCastInt (u : ℚ) : ℤ := max (-2 ^ 31) (min (2 ^ 31 - 1) (roundEven u))

/-- `SaturateCast<uchar>` of an `int`. -/
def saturateCastUchar (u : ℤ) : BitVec 8 := .ofInt 8 (max 0 (min 255 u))

/-- Where the histogram of an image begins. -/
def histoRow (channels batchIdx : Nat) : Nat := batchIdx * (256 * channels)

/-- What a block of `hist_kernel` counts in its `shist`. -/
def sharedHist (src : Pixels) (size : Size2D) (channels : Nat) (threads : List (Nat × Nat)) :
    Nat → ℤ :=
  threads.foldl (fun shist t =>
    if t.1 < size.1 ∧ t.2 < size.2 then
      (List.range channels).foldl (fun shist ch =>
        atomicAdd shist ((src (t.1, t.2, ch)).toNat + 256 * ch) 1) shist
    else shist) fun _ => 0

/-- A block of `hist_kernel`. -/
def histBlock (src : Pixels) (size : Size2D) (channels row : Nat) (threads : List (Nat × Nat))
    (histogram : Nat → ℤ) : Nat → ℤ :=
  (List.range (256 * channels)).foldl (fun histogram localId =>
    if 0 < sharedHist src size channels threads localId then
      atomicAdd histogram (row + localId) (sharedHist src size channels threads localId)
    else histogram) histogram

/-- The block size of `hist_kernel`. -/
def histBlockSize : (channels : Nat) → Nat × Nat
  | 1 => (16, 16)
  | 2 => (32, 16)
  | 3 => (32, 24)
  | _ => (32, 32)

/-- `hist_kernel`, launched for images none of which is larger than `maxSize`. -/
def histKernel (maxSize : Size2D) (src : List Pixels) (size : Nat → Size2D) (channels : Nat)
    (histogram : Nat → ℤ) : Nat → ℤ :=
  let bs := histBlockSize channels
  let grid := blocks (divUp maxSize.1 bs.1) (divUp maxSize.2 bs.2) bs.1 bs.2
  (List.range src.length).foldl (fun histogram z =>
    grid.foldl (fun histogram threads =>
      histBlock (src.getD z blank) (size z) channels (histoRow channels z) threads histogram)
      histogram) histogram

/-- The min-reduction over the threads of a block. -/
def minReduce (reduceBuf : Nat → Nat) : Nat :=
  [128, 64, 32, 16, 8, 4, 2, 1].foldl (fun buf s tid =>
    if tid < s then min (buf tid) (buf (tid + s)) else buf tid) reduceBuf 0

/-- The prefix sum over the threads of a block, from one half of `temp` to the other. -/
def prefixSum (temp : Nat → ℤ) : Nat → ℤ :=
  [1, 2, 4, 8, 16, 32, 64, 128].foldl (fun temp offset tid =>
    if offset ≤ tid then temp tid + temp (tid - offset) else temp tid) temp

/-- What a block of `prefix_sum_with_norm_kernel` makes of 256 bins. -/
def normalizedCdf (totalPixels : ℤ) (temp : Nat → ℤ) : Nat → ℤ :=
  let minIdx := minReduce fun tid => if temp tid ≠ 0 then tid else 255
  if temp minIdx = totalPixels then fun _ => minIdx
  else
    let temp := prefixSum (Function.update temp minIdx 0)
    fun tid => saturateCastInt (rn 53 (rn 53 (temp tid / temp 255) * 255))

/-- A block of `prefix_sum_with_norm_kernel`, for the bins from `base` on. -/
def prefixBlock (totalPixels : ℤ) (base : Nat) (histogram : Nat → ℤ) : Nat → ℤ := fun a =>
  if base ≤ a ∧ a < base + 256 then
    normalizedCdf totalPixels (fun tid => if tid < 256 then histogram (base + tid) else 0)
      (a - base)
  else histogram a

def prefixSumWithNormKernel (size : Nat → Size2D) (batch channels : Nat) (histogram : Nat → ℤ) :
    Nat → ℤ :=
  ((List.range batch).product (List.range channels)).foldl (fun histogram b =>
    prefixBlock ((size b.1).1 * (size b.1).2) (histoRow channels b.1 + 256 * b.2) histogram)
    histogram

/-- The threads of a block of `lookup`, with the distribution in `temp`. -/
def lookupBlock (src : Pixels) (size : Size2D) (channels : Nat) (temp : Nat → ℤ)
    (threads : List (Nat × Nat)) (dst : Pixels) : Pixels :=
  threads.foldl (fun dst t =>
    if t.1 < size.1 ∧ t.2 < size.2 then
      (List.range channels).foldl (fun dst ch => Function.update dst (t.1, t.2, ch)
        (saturateCastUchar (temp ((src (t.1, t.2, ch)).toNat + 256 * ch)))) dst
    else dst) dst

/-- `lookup` for one image. -/
def lookup (maxSize : Size2D) (src : Pixels) (size : Size2D) (channels : Nat) (temp : Nat → ℤ)
    (dst : Pixels) : Pixels :=
  (blocks (divUp maxSize.1 32) (divUp maxSize.2 32) 32 32).foldl (fun dst threads =>
    lookupBlock src size channels temp threads dst) dst

/-- The three launches: what they leave in the histogram, and the output. -/
def launches (maxSize : Size2D) (srcSize dstSize : Nat → Size2D) (channels : Nat)
    (src dst : List Pixels) (histogram : Nat → ℤ) : (Nat → ℤ) × List Pixels :=
  let histogram := histKernel maxSize src srcSize channels histogram
  let histogram := prefixSumWithNormKernel dstSize src.length channels histogram
  (histogram, (List.range src.length).map fun z => lookup maxSize (src.getD z blank) (dstSize z)
    channels (fun i => histogram (histoRow channels z + i)) (dst.getD z blank))

/-! ## `infer` -/

/-- What a call returns, what it leaves in its histogram, and its output. -/
structure Result where
  code : ErrorCode
  histoArray : Nat → ℤ
  out : List Pixels

/-- `infer_histogram`: one size for all. -/
def inferHistogram (src dst : Tensor) (histo : Nat → ℤ) : (Nat → ℤ) × List Pixels :=
  launches src.size (fun _ => src.size) (fun _ => src.size) src.numChannels src.samples dst.samples
    histo

/-- The checks that `HistogramEq::infer` makes before it clears the histogram. -/
def check (inData outData : Tensor) : Option ErrorCode :=
  if inData.layout ≠ outData.layout then some .invalidDataFormat
  else if inData.dtype ≠ outData.dtype then some .invalidDataFormat
  else if inData.layout ∉ [.nhwc, .hwc] then some .invalidDataFormat
  else if inData.dtype ≠ .cv8U then some .invalidDataType
  else if 4 < inData.numChannels ∨ inData.numChannels < 1 then some .invalidDataShape
  else none

/-- `HistogramEq::infer`. -/
def infer (maxBatchSize : Nat) (inData outData : Tensor) (histoArray : Nat → ℤ) : Result :=
  match check inData outData with
  | some code => ⟨code, histoArray, outData.samples⟩
  | none =>
    let cleared := fun a => if a < maxBatchSize * 4 * 256 then 0 else histoArray a
    let srcMaxStride := inData.sampleStride * inData.samples.length
    let dstMaxStride := outData.sampleStride * outData.samples.length
    if max srcMaxStride dstMaxStride ≤ 2 ^ 31 - 1 then
      let (histo, out) := inferHistogram inData outData cleared
      ⟨.success, histo, out⟩
    else ⟨.invalidParameter, cleared, outData.samples⟩

/-- The checks of `HistogramEqVarShape::infer`; without an error, the number of channels. -/
def checkVarShape (inData outData : ImageBatch) : Except ErrorCode Nat :=
  match inData.uniqueFormat, outData.uniqueFormat with
  | none, _ | _, none => .error .invalidDataFormat
  | some input, some output =>
    if input.dataFormat ≠ output.dataFormat then .error .invalidDataFormat
    else if input.dataFormat ∉ [.nhwc, .hwc] then .error .invalidDataFormat
    else if input.dataType ≠ output.dataType then .error .invalidDataType
    else if input.dataType ≠ .cv8U then .error .invalidDataType
    else if 4 < input.numChannels ∨ input.numChannels < 1 then .error .invalidDataShape
    else if inData.images.length ≠ outData.images.length then .error .invalidDataShape
    else .ok input.numChannels

/-- `HistogramEqVarShape::infer`. -/
def inferVarShape (inData outData : ImageBatch) (histoArray : Nat → ℤ) : Result :=
  match checkVarShape inData outData with
  | .error code => ⟨code, histoArray, outData.images.map Image.pixels⟩
  | .ok channels =>
    let (histo, out) := launches inData.maxSize inData.size outData.size channels
      (inData.images.map Image.pixels) (outData.images.map Image.pixels) histoArray
    ⟨.success, histo, out⟩

/-! ## The operator -/

/-- The operator, with the device memory of the two. -/
structure State where
  maxBatchSize : Nat
  legacyOp : Nat → ℤ
  legacyOpVarShape : Nat → ℤ

inductive Call where
  | tensor (inData outData : Tensor)
  | varShape (inData outData : ImageBatch)

/-- `operator()`. -/
def State.call (s : State) : Call → State × Result
  | .tensor inData outData =>
    let r := infer s.maxBatchSize inData outData s.legacyOp
    ({ s with legacyOp := r.histoArray }, r)
  | .varShape inData outData =>
    let r := inferVarShape inData outData s.legacyOpVarShape
    ({ s with legacyOpVarShape := r.histoArray }, r)

/-- The results of calls one after another. -/
def State.run : State → List Call → List Result
  | _, [] => []
  | s, c :: cs => (s.call c).2 :: (s.call c).1.run cs

end HistogramEq

end Cvcuda
