import CvCuda.Nvcv.Planes
import CvCuda.Nvcv.Requirements

/-! # The memory of images

`Image::CalcRequirements`, `Image::AllocateBuffer` and `Image::exportData` of
`nvcv/priv_musa/Image.cpp`, and what they use of `ImageFormat.cpp`, `ColorSpec.cpp` and
`DataType.hpp`.

* A call has no outcome where an `int` overflows, or an assertion fails.
* A row stride is narrowed to an `int`; the offset of a plane is an `int64_t` that wraps, as it is
  compiled.
-/

namespace Nvcv

open Bitfield Outcome

/-- `GetChromaSamples`, horizontal and vertical. -/
def ChromaSubsampling.getChromaSamples : ChromaSubsampling → Int32 × Int32
  | .none => (4, 4)
  | .css422R => (4, 2)
  | .css411R => (4, 1)
  | .css410R => (2, 1)
  | .css422 => (2, 4)
  | .css420 => (2, 2)
  | .css411 => (1, 4)
  | .css410 => (1, 2)

/-- `NVCV_MAKE_DATA_TYPE` of values. -/
def DataType.ofValues (dataKind packing : BitVec 64) : DataType :=
  set dataKind 61 3 ||| set (get packing 4 2 + 1#64) 0 6 ||| set AlphaType.associated.value 6 1 |||
    set MemLayout.pitchLinear.value 12 3 |||
    ImageFormat.colorBits .undefined (ColorSpec.undefined.setWidth 64)
      ChromaSubsampling.none.value |||
    set (ImageFormat.encodePacking packing 2 3 4) 35 9 |||
    ImageFormat.planeBits .zero .zero .zero none

namespace ImageFormat
variable (f : ImageFormat)

/-- `(size * samples + 3) / 4`. -/
def subsampled (size samples : Int32) : Option Int32 := do
  let product ← int32? (size.toInt * samples.toInt)
  let sum ← int32? (product.toInt + 3)
  return sum / 4

def planeSize (imgSize : Size2D) (plane : Nat) : Option Size2D :=
  if 1 ≤ plane ∧ f.css ≠ ChromaSubsampling.none.value then do
    let css ← ChromaSubsampling.ofValue f.css
    let w ← subsampled imgSize.w css.getChromaSamples.1
    let h ← subsampled imgSize.h css.getChromaSamples.2
    return ⟨w, h⟩
  else some imgSize

def planeDataType (plane : Nat) : DataType :=
  let packing := f.planePacking plane
  if packing = Packing.zero.value then 0#64
  else if packing = Packing.value .X8_Y8__X8_Z8 ∨ packing = Packing.value .Y8_X8__Z8_X8 then
    DataType.ofValues f.dataKind (Packing.value .X8_Y8)
  else DataType.ofValues f.dataKind packing

def planePixelStrideBytes (plane : Nat) : Int32 := (f.planeDataType plane).strideBytes

def planeRowAlignment (plane : Nat) : Option Int32 := (f.planeDataType plane).alignment

end ImageFormat

/-- `NVCVImageRequirements`. -/
structure ImageRequirements where
  width : Int32
  height : Int32
  format : ImageFormat
  planeRowStride : Vector Int32 maxPlaneCount
  alignBytes : Int32
  cudaMem : MemRequirements
  deriving DecidableEq

namespace Image

/-- The pitch alignment before the loop over the planes. -/
def rowAlignment (dev : Device) (userRowAlign : Int32) : Call Int32 :=
  if userRowAlign = 0 then ExceptT.mk (some dev.texturePitchAlignment)
  else do
    refuse (¬isPowerOfTwo userRowAlign)
      (.nvcv .invalidArgument
        s!"Invalid pitch alignment of {userRowAlign.toInt}, it must be a power-of-two")
    return userRowAlign

/-- "Pitch alignment must be compatible with each plane's pixel stride": the loop computes a
variable of its own for each plane, and leaves that of the function as it is. -/
def alignPlanes (fmt : ImageFormat) (userRowAlign : Int32) : List Nat → Call Unit
  | [] => return ()
  | p :: ps => do
    let rowAlign ← (if userRowAlign = 0 then some (fmt.planePixelStrideBytes p)
      else fmt.planeRowAlignment p : Option Int32)
    let _ ← lcm rowAlign rowAlign
    alignPlanes fmt userRowAlign ps

/-- The buffer address alignment, before that of the rows. -/
def addressAlignment (dev : Device) (userBaseAlign : Int32) : Call Int32 :=
  if userBaseAlign = 0 then ExceptT.mk (some dev.textureAlignment)
  else do
    refuse (¬isPowerOfTwo userBaseAlign)
      (.nvcv .invalidArgument
        (s!"Invalid buffer address alignment of {userBaseAlign.toInt}" ++
          ", it must be a power-of-two"))
    return userBaseAlign

/-- "Buffer address alignment must be at least the row alignment". -/
def baseAlignment (dev : Device) (rowAlign userBaseAlign : Int32) : Call Int32 := do
  let baseAlign ← addressAlignment dev userBaseAlign
  let alignBytes ← lcm baseAlign rowAlign
  refuse (alignBytes.toInt > 2 ^ maxLog2BlockSize)
    (.nvcv .invalidArgument
      (s!"Alignment requirement of {alignBytes.toInt} is larger than the maximum allowed " ++
        s!"{2 ^ maxLog2BlockSize}"))
  return alignBytes

/-- "Calculate total device memory needed in blocks", for the planes given. -/
def addPlanes (size : Size2D) (fmt : ImageFormat) (rowAlign baseAlign : Int32) :
    List Nat → ImageRequirements → Call ImageRequirements
  | [], reqs => return reqs
  | p :: ps, reqs => do
    let planeSize : Size2D ← fmt.planeSize size p
    let rowBytes ← int64? (planeSize.w.toInt * (fmt.planePixelStrideBytes p).toInt)
    let rowStride ← roundUpPowerOfTwo rowBytes rowAlign
    let planeRowStride := reqs.planeRowStride.setIfInBounds p rowStride.toInt32
    let bufSize ← int64? (rowStride.toInt32.toInt * planeSize.h.toInt)
    let cudaMem ← addBuffer reqs.cudaMem bufSize baseAlign.toInt64
    addPlanes size fmt rowAlign baseAlign ps { reqs with planeRowStride, cudaMem }

/-- `Image::CalcRequirements`. The row strides past the number of planes, which it leaves as they
are, are zero. -/
def calcRequirements (dev : Device) (size : Size2D) (fmt : ImageFormat)
    (userBaseAlign userRowAlign : Int32) : Call ImageRequirements := do
  (ExceptT.mk (some dev.getDevice) : Call Unit)
  let rowAlign ← rowAlignment dev userRowAlign
  alignPlanes fmt userRowAlign (List.range fmt.numPlanes)
  let rowAlign := (roundUpNextPowerOfTwo rowAlign).toInt32
  let baseAlign ← baseAlignment dev rowAlign userBaseAlign
  addPlanes size fmt rowAlign baseAlign (List.range fmt.numPlanes) {
    width := size.w
    height := size.h
    format := fmt
    planeRowStride := .replicate _ 0
    alignBytes := baseAlign
    cudaMem := .replicate _ 0 }

end Image

namespace ImageRequirements
variable (reqs : ImageRequirements)

/-- `AllocateBuffer`: the size it asks the allocator for. -/
def bufferSize : Except Exception Int64 :=
  if reqs.format.memLayout ≠ memLayoutPL then
    .error (.nvcv .notImplemented "Image with block-linear format is not currently supported.")
  else calcTotalSizeBytes reqs.cudaMem

/-- The loop of `exportData` over the planes given, the first of them at the offset. -/
def exportPlanes (memBuffer : BitVec 64) : List Nat → (planeOffsetBytes : Int64) →
    Option (List ImagePlaneStrided)
  | [], _ => some []
  | p :: ps, planeOffsetBytes => do
    let planeSize ← reqs.format.planeSize ⟨reqs.width, reqs.height⟩ p
    let rowStride := reqs.planeRowStride.toList.getD p 0
    let planes ← exportPlanes memBuffer ps
      (planeOffsetBytes + planeSize.h.toInt64 * rowStride.toInt64)
    return {
      width := planeSize.w
      height := planeSize.h
      rowStride
      basePtr := memBuffer + planeOffsetBytes.toBitVec } :: planes

/-- `Image::exportData` of an image with the requirements and the buffer: its planes. -/
def exportData (memBuffer : BitVec 64) : Option (List ImagePlaneStrided) :=
  reqs.exportPlanes memBuffer (List.range reqs.format.numPlanes) 0

end ImageRequirements

end Nvcv
