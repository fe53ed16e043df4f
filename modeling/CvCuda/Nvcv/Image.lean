import CvCuda.Nvcv.ImageFormat

/-! # Images

What a batch of images reads of an `IImage`: its format, its size and the data it exports
(`nvcv/ImageData.h`), of which only the member of the union for strided buffers. `Image` and
`ImageWrapData` (`nvcv/priv_musa/Image.cpp`) see to the fields that are propositions: an image has
a positive size, and its first plane has this size.
-/

namespace Nvcv

structure Size2D where
  w : Int32
  h : Int32
  deriving DecidableEq

/-- `NVCVImagePlaneStrided`. -/
structure ImagePlaneStrided where
  width : Int32
  height : Int32
  rowStride : Int32
  basePtr : BitVec 64
  deriving DecidableEq

/-- `NVCV_MAX_PLANE_COUNT`. -/
abbrev maxPlaneCount : Nat := 6

/-- `NVCVImageBufferStrided`. -/
structure ImageBufferStrided where
  numPlanes : Int32
  planes : Vector ImagePlaneStrided maxPlaneCount
  deriving DecidableEq

/-- `NVCVImageBufferType`. -/
inductive ImageBufferType where
  | none | stridedCuda | stridedHost | cudaArray
  deriving DecidableEq

structure Image where
  format : ImageFormat
  bufferType : ImageBufferType
  strided : ImageBufferStrided
  size : Size2D
  size_pos : bufferType = .stridedCuda → 0 < size.w ∧ 0 < size.h
  size_eq : bufferType = .stridedCuda →
    (⟨strided.planes[0].width, strided.planes[0].height⟩ : Size2D) = size

/-- `NVCV_IMAGE_FORMAT_NONE`. -/
def imageFormatNone : ImageFormat := 0#64

/-- `NVCV_MEM_LAYOUT_PL`. -/
def memLayoutPL : BitVec 64 := MemLayout.pitchLinear.value

/-- `GetName` of the memory layout of a format. -/
def memLayoutName (memLayout : BitVec 64) : String :=
  if memLayout = 0#64 then "NVCV_MEM_LAYOUT_PITCH_LINEAR"
  else if memLayout.toNat < 7 then
    s!"NVCV_MEM_LAYOUT_BLOCK{2 ^ (memLayout.toNat - 1)}_LINEAR"
  else s!"NVCVMemLayout({memLayout.toNat})"

end Nvcv
