import CvCuda.Nvcv.ColorSpec
import CvCuda.Nvcv.DataLayout
import CvCuda.Nvcv.Exception

/-! # Image formats

The constructors and the getters of `ImageFormat`, `nvcv/priv_musa/ImageFormat.cpp`, and the macro
`NVCV_DETAIL_MAKE_FMTTYPE` of `nvcv/detail/FormatUtils.h` that puts a format together. A getter
returns the value it casts to an enumeration. What `operator<<` prints for a color spec (a table of
names) is an argument of the constructors.
-/

namespace Nvcv

open Bitfield

abbrev ImageFormat := BitVec 64

/-- The arguments all constructors of `ImageFormat` have. -/
structure FormatArgs where
  memLayout : MemLayout
  dataKind : DataKind
  swizzle : Swizzle
  packing0 : Packing
  packing1 : Packing
  packing2 : Packing
  packing3 : Packing
  alphaType : AlphaType
  exChannelInfo : Option ExtraChannelInfo := none

/-- `ColorFormat`: `model` says which member of its union is meant. -/
structure ColorFormat where
  model : ColorModel
  cspec : ColorSpec
  raw : RawPattern

namespace ImageFormat

/-! ## The word -/

/-- `NVCV_DETAIL_ADJUST_BPP_ENCODING`. -/
def adjustBppEncoding (pack bpp : BitVec 64) (packLen : Nat) : BitVec 64 :=
  if packLen = 0 ∧ bpp = 0#64 ∧ pack = 4#64 then -1#64 else bpp

/-- `NVCV_DETAIL_ENCODE_PACKING`. -/
def encodePacking (p : BitVec 64) (chLen packLen bppLen : Nat) : BitVec 64 :=
  set (adjustBppEncoding (get p 0 4) (get p 6 4) packLen) (packLen + chLen) bppLen |||
    set (get p 4 2) packLen chLen ||| set (get p 0 4) 0 packLen

/-- The part of `NVCV_DETAIL_MAKE_FMTTYPE` that depends on the color model. -/
def colorBits (colorModel : ColorModel) (colorSpecOrRawPattern subsampling : BitVec 64) :
    BitVec 64 :=
  if colorModel = .YCbCr then set colorSpecOrRawPattern 20 15 ||| set subsampling 17 3
  else if colorModel = .undefined then set (.ofNat 64 (2 ^ 19 - 1)) 16 19
  else
    set 1#64 16 1 |||
      if colorModel.value - 2 < 7 then
        set colorSpecOrRawPattern 20 15 ||| set (.ofNat 64 (colorModel.value - 2)) 17 3
      else
        set 7#64 17 3 |||
          if colorModel = .RAW then set colorSpecOrRawPattern 21 6
          else set 1#64 20 1 ||| set (.ofNat 64 (colorModel.value - (7 + 2 + 1))) 21 6

/-- The part of `NVCV_DETAIL_MAKE_FMTTYPE` for the planes other than the first. -/
def planeBits (packing1 packing2 packing3 : Packing) (extra : Option ExtraChannelInfo) :
    BitVec 64 :=
  match extra with
  | some e =>
    if packing1 = .zero ∧ 0 < e.numChannels then
      set e.channelType.value 44 3 ||| set (.ofInt 64 e.numChannels.toInt) 47 3 |||
        set (encodeBpp e.bitsPerPixel.toInt.toNat) 50 3 ||| set e.datakind.value 53 3
    else planes
  | none => planes
where
  planes : BitVec 64 :=
    set 1#64 7 1 ||| set (encodePacking packing1.value 1 3 3) 44 7 |||
      set (encodePacking packing2.value 1 3 3) 51 7 |||
      set (encodePacking packing3.value 0 0 3) 58 3

/-- `NVCV_DETAIL_MAKE_FMTTYPE`. -/
def makeFormat (colorModel : ColorModel) (colorSpecOrRawPattern subsampling : BitVec 64)
    (a : FormatArgs) : ImageFormat :=
  set a.dataKind.value 61 3 ||| set a.swizzle.value 0 6 ||| set a.alphaType.value 6 1 |||
    set a.memLayout.value 12 3 ||| colorBits colorModel colorSpecOrRawPattern subsampling |||
    set (encodePacking a.packing0.value 2 3 4) 35 9 |||
    planeBits a.packing1 a.packing2 a.packing3 a.exChannelInfo

/-! ## The constructors -/

def invalidArgument (msg : String) : Except Exception Unit := .error (.nvcv .invalidArgument msg)

def validateSwizzlePacking (a : FormatArgs) : Except Exception Unit :=
  let packchannels := a.packing0.getNumChannels + a.packing1.getNumChannels +
    a.packing2.getNumChannels + a.packing3.getNumChannels
  let swchannels := a.swizzle.getNumChannels
  if a.packing0 = .zero then invalidArgument "Packing of first plane must not be 0"
  else if a.packing0.value &&& 0b1000#64 ≠ 0 then
    invalidArgument "Code of 1st plane packing must be limited to 3 bits"
  else if a.packing1.value &&& 0b1000#64 ≠ 0 then
    invalidArgument "Code of 2nd plane packing must be limited to 3 bits"
  else if a.packing2.value &&& 0b1000#64 ≠ 0 then
    invalidArgument "Code of 3rd plane packing must be limited to 3 bits"
  else if a.packing3.value &&& 0b1111#64 ≠ 0 then
    invalidArgument "Code of 4th plane packing must be 0"
  else if a.packing1.getBitsPerPixel > 128 then
    invalidArgument "Packing of plane other than 1st must have at most 128 bits per pixel"
  else if a.packing1.getNumChannels > 2 then
    invalidArgument "Packing of 2nd plane must not have more than 2 channels"
  else if a.packing2.getBitsPerPixel > 128 then
    invalidArgument "Packing of plane other than 1st must have at most 128 bits per pixel"
  else if a.packing3.getBitsPerPixel > 64 then
    invalidArgument "Packing of 3rd plane must have at most 64 bits per pixel"
  else if swchannels ≠ packchannels then
    invalidArgument (s!"Number of channels in swizzle, {swchannels}" ++
      s!", doesn't match number of channels defined by packings, {packchannels}")
  else .ok ()

def validateExtraChannelInfo (a : FormatArgs) : Except Exception Unit :=
  match a.exChannelInfo with
  | none => .ok ()
  | some e =>
    if e.numChannels > 7 then
      invalidArgument "Maximum allowed number of extra channels is 7. "
    else if e.numChannels > 0 ∧ a.packing0 = .zero then
      .error (.nvcv .invalidImageFormat
        "No support for extra channels when packing of plane 0 is NVCV_PACKING_0. ")
    else if e.numChannels > 0 ∧ a.packing0 ≠ .zero ∧
        (a.packing1 ≠ .zero ∨ a.packing2 ≠ .zero ∨ a.packing3 ≠ .zero) then
      .error (.nvcv .invalidImageFormat "No support for extra channels for planar image format. ")
    else if e.bitsPerPixel > 128 then
      invalidArgument "No support for extra channels with bits per pixel more than 128. "
    else .ok ()

/-- The checks of the first constructor between those of the packings and of the extra channels. -/
def validateColor (print : ColorSpec → String) (colorModel : ColorModel) (colorSpec : ColorSpec)
    (chromaSub : ChromaSubsampling) : Except Exception Unit :=
  if colorModel = .RAW then
    invalidArgument ("When specifying colorspec, chroma subsampling and swizzle," ++
      " color model can't be RAW")
  else if colorModel = .undefined ∧ (colorSpec ≠ .undefined ∨ chromaSub ≠ .none) then
    invalidArgument ("If color model is undefined," ++
      s!" colorspec must be undefined (not {print colorSpec}" ++
      s!" and chroma subsampling must be none (not {chromaSub.getName})")
  else
    match colorModel with
    | .RGB | .YCCK | .CMYK | .YCbCr => .ok ()
    | _ =>
      if colorSpec ≠ .undefined then
        invalidArgument ("When color model is not RGB or YCbCr, colorspec must be undefined, not " ++
          print colorSpec)
      else .ok ()

/-- The constructor for a color model and a color spec. -/
def ofColorModel (print : ColorSpec → String) (colorModel : ColorModel) (colorSpec : ColorSpec)
    (chromaSub : ChromaSubsampling) (a : FormatArgs) : Except Exception ImageFormat := do
  validateSwizzlePacking a
  validateColor print colorModel colorSpec chromaSub
  validateExtraChannelInfo a
  if colorModel = .YCbCr then
    return makeFormat .YCbCr (colorSpec.setWidth 64) chromaSub.value a
  else
    if chromaSub ≠ .none then
      invalidArgument "When color model isn't YCbCr, chroma subsampling must be NONE"
    return makeFormat colorModel (colorSpec.setWidth 64) ChromaSubsampling.none.value a

/-- The constructor for a raw pattern. -/
def ofRawPattern (rawPattern : RawPattern) (a : FormatArgs) : Except Exception ImageFormat := do
  validateSwizzlePacking a
  validateExtraChannelInfo a
  return makeFormat .RAW rawPattern.value ChromaSubsampling.none.value a

/-- The constructor without a color model. -/
def ofNonColor (a : FormatArgs) : Except Exception ImageFormat := do
  validateSwizzlePacking a
  validateExtraChannelInfo a
  return makeFormat .undefined (ColorSpec.undefined.setWidth 64) ChromaSubsampling.none.value a

/-- The constructor for a color format. -/
def ofColorFormat (print : ColorSpec → String) (colorFormat : ColorFormat)
    (chromaSub : ChromaSubsampling) (a : FormatArgs) : Except Exception ImageFormat := do
  if colorFormat.model = .RAW then
    if chromaSub ≠ .none then
      invalidArgument ("When color model is raw, chroma subsampling must be NONE, not " ++
        chromaSub.getName)
    ofRawPattern colorFormat.raw a
  else
    ofColorModel print colorFormat.model colorFormat.cspec chromaSub a

/-! ## The getters -/

section
variable (f : ImageFormat)

def swizzle : BitVec 64 := get f 0 6

def alphaType : BitVec 64 := get f 6 1

def memLayout : BitVec 64 := get f 12 3

def dataKind : BitVec 64 := get f 61 3

def colorModel : Nat :=
  if f = 0#64 then ColorModel.undefined.value
  else if get f 16 1 = 0#64 then ColorModel.YCbCr.value
  else if get f 16 19 = .ofNat 64 (2 ^ 19 - 1) then ColorModel.undefined.value
  else
    let tmp := (get f 17 3).toNat
    if tmp < 7 then tmp + 2
    else if get f 20 1 = 0#64 then ColorModel.RAW.value
    else (get f 21 6).toNat + (7 + 2 + 1)

def rawPattern : Option (BitVec 64) :=
  if f.colorModel = ColorModel.RAW.value then some (get f 21 6) else none

def colorSpec : ColorSpec :=
  if f.colorModel ≠ ColorModel.undefined.value ∧ f.colorModel < 7 then (get f 20 15).truncate 15
  else .undefined

def css : BitVec 64 :=
  if f.colorModel = ColorModel.YCbCr.value then get f 17 3 else ChromaSubsampling.none.value

/-- The lambda `decode` of `planePacking`. -/
def decodePacking (plane : Nat) (isPlanar : BitVec 64) (value : BitVec 64)
    (chlen packlen bpplen : Nat) : BitVec 64 :=
  if isPlanar ≠ 0#64 then
    let bpp := get value (packlen + chlen) bpplen
    let nch := get value packlen chlen
    let pack := get value 0 packlen
    if plane = 3 ∧ packlen = 0 ∧ bpp = 0b111#64 then set 0#64 6 4 ||| set nch 4 2 ||| set 4#64 0 4
    else set bpp 6 4 ||| set nch 4 2 ||| set pack 0 4
  else set 0#64 6 4 ||| set 0#64 4 2 ||| set 0#64 0 4

def planePacking (plane : Nat) : BitVec 64 :=
  let isPlanar := get f 7 1
  match plane with
  | 0 => decodePacking plane 1#64 (get f 35 9) 2 3 4
  | 1 => decodePacking plane isPlanar (get f 44 7) 1 3 3
  | 2 => decodePacking plane isPlanar (get f 51 7) 1 3 3
  | 3 => decodePacking plane isPlanar (get f 58 3) 0 0 3
  | _ => Packing.zero.value

/-- `GetNumChannels` of the packing of a plane. -/
def planeNumChannels (plane : Nat) : Nat := Packing.numChannelsOf (f.planePacking plane)

def numPlanes : Nat :=
  (if f.planeNumChannels 0 ≠ 0 then 1 else 0) + (if f.planeNumChannels 1 ≠ 0 then 1 else 0) +
    (if f.planeNumChannels 2 ≠ 0 then 1 else 0) + if f.planeNumChannels 3 ≠ 0 then 1 else 0

/-! ## Extra channels -/

/-- `NVCVExtraChannelInfo` as the getter fills it: it casts the last two values. -/
structure ExtraChannelFields where
  numChannels : Int32 := 0
  bitsPerPixel : Int32 := 0
  datakind : BitVec 64 := DataKind.unspecified.value
  channelType : BitVec 64 := ExtraChannel.U.value
  deriving DecidableEq

/-- `extraChannelInfo`, the getter. -/
def extraChannelInfo : ExtraChannelFields :=
  if f.numPlanes = 1 then
    let numExtraChannels := (get f 47 3).toNat
    if 0 < numExtraChannels then
      { numChannels := .ofNat numExtraChannels
        bitsPerPixel := .ofNat (2 ^ (3 + (get f 50 3).toNat))
        datakind := get f 53 3
        channelType := get f 44 3 }
    else {}
  else {}

/-- `extraChannelInfo`, the setter. -/
def setExtraChannelInfo (e : ExtraChannelInfo) : Except Exception ImageFormat :=
  if f = 0#64 then
    .error (.nvcv .invalidArgument "Can't set extra channel information of NONE image format")
  else if e.numChannels < 0 ∨ e.numChannels > 7 then
    .error (.nvcv .invalidArgument
      "Minimum allowed number of extra channels is 0 and maximum allowed is 7")
  else if e.bitsPerPixel > 128 then
    .error (.nvcv .invalidArgument "Maximum allowed bits per pixel for extra channels is 128")
  else if e.datakind = .unspecified then
    .error (.nvcv .invalidArgument
      "Can't set extra channel information when data kind is unspecified")
  else if f.numPlanes = 1 then
    .ok (clear f 44 12 ||| (set (.ofInt 64 e.numChannels.toInt) 47 3 |||
      set (encodeBpp e.bitsPerPixel.toInt.toNat) 50 3 ||| set e.datakind.value 53 3 |||
      set e.channelType.value 44 3))
  else
    .error (.nvcv .invalidArgument
      "Can't set extra channel information of for non-planar image format")

end

/-! ## The constructors together -/

/-- A constructor with the arguments the others do not have. -/
inductive Color where
  | colorModel (colorModel : ColorModel) (colorSpec : ColorSpec) (chromaSub : ChromaSubsampling)
  | rawPattern (rawPattern : RawPattern)
  | nonColor
  | colorFormat (colorFormat : ColorFormat) (chromaSub : ChromaSubsampling)

def construct (print : ColorSpec → String) (c : Color) (a : FormatArgs) :
    Except Exception ImageFormat :=
  match c with
  | .colorModel model spec css => ofColorModel print model spec css a
  | .rawPattern raw => ofRawPattern raw a
  | .nonColor => ofNonColor a
  | .colorFormat fmt css => ofColorFormat print fmt css a

end ImageFormat

end Nvcv
