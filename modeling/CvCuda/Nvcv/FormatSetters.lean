import CvCuda.Nvcv.ImageFormat

/-! # Setters of image formats

The setters of `ImageFormat`, `nvcv/priv_musa/ImageFormat.cpp`, and what they use of `ColorSpec`,
`nvcv/priv_musa/ColorSpec.cpp`. A setter takes an enumerator and returns another format. What
`operator<<` prints for a color spec is an argument, as it is of the constructors.
-/

namespace Nvcv

open Bitfield

/-- `NVCVColorRange`. -/
inductive ColorRange where
  | full | limited
  deriving DecidableEq

def ColorRange.value (range : ColorRange) : BitVec 15 := .ofNat 15 range.ctorIdx

/-- `GetName` of a color model, which need not be that of an enumerator. -/
def ColorModel.nameOf (colorModel : Nat) : String :=
  match colorModel with
  | 0 => "NVCV_COLOR_MODEL_UNDEFINED"
  | 1 => "NVCV_COLOR_MODEL_YCbCr"
  | 2 => "NVCV_COLOR_MODEL_RGB"
  | 9 => "NVCV_COLOR_MODEL_RAW"
  | 10 => "NVCV_COLOR_MODEL_XYZ"
  | 11 => "NVCV_COLOR_MODEL_HSV"
  | 12 => "NVCV_COLOR_MODEL_CMYK"
  | 13 => "NVCV_COLOR_MODEL_YCCK"
  | n => s!"NVCVColorModel({n})"

namespace ColorSpec

/-- `NVCV_YCbCr_ENC_UNDEFINED`. -/
def undefinedEncoding : BitVec 15 := 0#15

section
variable (cspec : ColorSpec)

def yCbCrEncoding : BitVec 15 := get cspec 7 3

def setYCbCrEncoding (newEncoding : BitVec 15) : ColorSpec := put cspec newEncoding 7 3

def colorRange : BitVec 15 := get cspec 14 1

def setColorRange (newRange : ColorRange) : ColorSpec := put cspec newRange.value 14 1

end

end ColorSpec

namespace ImageFormat

/-- `ImageFormat::colorRange`, the getter. -/
def colorRange (f : ImageFormat) : BitVec 15 := f.colorSpec.colorRange

section
variable (print : ColorSpec → String) (f : ImageFormat)

/-- The first check of a setter. -/
def checkNone (msg : String) : Except Exception Unit :=
  if f = 0#64 then invalidArgument msg else .ok ()

def setAlphaType (newAlphaType : AlphaType) : Except Exception ImageFormat := do
  f.checkNone "Can't set alpha channel type of NONE format"
  return put f newAlphaType.value 6 1

def setMemLayout (newMemLayout : MemLayout) : Except Exception ImageFormat := do
  f.checkNone "Can't set memory layout of NONE format"
  return put f newMemLayout.value 12 3

def setDataKind (newDataKind : DataKind) : Except Exception ImageFormat := do
  f.checkNone "Can't set data type of NONE format"
  if get newDataKind.value 2 1 ≠ 0#64 then
    -- the sign bit comes from the negation
    return -(1#64 + (~~~(clear f 61 3 ||| set newDataKind.value 61 2) &&& ~~~(1#64 <<< 63)))
  else
    return put f newDataKind.value 61 3

def setRawPattern (newRawPattern : RawPattern) : Except Exception ImageFormat := do
  f.checkNone "Can't set raw pattern of NONE format"
  if f.colorModel = ColorModel.RAW.value then
    return put f newRawPattern.value 21 6
  else
    .error (.nvcv .invalidArgument
      ("Can't set the raw pattern of a format whose color model is not RAW." ++
        s!" It currently is {ColorModel.nameOf f.colorModel}"))

/-- The color spec put in a format whose color model is RGB or YCbCr. -/
def adjustColorSpec (newColorSpec : ColorSpec) : ColorSpec :=
  if f.colorModel = ColorModel.RGB.value then
    newColorSpec.setYCbCrEncoding ColorSpec.undefinedEncoding
  else
    -- for YCbCr the source computes a color spec with another encoding and does not use it
    newColorSpec

def setColorSpec (newColorSpec : ColorSpec) : Except Exception ImageFormat := do
  f.checkNone "Can't set colorspec of NONE format"
  if f.colorModel = ColorModel.RGB.value ∨ f.colorModel = ColorModel.YCbCr.value then
    return put f ((f.adjustColorSpec newColorSpec).setWidth 64) 20 15
  else if f.colorSpec ≠ .undefined then
    .error (.nvcv .invalidArgument
      ("If image format's color model isn't RGB or YCbCr," ++ " its colorspec must be UNDEFINED," ++
        s!" but color model is {ColorModel.nameOf f.colorModel}" ++
        s!" and its colorspec is {print f.colorSpec}"))
  else
    return f

def setCss (newCSS : ChromaSubsampling) : Except Exception ImageFormat := do
  f.checkNone "Can't set chroma subsampling of NONE format"
  if f.colorModel = ColorModel.YCbCr.value then
    return put f newCSS.value 17 3
  else if newCSS = .none then
    return f
  else
    .error (.nvcv .invalidArgument
      "If color model isn't YCbCr, chroma subsampling must be NONE")

def setColorRange (newColorRange : ColorRange) : Except Exception ImageFormat := do
  f.checkNone "Can't set color range of NONE format"
  f.setColorSpec print (f.colorSpec.setColorRange newColorRange)

/-! ## The setters together -/

/-- A setter with its argument. -/
inductive Setter where
  | colorSpec (newColorSpec : ColorSpec)
  | colorRange (newColorRange : ColorRange)
  | css (newCSS : ChromaSubsampling)
  | memLayout (newMemLayout : MemLayout)
  | dataKind (newDataKind : DataKind)
  | alphaType (newAlphaType : AlphaType)
  | rawPattern (newRawPattern : RawPattern)
  deriving DecidableEq

def call : Setter → Except Exception ImageFormat
  | .colorSpec newColorSpec => f.setColorSpec print newColorSpec
  | .colorRange newColorRange => f.setColorRange print newColorRange
  | .css newCSS => f.setCss newCSS
  | .memLayout newMemLayout => f.setMemLayout newMemLayout
  | .dataKind newDataKind => f.setDataKind newDataKind
  | .alphaType newAlphaType => f.setAlphaType newAlphaType
  | .rawPattern newRawPattern => f.setRawPattern newRawPattern

end

end ImageFormat

end Nvcv
