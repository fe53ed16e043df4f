import Mathlib.Tactic

/-! # Color models and color specs

The enumerations of `nvcv/ColorSpec.h` with the values of their enumerators. A color spec is made
of six fields in 15 bits.
-/

namespace Nvcv

/-- `NVCVColorModel`. -/
inductive ColorModel where
  | undefined | YCbCr | RGB | RAW | XYZ | HSV | CMYK | YCCK
  deriving DecidableEq

def ColorModel.value : ColorModel → Nat
  | .undefined => 0
  | .YCbCr => 1
  | .RGB => 2
  | .RAW => 9
  | .XYZ => 10
  | .HSV => 11
  | .CMYK => 12
  | .YCCK => 13

/-- `NVCVColorSpec`, less `NVCV_COLOR_SPEC_FORCE32`. -/
abbrev ColorSpec := BitVec 15

/-- `NVCV_COLOR_SPEC_UNDEFINED`: the color space BT709, zero in the other fields. -/
def ColorSpec.undefined : ColorSpec := 1#15

/-- `NVCVChromaSubsampling`, in the order of its enumerators. -/
inductive ChromaSubsampling where
  | none | css422 | css422R | css411 | css411R | css420 | css410 | css410R
  deriving DecidableEq

def ChromaSubsampling.value (css : ChromaSubsampling) : BitVec 64 := .ofNat 64 css.ctorIdx

/-- `GetName`. -/
def ChromaSubsampling.getName : ChromaSubsampling → String
  | .none => "4:4:4"
  | .css422 => "4:2:2"
  | .css422R => "4:2:2R"
  | .css411 => "4:1:1"
  | .css411R => "4:1:1R"
  | .css420 => "4:2:0"
  | .css410 => "4:1:0"
  | .css410R => "4:1:0R"

/-- `NVCVRawPattern`, in the order of its enumerators. -/
inductive RawPattern where
  | bayerRGGB | bayerBGGR | bayerGRBG | bayerGBRG | bayerRCCB | bayerBCCR | bayerCRBC | bayerCBRC
  | bayerRCCC | bayerCRCC | bayerCCRC | bayerCCCR | bayerCCCC
  deriving DecidableEq

def RawPattern.value (rawPattern : RawPattern) : BitVec 64 := .ofNat 64 rawPattern.ctorIdx

end Nvcv
