import CvCuda.Lib.Bitfield

/-! # Data layout

The enumerations of `nvcv/DataLayout.h` with the values of their enumerators, and what
`nvcv/priv_musa/DataLayout.cpp` computes of packings and swizzles. The values are those of
`uint64_t`, in which the formats are put together.
-/

namespace Nvcv

open Bitfield

/-! ## Packings -/

/-- `NVCVPacking`; `zero` is `NVCV_PACKING_0`. -/
inductive Packing where
  | zero | X1 | X2 | X4 | X8 | b4X4 | X4b4 | X4Y4 | X3Y3Z2 | X16 | b6X10 | X10b6 | b4X12 | X12b4
  | b2X14 | X14b2 | X8_Y8 | X5Y5Z6 | X5Y6Z5 | X6Y5Z5 | b4X4Y4Z4 | b1X5Y5Z5 | X5Y5b1Z5 | X1Y5Z5W5
  | X4Y4Z4W4 | X5Y1Z5W5 | X5Y5Z1W5 | X5Y5Z5W1 | X8_Y8__X8_Z8 | Y8_X8__Z8_X8 | X24 | X8_Y8_Z8
  | X32 | b12X20 | X20b12 | X24b8 | b8X24 | X16_Y16 | X10b6_Y10b6 | X12b4_Y12b4 | X10Y11Z11
  | X11Y11Z10 | b2X10Y10Z10 | X10Y10Z10b2 | X8_Y8_Z8_W8 | X2Y10Z10W10 | X10Y10Z10W2 | X48
  | X16_Y16_Z16 | X64 | X32_Y32 | X32_Y24b8 | X16_Y16_Z16_W16 | X96 | X32_Y32_Z32 | X128
  | X64_Y64 | X32_Y32_Z32_W32 | X192 | X64_Y64_Z64 | X256 | X128_Y128 | X64_Y64_Z64_W64
  deriving DecidableEq

/-- `NVCV_DETAIL_ENCODE_BPP`. -/
def encodeBpp (bpp : Nat) : BitVec 64 :=
  .ofNat 64 (if bpp ≤ 8 then 0 else if bpp ≤ 32 then bpp / 8 - 1
    else if bpp ≤ 64 then bpp / 16 + 1 else if bpp ≤ 128 then bpp / 32 + 3 else bpp / 64 + 5)

/-- `NVCV_DETAIL_BPP_NCH`. -/
def bppNch (bpp chcount : Nat) : BitVec 64 :=
  set (encodeBpp bpp) 6 4 ||| set (.ofNat 64 (chcount - 1)) 4 2 |||
    set (.ofNat 64 (if bpp ≤ 2 then bpp else if bpp = 4 then 3 else if bpp = 8 then 4 else 0)) 0 4

namespace Packing

def value : Packing → BitVec 64
  | .zero => 0#64
  | .X1 => bppNch 1 1
  | .X2 => bppNch 2 1
  | .X4 => bppNch 4 1
  | .X8 => bppNch 8 1
  | .b4X4 => bppNch 8 1 + 1#64
  | .X4b4 => bppNch 8 1 + 2#64
  | .X4Y4 => bppNch 8 2
  | .X3Y3Z2 => bppNch 8 3
  | .X16 => bppNch 16 1
  | .b6X10 => bppNch 16 1 + 1#64
  | .X10b6 => bppNch 16 1 + 2#64
  | .b4X12 => bppNch 16 1 + 3#64
  | .X12b4 => bppNch 16 1 + 4#64
  | .b2X14 => bppNch 16 1 + 5#64
  | .X14b2 => bppNch 16 1 + 6#64
  | .X8_Y8 => bppNch 16 2
  | .X5Y5Z6 => bppNch 16 3
  | .X5Y6Z5 => bppNch 16 3 + 1#64
  | .X6Y5Z5 => bppNch 16 3 + 2#64
  | .b4X4Y4Z4 => bppNch 16 3 + 3#64
  | .b1X5Y5Z5 => bppNch 16 3 + 4#64
  | .X5Y5b1Z5 => bppNch 16 3 + 5#64
  | .X1Y5Z5W5 => bppNch 16 4
  | .X4Y4Z4W4 => bppNch 16 4 + 1#64
  | .X5Y1Z5W5 => bppNch 16 4 + 2#64
  | .X5Y5Z1W5 => bppNch 16 4 + 3#64
  | .X5Y5Z5W1 => bppNch 16 4 + 4#64
  | .X8_Y8__X8_Z8 => bppNch 16 4 + 5#64
  | .Y8_X8__Z8_X8 => bppNch 16 4 + 6#64
  | .X24 => bppNch 24 1
  | .X8_Y8_Z8 => bppNch 24 3
  | .X32 => bppNch 32 1
  | .b12X20 => bppNch 32 1 + 1#64
  | .X20b12 => bppNch 32 1 + 2#64
  | .X24b8 => bppNch 32 1 + 3#64
  | .b8X24 => bppNch 32 1 + 4#64
  | .X16_Y16 => bppNch 32 2
  | .X10b6_Y10b6 => bppNch 32 2 + 1#64
  | .X12b4_Y12b4 => bppNch 32 2 + 2#64
  | .X10Y11Z11 => bppNch 32 3
  | .X11Y11Z10 => bppNch 32 3 + 1#64
  | .b2X10Y10Z10 => bppNch 32 3 + 2#64
  | .X10Y10Z10b2 => bppNch 32 3 + 3#64
  | .X8_Y8_Z8_W8 => bppNch 32 4
  | .X2Y10Z10W10 => bppNch 32 4 + 1#64
  | .X10Y10Z10W2 => bppNch 32 4 + 2#64
  | .X48 => bppNch 48 1
  | .X16_Y16_Z16 => bppNch 48 3
  | .X64 => bppNch 64 1
  | .X32_Y32 => bppNch 64 2
  | .X32_Y24b8 => bppNch 64 2 + 1#64
  | .X16_Y16_Z16_W16 => bppNch 64 4
  | .X96 => bppNch 96 1
  | .X32_Y32_Z32 => bppNch 96 3
  | .X128 => bppNch 128 1
  | .X64_Y64 => bppNch 128 2
  | .X32_Y32_Z32_W32 => bppNch 128 4
  | .X192 => bppNch 192 1
  | .X64_Y64_Z64 => bppNch 192 3
  | .X256 => bppNch 256 1
  | .X128_Y128 => bppNch 256 2
  | .X64_Y64_Z64_W64 => bppNch 256 4

def getNumComponents (packing : Packing) : Nat :=
  if packing = .zero then 0 else (get packing.value 4 2).toNat + 1

def getNumChannels (packing : Packing) : Nat :=
  match packing with
  | .X8_Y8__X8_Z8 | .Y8_X8__Z8_X8 => 3
  | _ => packing.getNumComponents

/-- `GetNumChannels` of a value, which need not be that of an enumerator. -/
def numChannelsOf (packing : BitVec 64) : Nat :=
  if packing = value .X8_Y8__X8_Z8 ∨ packing = value .Y8_X8__Z8_X8 then 3
  else if packing = 0#64 then 0
  else (get packing 4 2).toNat + 1

def getBitsPerPixel (packing : Packing) : Nat :=
  let bpp := (packing.value >>> 6).toNat
  if bpp = 0 then
    let code := (packing.value &&& 0b1111#64).toNat
    if code ≤ 2 then code else if code = 3 then 4 else if code ≤ 0b111 then 8 else 0
  else if bpp ≤ 3 then (bpp + 1) * 8
  else if bpp ≤ 5 then (bpp - 1) * 16
  else if bpp ≤ 7 then (bpp - 3) * 32
  else if bpp ≤ 9 then (bpp - 5) * 64
  else 0

/-- `GetBitsPerPixel` of a value, which need not be that of an enumerator. -/
def bitsPerPixelOf (packing : BitVec 64) : Nat :=
  let bpp := (packing >>> 6).toNat
  if bpp = 0 then
    let code := (packing &&& 0b1111#64).toNat
    if code ≤ 2 then code else if code = 3 then 4 else if code ≤ 0b111 then 8 else 0
  else if bpp ≤ 3 then (bpp + 1) * 8
  else if bpp ≤ 5 then (bpp - 1) * 16
  else if bpp ≤ 7 then (bpp - 3) * 32
  else if bpp ≤ 9 then (bpp - 5) * 64
  else 0

/-- The alignments of `g_packingToData`. Bytes are counted before rounding up to a power of two,
so less than a byte has none. -/
def getAlignment : Packing → Nat
  | .zero | .X1 | .X2 | .X4 => 0
  | .X8 | .b4X4 | .X4b4 | .X4Y4 | .X3Y3Z2 | .X8_Y8 | .X8_Y8_Z8 | .X8_Y8_Z8_W8
  | .X8_Y8__X8_Z8 | .Y8_X8__Z8_X8 => 1
  | .X16 | .b6X10 | .X10b6 | .b4X12 | .X12b4 | .b2X14 | .X14b2 | .X5Y5Z6 | .X5Y6Z5 | .X6Y5Z5
  | .b4X4Y4Z4 | .b1X5Y5Z5 | .X5Y5b1Z5 | .X1Y5Z5W5 | .X4Y4Z4W4 | .X5Y1Z5W5 | .X5Y5Z1W5
  | .X5Y5Z5W1 | .X16_Y16 | .X10b6_Y10b6 | .X12b4_Y12b4 | .X16_Y16_Z16 | .X16_Y16_Z16_W16 => 2
  | .X24 | .X32 | .b12X20 | .X20b12 | .X24b8 | .b8X24 | .X10Y11Z11 | .X11Y11Z10
  | .b2X10Y10Z10 | .X10Y10Z10b2 | .X2Y10Z10W10 | .X10Y10Z10W2 | .X32_Y32 | .X32_Y24b8
  | .X32_Y32_Z32 | .X32_Y32_Z32_W32 => 4
  | .X48 | .X64 | .X64_Y64 | .X64_Y64_Z64 | .X64_Y64_Z64_W64 => 8
  | .X96 | .X128 | .X128_Y128 => 16
  | .X192 | .X256 => 32

/-- `GetAlignment` of a value; `g_packingToData` has none that is not that of an enumerator. -/
def alignmentOf (packing : BitVec 64) : Option Nat :=
  (((List.range 63).map Packing.ofNat).find? (·.value = packing)).map getAlignment

end Packing

/-! ## Swizzles -/

/-- `NVCVChannel`. -/
inductive Channel where
  | zero | X | Y | Z | W | one
  deriving DecidableEq

/-- `NVCVSwizzle`, in the order of its enumerators. -/
inductive Swizzle where
  | S0000 | SX000 | SXY00 | SXYZ0 | SXYZW | S1000 | S0001 | SZYXW | SWXYZ | SWZYX | SYZWX | SXYZ1
  | SYZW1 | SXXX1 | SXZY1 | SZYX1 | SZYX0 | SWZY1 | S0X00 | S00X0 | S000X | SY000 | S0Y00 | S00Y0
  | S000Y | S0XY0 | SXXXY | SYYYX | S0YX0 | SX00Y | SY00X | SX001 | SXY01 | S0XZ0 | S0ZX0 | SXZY0
  | SYZX1 | SZYW1 | S0YX1 | SXYXZ | SYXZX | SXZ00 | SWYXZ | SYX00 | SYX01 | S00YX | S00XY | S0XY1
  | S0X01 | SYZXW | SYW00 | SXYW0 | SYZW0 | SYZ00 | S00X1 | S0ZXY | unsupported
  deriving DecidableEq

namespace Swizzle

def value (swizzle : Swizzle) : BitVec 64 :=
  if swizzle = .unsupported then 0b111111#64 else .ofNat 64 swizzle.ctorIdx

/-- `GetChannels`, by the table `swizzleBitsArray`. -/
def getChannels : Swizzle → List Channel
  | .S0000 => [.zero, .zero, .zero, .zero]
  | .SX000 => [.X, .zero, .zero, .zero]
  | .SXY00 => [.X, .Y, .zero, .zero]
  | .SXYZ0 => [.X, .Y, .Z, .zero]
  | .SXYZW => [.X, .Y, .Z, .W]
  | .S1000 => [.one, .zero, .zero, .zero]
  | .S0001 => [.zero, .zero, .zero, .one]
  | .SZYXW => [.Z, .Y, .X, .W]
  | .SWXYZ => [.W, .X, .Y, .Z]
  | .SWZYX => [.W, .Z, .Y, .X]
  | .SYZWX => [.Y, .Z, .W, .X]
  | .SXYZ1 => [.X, .Y, .Z, .one]
  | .SYZW1 => [.Y, .Z, .W, .one]
  | .SXXX1 => [.X, .X, .X, .one]
  | .SXZY1 => [.X, .Z, .Y, .one]
  | .SZYX1 => [.Z, .Y, .X, .one]
  | .SZYX0 => [.Z, .Y, .X, .zero]
  | .SWZY1 => [.W, .Z, .Y, .one]
  | .S0X00 => [.zero, .X, .zero, .zero]
  | .S00X0 => [.zero, .zero, .X, .zero]
  | .S000X => [.zero, .zero, .zero, .X]
  | .SY000 => [.Y, .zero, .zero, .zero]
  | .S0Y00 => [.zero, .Y, .zero, .zero]
  | .S00Y0 => [.zero, .zero, .Y, .zero]
  | .S000Y => [.zero, .zero, .zero, .Y]
  | .S0XY0 => [.zero, .X, .Y, .zero]
  | .SXXXY => [.X, .X, .X, .Y]
  | .SYYYX => [.Y, .Y, .Y, .X]
  | .S0YX0 => [.zero, .Y, .X, .zero]
  | .SX00Y => [.X, .zero, .zero, .Y]
  | .SY00X => [.Y, .zero, .zero, .X]
  | .SX001 => [.X, .zero, .zero, .one]
  | .SXY01 => [.X, .Y, .zero, .one]
  | .S0XZ0 => [.zero, .X, .Z, .zero]
  | .S0ZX0 => [.zero, .Z, .X, .zero]
  | .SXZY0 => [.X, .Z, .Y, .zero]
  | .SYZX1 => [.Y, .Z, .X, .one]
  | .SZYW1 => [.Z, .Y, .W, .one]
  | .S0YX1 => [.zero, .Y, .X, .one]
  | .SXYXZ => [.X, .Y, .X, .Z]
  | .SYXZX => [.Y, .X, .Z, .X]
  | .SXZ00 => [.X, .Z, .zero, .zero]
  | .SWYXZ => [.W, .Y, .X, .Z]
  | .SYX00 => [.Y, .X, .zero, .zero]
  | .SYX01 => [.Y, .X, .zero, .one]
  | .S00YX => [.zero, .zero, .Y, .X]
  | .S00XY => [.zero, .zero, .X, .Y]
  | .S0XY1 => [.zero, .X, .Y, .one]
  | .S0X01 => [.zero, .X, .zero, .one]
  | .SYZXW => [.Y, .Z, .X, .W]
  | .SYW00 => [.Y, .W, .zero, .zero]
  | .SXYW0 => [.X, .Y, .W, .zero]
  | .SYZW0 => [.Y, .Z, .W, .zero]
  | .SYZ00 => [.Y, .Z, .zero, .zero]
  | .S00X1 => [.zero, .zero, .X, .one]
  | .S0ZXY => [.zero, .Z, .X, .Y]
  -- all bits set, which is no channel
  | .unsupported => []

/-- `GetNumChannels`: only X, Y, Z and W count, each once. -/
def getNumChannels (swizzle : Swizzle) : Nat :=
  [Channel.X, .Y, .Z, .W].countP fun c => swizzle.getChannels.contains c

end Swizzle

/-! ## The other enumerations -/

/-- `NVCVDataKind`. -/
inductive DataKind where
  | unspecified | unsigned | signed | float | complex
  deriving DecidableEq

/-- `NVCV_DATA_KIND_UNSPECIFIED` is -1. -/
def DataKind.value : DataKind → BitVec 64
  | .unspecified => -1#64
  | .unsigned => 0#64
  | .signed => 1#64
  | .float => 2#64
  | .complex => 3#64

/-- `NVCVMemLayout`. -/
inductive MemLayout where
  | pitchLinear | block1Linear | block2Linear | block4Linear | block8Linear | block16Linear
  | block32Linear
  deriving DecidableEq

def MemLayout.value (memLayout : MemLayout) : BitVec 64 := .ofNat 64 memLayout.ctorIdx

/-- `NVCVAlphaType`. -/
inductive AlphaType where
  | associated | unassociated
  deriving DecidableEq

def AlphaType.value (alphaType : AlphaType) : BitVec 64 := .ofNat 64 alphaType.ctorIdx

/-- `NVCVExtraChannel`. -/
inductive ExtraChannel where
  | U | D | POS3D
  deriving DecidableEq

def ExtraChannel.value (channelType : ExtraChannel) : BitVec 64 := .ofNat 64 channelType.ctorIdx

/-- `NVCVExtraChannelInfo`. -/
structure ExtraChannelInfo where
  numChannels : Int32
  bitsPerPixel : Int32
  datakind : DataKind
  channelType : ExtraChannel

end Nvcv
