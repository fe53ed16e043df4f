import CvCuda.Nvcv.Planes
import CvCuda.Nvcv.Tensor

/-! # Parameters of packings

`MakeNVCVPacking`, `GetPackingParams` and `GetBitsPerComponent` of `nvcv/priv_musa/DataLayout.cpp`
with their table, and the constructor and getters of `DataType` that go by them.
-/

namespace Nvcv

open Outcome

/-- `NVCVByteOrder`. -/
inductive ByteOrder where
  | lsb | msb
  deriving DecidableEq

/-- `NVCVPackingParams`, of which a caller may give any integers. -/
structure PackingParams where
  byteOrder : ByteOrder
  alignment : Int
  swizzle : Swizzle
  bits : Vector Int 4
  deriving DecidableEq

/-- `MakeNVCVSwizzleFromBits`. -/
def makeSwizzleFromBits (bits : Vector Int 4) : Swizzle :=
  makeSwizzle ((List.range 4).map fun i =>
    if bits.toList.getD i 0 ≠ 0 then Channel.ofColor i else .zero)

namespace Packing

/-- The byte order, swizzle and bits of an entry of `g_packingToData`. -/
def data : Packing → ByteOrder × Swizzle × Vector Int 4
  | .zero => (.lsb, .S0000, #v[0, 0, 0, 0])
  | .X1 => (.lsb, .S0000, #v[1, 0, 0, 0])
  | .X2 => (.lsb, .S0000, #v[2, 0, 0, 0])
  | .X4 => (.lsb, .S0000, #v[4, 0, 0, 0])
  | .X8 => (.lsb, .S0000, #v[8, 0, 0, 0])
  | .b4X4 => (.lsb, .SY000, #v[4, 4, 0, 0])
  | .X4b4 => (.msb, .SX000, #v[4, 4, 0, 0])
  | .X4Y4 => (.lsb, .S0000, #v[4, 4, 0, 0])
  | .X3Y3Z2 => (.lsb, .S0000, #v[3, 3, 2, 0])
  | .X16 => (.lsb, .S0000, #v[16, 0, 0, 0])
  | .b6X10 => (.lsb, .SY000, #v[6, 10, 0, 0])
  | .X10b6 => (.msb, .SX000, #v[10, 6, 0, 0])
  | .b4X12 => (.lsb, .SY000, #v[4, 12, 0, 0])
  | .X12b4 => (.msb, .SX000, #v[12, 4, 0, 0])
  | .b2X14 => (.lsb, .SY000, #v[2, 14, 0, 0])
  | .X14b2 => (.msb, .SX000, #v[14, 2, 0, 0])
  | .X8_Y8 => (.msb, .S0000, #v[8, 8, 0, 0])
  | .X5Y5Z6 => (.lsb, .S0000, #v[5, 5, 6, 0])
  | .X5Y6Z5 => (.lsb, .S0000, #v[5, 6, 5, 0])
  | .X6Y5Z5 => (.lsb, .S0000, #v[6, 5, 5, 0])
  | .b4X4Y4Z4 => (.lsb, .SYZW0, #v[4, 4, 4, 4])
  | .b1X5Y5Z5 => (.lsb, .SYZW0, #v[1, 5, 5, 5])
  | .X5Y5b1Z5 => (.lsb, .SXYW0, #v[5, 5, 1, 5])
  | .X1Y5Z5W5 => (.lsb, .S0000, #v[1, 5, 5, 5])
  | .X4Y4Z4W4 => (.lsb, .S0000, #v[4, 4, 4, 4])
  | .X5Y1Z5W5 => (.lsb, .S0000, #v[5, 1, 5, 5])
  | .X5Y5Z1W5 => (.lsb, .S0000, #v[5, 5, 1, 5])
  | .X5Y5Z5W1 => (.lsb, .S0000, #v[5, 5, 5, 1])
  | .X8_Y8__X8_Z8 => (.msb, .SXYXZ, #v[8, 8, 8, 8])
  | .Y8_X8__Z8_X8 => (.msb, .SYXZX, #v[8, 8, 8, 8])
  | .X24 => (.lsb, .S0000, #v[24, 0, 0, 0])
  | .X8_Y8_Z8 => (.msb, .S0000, #v[8, 8, 8, 0])
  | .X32 => (.lsb, .S0000, #v[32, 0, 0, 0])
  | .b12X20 => (.lsb, .SY000, #v[12, 20, 0, 0])
  | .X20b12 => (.msb, .SX000, #v[20, 12, 0, 0])
  | .X24b8 => (.msb, .SX000, #v[24, 8, 0, 0])
  | .b8X24 => (.lsb, .SY000, #v[8, 24, 0, 0])
  | .X16_Y16 => (.msb, .S0000, #v[16, 16, 0, 0])
  | .X10b6_Y10b6 => (.msb, .SXZ00, #v[10, 6, 10, 6])
  | .X12b4_Y12b4 => (.msb, .SXZ00, #v[12, 4, 12, 4])
  | .X10Y11Z11 => (.lsb, .S0000, #v[10, 11, 11, 0])
  | .X11Y11Z10 => (.lsb, .S0000, #v[11, 11, 10, 0])
  | .b2X10Y10Z10 => (.lsb, .SYZW0, #v[2, 10, 10, 10])
  | .X10Y10Z10b2 => (.msb, .SXYZ0, #v[10, 10, 10, 2])
  | .X8_Y8_Z8_W8 => (.msb, .S0000, #v[8, 8, 8, 8])
  | .X2Y10Z10W10 => (.lsb, .S0000, #v[2, 10, 10, 10])
  | .X10Y10Z10W2 => (.lsb, .S0000, #v[10, 10, 10, 2])
  | .X48 => (.lsb, .S0000, #v[48, 0, 0, 0])
  | .X16_Y16_Z16 => (.msb, .S0000, #v[16, 16, 16, 0])
  | .X64 => (.lsb, .S0000, #v[64, 0, 0, 0])
  | .X32_Y32 => (.msb, .S0000, #v[32, 32, 0, 0])
  | .X32_Y24b8 => (.msb, .SXY00, #v[32, 24, 8, 0])
  | .X16_Y16_Z16_W16 => (.msb, .S0000, #v[16, 16, 16, 16])
  | .X96 => (.lsb, .S0000, #v[96, 0, 0, 0])
  | .X32_Y32_Z32 => (.msb, .S0000, #v[32, 32, 32, 0])
  | .X128 => (.lsb, .S0000, #v[128, 0, 0, 0])
  | .X64_Y64 => (.msb, .S0000, #v[64, 64, 0, 0])
  | .X32_Y32_Z32_W32 => (.msb, .S0000, #v[32, 32, 32, 32])
  | .X192 => (.lsb, .S0000, #v[192, 0, 0, 0])
  | .X64_Y64_Z64 => (.msb, .S0000, #v[64, 64, 64, 0])
  | .X256 => (.lsb, .S0000, #v[256, 0, 0, 0])
  | .X128_Y128 => (.msb, .S0000, #v[128, 128, 0, 0])
  | .X64_Y64_Z64_W64 => (.msb, .S0000, #v[64, 64, 64, 64])

/-- An entry of `g_packingToData`. -/
def entry (packing : Packing) : PackingParams where
  byteOrder := packing.data.1
  alignment := packing.getAlignment
  swizzle := packing.data.2.1
  bits := packing.data.2.2

/-- `GetPackingParams`. -/
def getParams (packing : Packing) : PackingParams :=
  let params := packing.entry
  if params.swizzle = .S0000 then { params with swizzle := makeSwizzleFromBits params.bits }
  else params

def getBitsPerComponent (packing : Packing) : Vector Int 4 :=
  let p := packing.getParams
  .ofFn fun i =>
    if i < packing.getNumComponents then
      ((p.swizzle.getSwizzleChannel i).bind Channel.color?).elim 0 fun k => p.bits.toList.getD k 0
    else 0

end Packing

def PackingParams.isSubWord (p : PackingParams) : Bool :=
  if p.swizzle = .S0000 ∨ p.swizzle = .SXYXZ ∨ p.swizzle = .SYXZX then false
  else p.swizzle.getNumChannels ≠ p.bits.toList.countP (· ≠ 0)

/-- `MakeNVCVPacking`. The entries of `g_dataToPacking` with the key come in the order of the
packings; any alignment takes the first one. -/
def makePacking (params : PackingParams) : Option Packing :=
  let swizzle :=
    if params.swizzle ≠ .SXYXZ ∧ params.swizzle ≠ .SYXZX ∧ !params.isSubWord then .S0000
    else params.swizzle
  let range := ((List.range 63).map Packing.ofNat).filter fun q =>
    q.entry.swizzle = swizzle ∧ q.entry.bits = params.bits
  match range with
  | [] => none
  | first :: rest =>
    let it :=
      if params.alignment = 0 then
        rest.foldl (fun it q => if q.entry.alignment < it.entry.alignment then q else it) first
      else first
    if 2 ≤ params.swizzle.getNumChannels ∧ it.entry.byteOrder ≠ params.byteOrder then none
    else
      let sw := if it.entry.swizzle = .S0000 then makeSwizzleFromBits params.bits
        else it.entry.swizzle
      if params.swizzle ≠ .S0000 ∧ sw ≠ params.swizzle then none else some it

/-- `nvcvMakePacking`. -/
def nvcvMakePacking (params : PackingParams) : Except Exception Packing :=
  match makePacking params with
  | some packing => .ok packing
  | none => .error (.nvcv .invalidArgument "Parameters don't correspond to any supported packing")

namespace DataType

/-- `NVCV_MAKE_DATA_TYPE`. The swizzle is that of the number of components. -/
def make (dataKind : DataKind) (packing : Packing) : DataType :=
  ImageFormat.makeFormat .undefined (ColorSpec.undefined.setWidth 64)
    ChromaSubsampling.none.value {
      memLayout := .pitchLinear
      dataKind
      swizzle := .ofNat ((Bitfield.get packing.value 4 2).toNat + 1)
      packing0 := packing
      packing1 := .zero
      packing2 := .zero
      packing3 := .zero
      alphaType := .associated }

variable (dtype : DataType)

def numChannels : Nat := ImageFormat.planeNumChannels dtype 0

def bitsPerPixel : Nat := Packing.bitsPerPixelOf dtype.packing

/-- `bpc`; a packing that the table has not fails an assertion. -/
def bitsPerChannel : Option (Vector Int 4) :=
  (Packing.ofValue dtype.packing).map Packing.getBitsPerComponent

end DataType

end Nvcv
