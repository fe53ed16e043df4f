import CvCuda.Cvcuda.HistogramEq

/-! # Erasing areas of images

`Erase` of `priv_musa/legacy/erase.mu`, for a tensor of images.

* The stores of a launch's threads come in any order.
* Memory is a function of the cell, and there are cells beside the images.
* `int` arithmetic wraps around. What a mask selects are channels below 32.
* A launch with sizes that the device does not have runs no thread, which nothing looks at.
-/

namespace Cvcuda.Erase

open BoxBlur (ErrorCode DataFormat)
open HistogramEq (DataType)

/-! ## Data -/

/-- An element of the images, or a place beside them. -/
structure Cell where
  batch : ℤ
  y : ℤ
  x : ℤ
  c : Nat
  deriving DecidableEq

structure Int2 where
  x : Int32
  y : Int32

structure Int3 where
  x : Int32
  y : Int32
  z : Int32

/-- What `anchor`, `erasing` and `imgIdx` say of one area. -/
structure Area where
  anchor : Int2
  erasing : Int3
  imgIdx : Int32

/-- What is checked of a tensor with one entry for each area. -/
structure Header where
  dtype : DataType
  rank : Nat

/-- The arguments of `infer`, without what the images and `values` hold. -/
structure Call where
  format : DataFormat
  outFormat : DataFormat
  dataType : DataType
  outDataType : DataType
  anchor : Header
  erasing : Header
  imgIdx : Header
  values : Header
  areas : List Area
  numSamples : Nat
  numRows : Int32
  numCols : Int32
  numChannels : Nat
  random : Bool
  seed : UInt32
  inplace : Bool

/-- `SaturateCast` to the elements' type, of a `float` and of an `int`. -/
structure SaturateCast (F V : Type) where
  ofFloat : F → V
  ofInt : Int32 → V

/-! ## The kernel -/

def eraseHash (x : UInt32) : Int32 :=
  let x := ((x >>> 16) ^^^ x) * 0x45d9f3b
  let x := ((x >>> 16) ^^^ x) * 0x45d9f3b
  ((x >>> 16) ^^^ x).toInt32

/-- `threadIdx.x`, and `blockIdx`. -/
structure Thread where
  threadIdx : Nat
  x : Nat
  y : Nat
  z : Nat

/-- The value that a thread stores. -/
def fill {F V : Type} (cast : SaturateCast F V) (call : Call) (values : Nat → F)
    (blockDim : UInt32) (t : Thread) : V :=
  if call.random then
    let hashValue := call.seed + .ofNat t.threadIdx
      + 0x26AD0C9 * blockDim * (.ofNat t.x + 1) * (.ofNat t.y + 1) * (.ofNat t.z + 1)
    cast.ofInt (eraseHash hashValue % 256)
  else cast.ofFloat (values (t.z * call.numChannels + t.y))

/-- A thread of `erase`: where it stores, if it does, and what. -/
def erase {F V : Type} (cast : SaturateCast F V) (call : Call) (values : Nat → F)
    (blockDim : UInt32) (t : Thread) : Option (Cell × V) :=
  call.areas[t.z]?.bind fun a =>
    let id : UInt32 := .ofNat t.threadIdx + .ofNat t.x * blockDim
    if id < (a.erasing.y * a.erasing.x).toUInt32 ∧
        1#32 &&& a.erasing.z.toBitVec.sshiftRight t.y = 1#32 then
      let x := (id % a.erasing.x.toUInt32).toInt32
      let y := (id / a.erasing.x.toUInt32).toInt32
      if a.anchor.x + x < call.numCols ∧ a.anchor.y + y < call.numRows then
        some (⟨a.imgIdx.toInt, (a.anchor.y + y).toInt, (a.anchor.x + x).toInt, t.y⟩,
          fill cast call values blockDim t)
      else none
    else none

/-- The threads of a grid of blocks. -/
def threads (blockSize gridX gridY gridZ : Nat) : List Thread :=
  (List.range gridZ).flatMap fun z => (List.range gridY).flatMap fun y =>
    (List.range gridX).flatMap fun x => (List.range blockSize).map fun t => ⟨t, x, y, z⟩

/-- `eraseCaller`, on a device with grids at most `maxGridZ` deep: what its threads store. -/
def eraseCaller {F V : Type} (maxGridZ : Nat) (cast : SaturateCast F V) (call : Call)
    (values : Nat → F) (maxEh maxEw : Int32) : List (Cell × V) :=
  let blockSize := if maxEh * maxEw < 1024 then maxEh * maxEw else 1024
  let gridSize := divUp (maxEh * maxEw).toInt.toNat 1024
  if 0 < blockSize ∧ call.areas.length ≤ maxGridZ then
    (threads blockSize.toInt.toNat gridSize call.numChannels call.areas.length).filterMap
      (erase cast call values blockSize.toUInt32)
  else []

/-! ## `infer` -/

/-- `MaxWH`. -/
def maxWH (a b : Int3) : Int3 := ⟨max a.x b.x, max a.y b.y, 0⟩

/-- The element lies in one of the images. -/
def Call.Element (call : Call) (k : Cell) : Prop :=
  (0 ≤ k.batch ∧ k.batch < call.numSamples) ∧ (0 ≤ k.y ∧ k.y < call.numRows.toInt) ∧
    (0 ≤ k.x ∧ k.x < call.numCols.toInt) ∧ k.c < call.numChannels

instance (call : Call) (k : Cell) : Decidable (call.Element k) :=
  inferInstanceAs (Decidable (_ ∧ _))

/-- What a call returns, the memory that it has made when it launches, and the launch's stores. -/
structure Result (V : Type) where
  code : ErrorCode
  copied : Cell → V
  stores : List (Cell × V)

/-- Some order of the stores leaves `m`. -/
def Result.Leaves {V : Type} (r : Result V) (m : Cell → V) : Prop :=
  ∃ order : List (Cell × V), order.Perm r.stores ∧ m = Kernel.store order r.copied

/-- The checks of `Erase::infer`. -/
def check (maxNumErasingArea : Nat) (call : Call) : Option ErrorCode :=
  if call.format ∉ [.nhwc, .hwc] then some .invalidDataFormat
  else if call.outFormat ∉ [.nhwc, .hwc] then some .invalidDataFormat
  else if call.dataType ∉ [.cv8U, .cv16U, .cv16S, .cv32S, .cv32F] then some .invalidDataType
  else if call.dataType ≠ call.outDataType then some .invalidDataType
  else if call.anchor.dtype ≠ .cv32S then some .invalidDataType
  else if call.anchor.rank ≠ 1 then some .invalidDataFormat
  else if maxNumErasingArea < call.areas.length then some .invalidParameter
  else if call.erasing.dtype ≠ .cv32S then some .invalidDataType
  else if call.erasing.rank ≠ 1 then some .invalidDataFormat
  else if call.imgIdx.dtype ≠ .cv32S then some .invalidDataType
  else if call.imgIdx.rank ≠ 1 then some .invalidDataFormat
  else if call.values.dtype ≠ .cv32F then some .invalidDataType
  else if call.values.rank ≠ 1 then some .invalidDataFormat
  else none

/-- `Erase::infer` -/
def infer {F V : Type} (maxGridZ maxNumErasingArea : Nat) (cast : SaturateCast F V) (call : Call)
    (values : Nat → F) (input output : Cell → V) : Result V :=
  match check maxNumErasingArea call with
  | some code => ⟨code, if call.inplace then input else output, []⟩
  | none =>
    let copied := if call.inplace then input
      else fun k => if call.Element k then input k else output k
    if call.areas.length = 0 then ⟨.success, copied, []⟩
    else
      let maxValues := (call.areas.map Area.erasing).foldl maxWH ⟨0, 0, 0⟩
      if maxValues.x = 0 ∨ maxValues.y = 0 then ⟨.success, copied, []⟩
      else ⟨.success, copied, eraseCaller maxGridZ cast call values maxValues.y maxValues.x⟩

end Cvcuda.Erase
