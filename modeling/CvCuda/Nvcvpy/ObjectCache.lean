import CvCuda.Lib.Run
import CvCuda.Nvcv.ImageRequirements

/-! # Images and tensors of the Python module, and the cache they come from

`Image::Create` and `Image::CreateHost` of `mod_cvcuda/nvcv/Image.cpp`, `Tensor::Create` of
`Tensor.cpp`, and `fetch` of `Cache.cpp`. Every thread has a cache of its own.

* Of an object, its requirements are modelled, with the call that it was allocated for.
* An allocation succeeds or throws. What a cache forgets, and in which order it goes through its
  objects, is left open; wrappers of external buffers, which no request finds, are left out.
* `Image` does not look at the status of `nvcvImageCalcRequirements`, so that an image whose
  requirements are refused is made of what the memory held before.
-/

namespace Nvcvpy.ObjectCache

open Nvcv Outcome

abbrev Thread := Nat

/-- `Image::Create` and `Tensor::Create`. -/
inductive Request where
  | image (size : Size2D) (fmt : ImageFormat) (rowAlign : Int32)
  | tensor (shape : List Int64) (dtype : DataType) (layout : TensorLayout) (rowalign : Int32)

/-- `Image::Key` and `Tensor::Key`, whose layouts are compared by their labels. -/
inductive Key where
  | image (size : Size2D) (format : ImageFormat)
  | tensor (shape : List Int64) (layout : List UInt8) (dtype : DataType)
  deriving DecidableEq

variable (dev : Device)

def imageRequirements (size : Size2D) (fmt : ImageFormat) (rowAlign : Int32) :
    Call ImageRequirements :=
  Image.calcRequirements dev size fmt 0 rowAlign

/-- `CreateNVCVTensorShape`, whose shape checks its rank, and `CalcRequirements`. -/
def tensorRequirements (shape : List Int64) (dtype : DataType) (layout : TensorLayout)
    (rowalign : Int32) : Call TensorRequirements := do
  refuse (tensorMaxRank < shape.length) (.nvcv .invalidArgument "Shape ranks is too big")
  refuse (layout.rank ≠ 0 ∧ shape.length ≠ layout.rank.toInt)
    (.nvcv .invalidArgument "Layout dimensions must match shape dimensions")
  Tensor.calcRequirements dev (.ofNat shape.length) (shape.getD · 0) dtype layout 0 rowalign

/-- `Tensor::Key` of requirements. -/
def tensorKey (reqs : TensorRequirements) : Key :=
  .tensor (reqs.shape.toList.take reqs.rank) reqs.layout.labels reqs.dtype

/-- An object, with what it was allocated for. -/
inductive Obj where
  | image (id : Nat) (size : Size2D) (fmt : ImageFormat) (rowAlign : Int32)
      (reqs : ImageRequirements) (alloc : Returns (imageRequirements dev size fmt rowAlign) reqs)
  | tensor (id : Nat) (shape : List Int64) (dtype : DataType) (layout : TensorLayout)
      (rowalign : Int32) (reqs : TensorRequirements)
      (alloc : Returns (tensorRequirements dev shape dtype layout rowalign) reqs)

namespace Obj
variable {dev}

def id : Obj dev → Nat
  | .image id .. | .tensor id .. => id

def key : Obj dev → Key
  | .image _ size fmt .. => .image size fmt
  | .tensor _ _ _ _ _ reqs _ => tensorKey reqs

/-- The call it was allocated for. -/
def request : Obj dev → Request
  | .image _ size fmt rowAlign .. => .image size fmt rowAlign
  | .tensor _ shape dtype layout rowalign .. => .tensor shape dtype layout rowalign

end Obj

/-- The caches, the objects that are held elsewhere, and the next number of an object. -/
structure State where
  cached : Thread → List (Obj dev)
  inUse : Finset Nat
  next : Nat

def initial : State dev where
  cached := fun _ => []
  inUse := ∅
  next := 0

variable {dev}

namespace State
variable (s : State dev) (c : Thread)

/-- `Cache::fetch`. -/
def fetch (key : Key) : List (Obj dev) :=
  (s.cached c).filter fun o => o.key = key ∧ o.id ∉ s.inUse

def hold (o : Obj dev) : State dev := { s with inUse := insert o.id s.inUse }

/-- `Cache::add` of a new object, which is in use; it keeps no object that is too big. -/
def add (o : Obj dev) (kept : Bool) : State dev where
  cached := if kept then Function.update s.cached c (o :: s.cached c) else s.cached
  inUse := insert s.next s.inUse
  next := s.next + 1

end State

/-- How a call ends. -/
inductive Result (dev : Device) where
  | returned (o : Obj dev)
  | thrown
  | undefined

/-- `Image::Create` and `Tensor::Create`, for a thread. -/
inductive Create (s : State dev) (c : Thread) : Request → Result dev → State dev → Prop where
  | reuseImage {size : Size2D} {fmt : ImageFormat} {rowAlign : Int32} {o : Obj dev}
      {os : List (Obj dev)} (h : s.fetch c (.image size fmt) = o :: os) :
      Create s c (.image size fmt rowAlign) (.returned o) (s.hold o)
  | newImage {size : Size2D} {fmt : ImageFormat} {rowAlign : Int32} {reqs : ImageRequirements}
      (h : s.fetch c (.image size fmt) = [])
      (alloc : Returns (imageRequirements dev size fmt rowAlign) reqs) (kept : Bool) :
      Create s c (.image size fmt rowAlign)
        (.returned (.image s.next size fmt rowAlign reqs alloc))
        (s.add c (.image s.next size fmt rowAlign reqs alloc) kept)
  | noImage {size : Size2D} {fmt : ImageFormat} {rowAlign : Int32} {reqs : ImageRequirements}
      (h : s.fetch c (.image size fmt) = [])
      (alloc : Returns (imageRequirements dev size fmt rowAlign) reqs) :
      Create s c (.image size fmt rowAlign) .thrown s
  | undefinedImage {size : Size2D} {fmt : ImageFormat} {rowAlign : Int32}
      (h : s.fetch c (.image size fmt) = [])
      (refused : ∀ reqs, ¬Returns (imageRequirements dev size fmt rowAlign) reqs) :
      Create s c (.image size fmt rowAlign) .undefined s
  | reuseTensor {shape : List Int64} {dtype : DataType} {layout : TensorLayout} {rowalign : Int32}
      {reqs : TensorRequirements} {o : Obj dev} {os : List (Obj dev)}
      (alloc : Returns (tensorRequirements dev shape dtype layout rowalign) reqs)
      (h : s.fetch c (tensorKey reqs) = o :: os) :
      Create s c (.tensor shape dtype layout rowalign) (.returned o) (s.hold o)
  | newTensor {shape : List Int64} {dtype : DataType} {layout : TensorLayout} {rowalign : Int32}
      {reqs : TensorRequirements}
      (alloc : Returns (tensorRequirements dev shape dtype layout rowalign) reqs)
      (h : s.fetch c (tensorKey reqs) = []) (kept : Bool) :
      Create s c (.tensor shape dtype layout rowalign)
        (.returned (.tensor s.next shape dtype layout rowalign reqs alloc))
        (s.add c (.tensor s.next shape dtype layout rowalign reqs alloc) kept)
  | noTensor {shape : List Int64} {dtype : DataType} {layout : TensorLayout} {rowalign : Int32}
      {reqs : TensorRequirements}
      (alloc : Returns (tensorRequirements dev shape dtype layout rowalign) reqs)
      (h : s.fetch c (tensorKey reqs) = []) :
      Create s c (.tensor shape dtype layout rowalign) .thrown s
  | refusedTensor {shape : List Int64} {dtype : DataType} {layout : TensorLayout}
      {rowalign : Int32} (h : Throws (tensorRequirements dev shape dtype layout rowalign)) :
      Create s c (.tensor shape dtype layout rowalign) .thrown s
  | undefinedTensor {shape : List Int64} {dtype : DataType} {layout : TensorLayout}
      {rowalign : Int32} (h : ¬Defined (tensorRequirements dev shape dtype layout rowalign)) :
      Create s c (.tensor shape dtype layout rowalign) .undefined s

/-- What happens to the caches. -/
inductive Op (dev : Device) where
  | create (c : Thread) (q : Request) (r : Result dev)
  /-- `Image::CreateHost`. -/
  | createHost (c : Thread) (o : Obj dev)
  /-- The last reference to an object goes away. -/
  | release (id : Nat)
  /-- A cache forgets objects, or goes through them in another order. -/
  | forget (c : Thread)

inductive Step : State dev → Op dev → State dev → Prop where
  | create {s s' : State dev} {c : Thread} {q : Request} {r : Result dev}
      (h : Create s c q r s') : Step s (.create c q r) s'
  | createHost (s : State dev) (c : Thread) {size : Size2D} {fmt : ImageFormat} {rowAlign : Int32}
      {reqs : ImageRequirements} (alloc : Returns (imageRequirements dev size fmt rowAlign) reqs)
      (kept : Bool) :
      Step s (.createHost c (.image s.next size fmt rowAlign reqs alloc))
        (s.add c (.image s.next size fmt rowAlign reqs alloc) kept)
  | release (s : State dev) (id : Nat) :
      Step s (.release id) { s with inUse := s.inUse.erase id }
  | forget (s : State dev) (c : Thread) {objs : List (Obj dev)} (h : objs ⊆ s.cached c) :
      Step s (.forget c) { s with cached := Function.update s.cached c objs }

end Nvcvpy.ObjectCache
