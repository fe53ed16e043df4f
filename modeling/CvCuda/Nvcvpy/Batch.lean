import CvCuda.Nvcv.ImageBatchOwners
import CvCuda.Nvcv.TensorBatch
import CvCuda.Nvcvpy.Cache

/-! # Batches of the Python module

`TensorBatch` of `mod_cvcuda/nvcv/TensorBatch.cpp` and `ImageBatchVarShape` of
`mod_cvcuda/nvcv/ImageBatch.cpp`: a native batch and the list of the Python objects in it. A Python
object is the handle of the native one that it wraps; in a list it may be `None`. A call that
dereferences `None`, or erases more than there is, has no outcome (`none`).
-/

namespace Nvcvpy

open Nvcv (Addr Objects TensorData Image ImageFormat)

/-- What a call raises: what `CheckThrow` throws, or an exception of the module's own. -/
inductive Raised where
  | nvcv (e : Nvcv.Exception)
  | std (e : Exception)

/-- The handles of the objects of a list, a null one for `None`. -/
def handlesOf (list : List (Option Addr)) : List Addr := list.map (·.getD 0)

/-- `std::vector::data()` of handles, for which storage is allocated or not. -/
def data (handles : List Addr) (allocated : Bool) : Option (Nat → Addr) :=
  if allocated then some fun i => handles.getD i 0 else none

/-- `m_list.erase(m_list.end() - count, m_list.end())`. -/
def eraseBack {α : Type} (count : Int32) (list : List α) : Option (List α) :=
  if count.toInt ≤ list.length then some (list.take (list.length - count.toInt.toNat)) else none

/-- A Python batch. -/
structure Batch (Impl : Type) where
  impl : Impl
  list : List (Option Addr)

/-- The outcome of a call. -/
abbrev Outcome (Impl Obj : Type) := Option (Except Raised Unit × Batch Impl × Objects Obj)

/-- What is left to do when the native call returns: `list` is then the list. -/
def Batch.afterImpl {Impl Obj : Type} (b : Batch Impl)
    (r : Option (Except Nvcv.Exception Unit × Impl × Objects Obj))
    (list : Option (List (Option Addr))) : Outcome Impl Obj :=
  match r with
  | none => none
  | some (.error e, impl, o) => some (.error (.nvcv e), { b with impl }, o)
  | some (.ok (), impl, o) => list.map fun list => (.ok (), { impl, list }, o)

/-- A batch and the native objects. -/
structure Sys (Impl Obj : Type) where
  batch : Batch Impl
  objs : Objects Obj

/-- A call with what it raises, or what others do with the native objects. -/
inductive Event (Op Obj : Type) where
  | call (op : Op) (raised : Except Raised Unit)
  | others (objs : Objects Obj)

/-! ## Tensors -/

abbrev TensorBatch := Batch Nvcv.TensorBatch

namespace TensorBatch

def pushBack (tensor : Addr) (b : TensorBatch) (o : Objects TensorData) :
    Outcome Nvcv.TensorBatch TensorData :=
  b.afterImpl (Nvcv.TensorBatch.nvcvTensorBatchPushTensors (some fun _ => tensor) 1 b.impl o)
    (some (b.list ++ [some tensor]))

/-- `pushBackMany`: the list first. The storage is for the tensors the native batch has room
for. -/
def pushBackMany (tensorList : List (Option Addr)) (b : TensorBatch) (o : Objects TensorData) :
    Outcome Nvcv.TensorBatch TensorData :=
  let b := { b with list := b.list ++ tensorList }
  let nvcvTensors := handlesOf tensorList
  let allocated := tensorList ≠ [] ∨ b.impl.capacity ≠ b.impl.numTensors
  b.afterImpl (Nvcv.TensorBatch.nvcvTensorBatchPushTensors (data nvcvTensors allocated)
    (Int32.ofNat nvcvTensors.length) b.impl o) (some b.list)

def popBack (tensorCount : Int32) (b : TensorBatch) (o : Objects TensorData) :
    Outcome Nvcv.TensorBatch TensorData :=
  b.afterImpl (some (b.impl.popTensors tensorCount o)) (eraseBack tensorCount b.list)

def clear (b : TensorBatch) (o : Objects TensorData) : Outcome Nvcv.TensorBatch TensorData :=
  b.afterImpl (some (b.impl.clear o)) (some [])

/-- `set_at`. -/
def setAt (idx : Int64) (tensor : Option Addr) (b : TensorBatch) (o : Objects TensorData) :
    Outcome Nvcv.TensorBatch TensorData :=
  if idx < 0 then
    some (.error (.std (.runtimeError s!"Invalid index: {idx.toInt}")), b, o)
  else if b.list.length ≤ idx.toInt then
    some (.error (.std (.runtimeError (s!"Cannot set tensor at index {idx.toInt}" ++
      s!". Batch has only {b.list.length} elements."))), b, o)
  else
    match tensor with
    | none => none
    | some h =>
      b.afterImpl (Nvcv.TensorBatch.nvcvTensorBatchSetTensors idx.toInt32 (some fun _ => h) 1
        b.impl o) (some (b.list.set idx.toInt.toNat (some h)))

inductive Op where
  | pushBack (tensor : Addr)
  | pushBackMany (tensorList : List (Option Addr))
  | popBack (tensorCount : Int32)
  | setAt (idx : Int64) (tensor : Option Addr)
  | clear

def exec (b : TensorBatch) (o : Objects TensorData) : Op → Outcome Nvcv.TensorBatch TensorData
  | .pushBack tensor => pushBack tensor b o
  | .pushBackMany tensorList => pushBackMany tensorList b o
  | .popBack tensorCount => popBack tensorCount b o
  | .setAt idx tensor => setAt idx tensor b o
  | .clear => clear b o

/-- A batch and the native tensors. -/
abbrev Sys := Nvcvpy.Sys Nvcv.TensorBatch TensorData

abbrev Event := Nvcvpy.Event Op TensorData

def Step (s : Sys) : Event → Sys → Prop
  | .call op raised, s' => exec s.batch s.objs op = some (raised, s'.batch, s'.objs)
  | .others objs, s' => s' = { s with objs }

/-- A batch that `Create` returns. -/
structure New (s : Sys) : Prop where
  impl : s.batch.impl.tensors = []
  list : s.batch.list = []

end TensorBatch

/-! ## Images -/

abbrev ImageBatchVarShape := Batch Nvcv.ImageBatchVarShape

namespace ImageBatchVarShape

section
variable (print : ImageFormat → String) (eventSynchronize : Except Nvcv.Exception Unit)

def pushBack (img : Addr) (b : ImageBatchVarShape) (o : Objects Image) :
    Outcome Nvcv.ImageBatchVarShape Image :=
  b.afterImpl (Nvcv.ImageBatchVarShape.pushImages print eventSynchronize (some fun _ => img) 1
    b.impl o) (some (b.list ++ [some img]))

/-- `pushBackMany`: the list first. -/
def pushBackMany (imgList : List (Option Addr)) (b : ImageBatchVarShape) (o : Objects Image) :
    Outcome Nvcv.ImageBatchVarShape Image :=
  let handlelist := handlesOf imgList
  let b := { b with list := b.list ++ imgList }
  b.afterImpl (Nvcv.ImageBatchVarShape.pushImages print eventSynchronize
    (data handlelist (imgList ≠ [])) (Int32.ofNat handlelist.length) b.impl o) (some b.list)

end

def popBack (imgCount : Int32) (b : ImageBatchVarShape) (o : Objects Image) :
    Outcome Nvcv.ImageBatchVarShape Image :=
  b.afterImpl (some (b.impl.popImages imgCount o)) (eraseBack imgCount b.list)

def clear (b : ImageBatchVarShape) (o : Objects Image) : Outcome Nvcv.ImageBatchVarShape Image :=
  b.afterImpl (some (b.impl.clear o)) (some [])

/-- A call; to those that push, what the runtime answers. -/
inductive Op where
  | pushBack (eventSynchronize : Except Nvcv.Exception Unit) (img : Addr)
  | pushBackMany (eventSynchronize : Except Nvcv.Exception Unit) (imgList : List (Option Addr))
  | popBack (imgCount : Int32)
  | clear

def exec (print : ImageFormat → String) (b : ImageBatchVarShape) (o : Objects Image) :
    Op → Outcome Nvcv.ImageBatchVarShape Image
  | .pushBack sync img => pushBack print sync img b o
  | .pushBackMany sync imgList => pushBackMany print sync imgList b o
  | .popBack imgCount => popBack imgCount b o
  | .clear => clear b o

/-- A batch and the native images. -/
abbrev Sys := Nvcvpy.Sys Nvcv.ImageBatchVarShape Image

abbrev Event := Nvcvpy.Event Op Image

/-- The references of a native batch are there. -/
structure Held (impl : Nvcv.ImageBatchVarShape) (o : Objects Image) : Prop where
  refs : ∀ x, impl.imgHandles.count x ≤ o.refs x
  null : o.refs 0 = 0

/-- Others do not release the references of the native batch. -/
def Step (print : ImageFormat → String) (s : Sys) : Event → Sys → Prop
  | .call op raised, s' => exec print s.batch s.objs op = some (raised, s'.batch, s'.objs)
  | .others objs, s' => s' = { s with objs } ∧ Held s.batch.impl objs

/-- A batch that `Create` returns. -/
structure New (s : Sys) : Prop where
  impl : s.batch.impl.images = []
  list : s.batch.list = []
  null : s.objs.refs 0 = 0

end ImageBatchVarShape

end Nvcvpy
