import CvCuda.Nvcv.CoreObject
import CvCuda.Nvcv.TensorData

/-! # Tensor batches

`TensorBatch` of `nvcv/priv_musa/TensorBatch.cpp`, called through the functions of
`nvcv/TensorBatch.cpp`. `int32_t` is `Int32`, which wraps; a call that accesses its buffers
outside the batch's elements has no outcome (`none`). A tensor is the `TensorData` it exports,
and the elements of the device buffer are those all copies enqueued so far leave there; what the
runtime's calls answer is an argument of `exportData`.

`Sys` adds the references that other owners hold on the tensors, and what they may do with them.
-/

namespace Nvcv

/-! ## Layouts -/

/-- `memcmp` of two ranges of bytes of one length. -/
def memcmp : List UInt8 → List UInt8 → Int32
  | x :: xs, y :: ys => if x < y then -1 else if y < x then 1 else memcmp xs ys
  | _, _ => 0

def nvcvTensorLayoutCompare (a b : TensorLayout) : Int32 :=
  if a.rank = b.rank then memcmp a.labels b.labels else a.rank - b.rank

/-- `NVCV_TENSOR_LAYOUT_MAKE("")`. -/
def tensorNone : TensorLayout := { data := .replicate _ 0, rank := 0 }

/-- `NVCV_DATA_TYPE_NONE`. -/
def dataTypeNone : DataType := 0#64

/-! ## The batch -/

/-- `NVCVTensorBatchElementStrided`. -/
structure BatchElement where
  data : BitVec 64
  shape : Vector Int64 tensorMaxRank
  stride : Vector Int64 tensorMaxRank
  deriving DecidableEq

/-- `tensors` is the part of `m_Tensors` below `m_numTensors`; nothing reads the rest. -/
structure TensorBatch where
  capacity : Int32
  tensors : List Addr := []
  dirtyBegin : Int32 := 0
  dirtyEnd : Int32 := 0
  dtype : DataType := dataTypeNone
  layout : TensorLayout := tensorNone
  rank : Int32 := -1
  pinnedTensorsBuffer : Nat → BatchElement
  devTensorsBuffer : Nat → BatchElement

/-- `NVCVTensorBatchData`; its buffer is the device buffer of the batch. -/
structure TensorBatchData where
  rank : Int32
  dtype : DataType
  layout : TensorLayout
  numTensors : Int32
  deriving DecidableEq

namespace TensorBatch

def numTensors (b : TensorBatch) : Int32 := Int32.ofNat b.tensors.length

/-- The handles a caller passes as an array and its length. -/
def handles (tensors : Nat → Addr) (numTensors : Int32) : List Addr :=
  (List.range numTensors.toInt.toNat).map tensors

def resetAttributes (b : TensorBatch) : TensorBatch :=
  { b with dtype := dataTypeNone, layout := tensorNone, rank := -1 }

def invalidArgument (msg : String) : Exception := .nvcv .invalidArgument msg

/-- The body of the loop of `validateTensors`. -/
def validateTensor (b : TensorBatch) (t : TensorData) : Except Exception Unit :=
  if b.rank ≠ -1 ∧ Int32.ofNat t.rank ≠ b.rank then
    .error (invalidArgument "Trying to add a tensor to a tensor batch with an inconsistent rank.")
  else if t.dtype ≠ b.dtype then
    .error (invalidArgument "Trying to add a tensor to a tensor batch with an inconsistent type.")
  else if nvcvTensorLayoutCompare t.layout b.layout ≠ 0 then
    .error (invalidArgument
      "Trying to add a tensor to a tensor batch with an inconsistent layout.")
  else .ok ()

def validateTensors (b : TensorBatch) (o : Objects TensorData) :
    List Addr → Except Exception Unit
  | [] => .ok ()
  | h :: hs =>
    match toStaticRef h o with
    | .error e => .error e
    | .ok t =>
      match b.validateTensor t with
      | .error e => .error e
      | .ok () => b.validateTensors o hs

/-- `setLayoutAndDType`; it throws before it writes. -/
def setLayoutAndDType (b : TensorBatch) (o : Objects TensorData) :
    List Addr → Except Exception TensorBatch
  | [] => .ok b
  | h :: _ =>
    if b.numTensors = 0 then
      match toStaticRef h o with
      | .error e => .error e
      | .ok t => .ok { b with rank := Int32.ofNat t.rank, dtype := t.dtype, layout := t.layout }
    else .ok b

/-- The end of `pushTensors`, from its loop on. -/
def appendTensors (hs : List Addr) (b : TensorBatch) (o : Objects TensorData) :
    Option (Except Exception Unit × TensorBatch × Objects TensorData) :=
  if b.capacity.toInt < b.tensors.length + hs.length then none
  else
    match coreObjectIncRefs hs o with
    | (.error e, o) => some (.error e, b, o)
    | (.ok (), o) =>
      let dirtyBegin := if b.dirtyEnd = b.dirtyBegin then b.numTensors else b.dirtyBegin
      let b := { b with tensors := b.tensors ++ hs, dirtyBegin }
      some (.ok (), { b with dirtyEnd := b.numTensors }, o)

def pushTensors (tensors : Nat → Addr) (numTensors : Int32) (b : TensorBatch)
    (o : Objects TensorData) :
    Option (Except Exception Unit × TensorBatch × Objects TensorData) :=
  if numTensors = 0 then some (.ok (), b, o)
  else if numTensors < 0 then
    some (.error (invalidArgument
      s!"Number of tensors cannot be nagative: {numTensors.toInt}"), b, o)
  else if b.numTensors + numTensors > b.capacity then
    some (.error (.nvcv .overflow
      (s!"Adding {numTensors.toInt} tensors to a tensor batch would exceed its capacity (" ++
        s!"{b.capacity.toInt}) by {(b.numTensors + numTensors - b.capacity).toInt}")), b, o)
  else
    let hs := handles tensors numTensors
    match b.setLayoutAndDType o hs with
    | .error e => some (.error e, b, o)
    | .ok b =>
      match b.validateTensors o hs with
      | .error e => some (.error e, b, o)
      | .ok () => appendTensors hs b o

def popTensors (numTensors : Int32) (b : TensorBatch) (o : Objects TensorData) :
    Except Exception Unit × TensorBatch × Objects TensorData :=
  if numTensors < 0 then
    (.error (invalidArgument
      s!"Trying to pop a negative number of tensors: {numTensors.toInt}"), b, o)
  else if numTensors > b.numTensors then
    (.error (.nvcv .underflow
      (s!"Trying to pop {numTensors.toInt} tensors from a tensor batch with " ++
        s!"{b.numTensors.toInt} tensors.")), b, o)
  else
    let kept := b.tensors.length - numTensors.toInt.toNat
    match coreObjectDecRefs (b.tensors.drop kept) o with
    | (.error e, o) => (.error e, b, o)
    | (.ok (), o) =>
      let b := { b with tensors := b.tensors.take kept }
      let b := { b with dirtyEnd := min b.dirtyEnd b.numTensors }
      let b := { b with dirtyBegin := min b.dirtyBegin b.dirtyEnd }
      (.ok (), if b.numTensors = 0 then b.resetAttributes else b, o)

def getTensors (index numTensors : Int32) (b : TensorBatch) (o : Objects TensorData) :
    Option (Except Exception (List Addr) × Objects TensorData) :=
  if index + numTensors > b.numTensors then
    some (.error (.nvcv .overflow
      (s!"Trying to get a tensor on index {(index + numTensors).toInt}" ++
        s!" while the tensor batch contains only {b.numTensors.toInt} tensors.")), o)
  else if index < 0 then
    some (.error (invalidArgument
      s!"Trying to get a tensor with negative index: {index.toInt}"), o)
  else if b.tensors.length < index.toInt.toNat + numTensors.toInt.toNat then none
  else
    let out := (b.tensors.drop index.toInt.toNat).take numTensors.toInt.toNat
    match coreObjectIncRefs out o with
    | (.error e, o) => some (.error e, o)
    | (.ok (), o) => some (.ok out, o)

/-- The loop of `setTensors`, at position `i`. -/
def setLoop : Nat → List Addr → TensorBatch → Objects TensorData →
    Option (Except Exception Unit × TensorBatch × Objects TensorData)
  | _, [], b, o => some (.ok (), b, o)
  | i, h :: hs, b, o =>
    match b.tensors[i]? with
    | none => none
    | some old =>
      match coreObjectDecRef old o with
      | (.error e, o) => some (.error e, b, o)
      | (.ok _, o) =>
        match coreObjectIncRef h o with
        | (.error e, o) => some (.error e, b, o)
        | (.ok _, o) => setLoop (i + 1) hs { b with tensors := b.tensors.set i h } o

def setTensors (index : Int32) (tensors : Nat → Addr) (numTensors : Int32) (b : TensorBatch)
    (o : Objects TensorData) :
    Option (Except Exception Unit × TensorBatch × Objects TensorData) :=
  if index + numTensors > b.numTensors then
    some (.error (.nvcv .overflow
      (s!"Trying to set a tensor on index {(index + numTensors).toInt}" ++
        s!" while the tensor batch contains only {b.numTensors.toInt} tensors.")), b, o)
  else if index < 0 then
    some (.error (invalidArgument
      s!"Trying to set a tensor with negative index: {index.toInt}"), b, o)
  else
    let hs := handles tensors numTensors
    match b.validateTensors o hs with
    | .error e => some (.error e, b, o)
    | .ok () =>
      match setLoop index.toInt.toNat hs b o with
      | none => none
      | some (.error e, b, o) => some (.error e, b, o)
      | some (.ok (), b, o) =>
        if b.dirtyBegin ≠ b.dirtyEnd then
          some (.ok (), { b with
            dirtyBegin := min b.dirtyBegin index
            dirtyEnd := max b.dirtyEnd (index + numTensors) }, o)
        else
          some (.ok (), { b with dirtyBegin := index, dirtyEnd := index + numTensors }, o)

/-! ## The export -/

/-- What the calls of the runtime in `exportData` do. -/
structure ExportCalls where
  eventSynchronize : Except Exception Unit := .ok ()
  memcpyAsync : Except Exception Unit := .ok ()
  eventRecord : Except Exception Unit := .ok ()

/-- The element of a tensor, written over an old one. -/
def writeElement (e : BatchElement) (t : TensorData) : BatchElement where
  data := t.basePtr
  shape := overwrite e.shape (t.shape.toList.take t.rank)
  stride := overwrite e.stride (t.strides.toList.take t.rank)

/-- The loop over the dirty tensors, at position `i`. -/
def fillLoop (o : Objects TensorData) :
    Nat → List Addr → (Nat → BatchElement) → Except Exception Unit × (Nat → BatchElement)
  | _, [], pinned => (.ok (), pinned)
  | i, h :: hs, pinned =>
    match toStaticRef h o with
    | .error e => (.error e, pinned)
    | .ok t => fillLoop o (i + 1) hs (Function.update pinned i (writeElement (pinned i) t))

def data (b : TensorBatch) : TensorBatchData :=
  { rank := b.rank, dtype := b.dtype, layout := b.layout, numTensors := b.numTensors }

def exportData (calls : ExportCalls) (b : TensorBatch) (o : Objects TensorData) :
    Option (Except Exception TensorBatchData × TensorBatch) :=
  if b.dirtyBegin < b.dirtyEnd then
    match calls.eventSynchronize with
    | .error e => some (.error e, b)
    | .ok () =>
      let first := b.dirtyBegin.toInt.toNat
      let last := b.dirtyEnd.toInt.toNat
      if b.dirtyBegin < 0 ∨ b.tensors.length < last then none
      else
        match fillLoop o first ((b.tensors.drop first).take (last - first))
          b.pinnedTensorsBuffer with
        | (.error e, pinned) => some (.error e, { b with pinnedTensorsBuffer := pinned })
        | (.ok (), pinned) =>
          let b := { b with pinnedTensorsBuffer := pinned }
          match calls.memcpyAsync with
          | .error e => some (.error e, b)
          | .ok () =>
            let b := { b with devTensorsBuffer := fun i =>
              if first ≤ i ∧ i < last then pinned i else b.devTensorsBuffer i }
            match calls.eventRecord with
            | .error e => some (.error e, b)
            | .ok () =>
              let b := { b with dirtyBegin := b.dirtyEnd }
              some (.ok b.data, b)
  else some (.ok b.data, b)

def clear (b : TensorBatch) (o : Objects TensorData) :
    Except Exception Unit × TensorBatch × Objects TensorData :=
  match coreObjectDecRefs b.tensors o with
  | (.error e, o) => (.error e, b, o)
  | (.ok (), o) =>
    (.ok (), { b with tensors := [], dirtyBegin := 0, dirtyEnd := 0 }.resetAttributes, o)

/-! ## The calls of the C API -/

inductive Op where
  | pushTensors (tensors : Option (Nat → Addr)) (numTensors : Int32)
  | popTensors (numTensors : Int32)
  | getTensors (index : Int32) (outTensors : Bool) (numTensors : Int32)
  | setTensors (index : Int32) (tensors : Option (Nat → Addr)) (numTensors : Int32)
  | exportData (calls : ExportCalls)
  | clear

inductive Result where
  | threw (e : Exception)
  | done
  | got (tensors : List Addr)
  | exported (data : TensorBatchData)
  deriving DecidableEq

def Result.ofUnit : Except Exception Unit → Result
  | .error e => .threw e
  | .ok () => .done

def nvcvTensorBatchPushTensors (tensors : Option (Nat → Addr)) (numTensors : Int32)
    (b : TensorBatch) (o : Objects TensorData) :
    Option (Except Exception Unit × TensorBatch × Objects TensorData) :=
  match tensors with
  | none => some (.error (invalidArgument "Pointer to tensors must not be NULL"), b, o)
  | some tensors => b.pushTensors tensors numTensors o

/-- The checks `nvcvTensorBatchGetTensors` and `nvcvTensorBatchSetTensors` make. -/
def checkRange (index numTensors : Int32) : Except Exception Unit :=
  if index < 0 then .error (invalidArgument "Index cannot be negative")
  else if numTensors < 0 then .error (invalidArgument "Number of tensors cannot be negative")
  else .ok ()

def nvcvTensorBatchGetTensors (index : Int32) (outTensors : Bool) (numTensors : Int32)
    (b : TensorBatch) (o : Objects TensorData) :
    Option (Except Exception (List Addr) × Objects TensorData) :=
  if outTensors = false then
    some (.error (invalidArgument "Pointer to output tensors must not be NULL"), o)
  else
    match checkRange index numTensors with
    | .error e => some (.error e, o)
    | .ok () => b.getTensors index numTensors o

def nvcvTensorBatchSetTensors (index : Int32) (tensors : Option (Nat → Addr))
    (numTensors : Int32) (b : TensorBatch) (o : Objects TensorData) :
    Option (Except Exception Unit × TensorBatch × Objects TensorData) :=
  match tensors with
  | none => some (.error (invalidArgument "Pointer to tensors must not be NULL"), b, o)
  | some tensors =>
    match checkRange index numTensors with
    | .error e => some (.error e, b, o)
    | .ok () => b.setTensors index tensors numTensors o

/-- A call: its result, the batch and the tensors afterwards. -/
def exec (b : TensorBatch) (o : Objects TensorData) :
    Op → Option (Result × TensorBatch × Objects TensorData)
  | .pushTensors tensors numTensors =>
    (nvcvTensorBatchPushTensors tensors numTensors b o).map fun r => (.ofUnit r.1, r.2)
  | .popTensors numTensors =>
    let r := b.popTensors numTensors o
    some (.ofUnit r.1, r.2)
  | .getTensors index outTensors numTensors =>
    (nvcvTensorBatchGetTensors index outTensors numTensors b o).map fun r =>
      match r with
      | (.error e, o) => (.threw e, b, o)
      | (.ok out, o) => (.got out, b, o)
  | .setTensors index tensors numTensors =>
    (nvcvTensorBatchSetTensors index tensors numTensors b o).map fun r => (.ofUnit r.1, r.2)
  | .exportData calls =>
    (b.exportData calls o).map fun r =>
      match r with
      | (.error e, b) => (.threw e, b, o)
      | (.ok data, b) => (.exported data, b, o)
  | .clear =>
    let r := b.clear o
    some (.ofUnit r.1, r.2)

/-! ## Batches among other owners of the tensors -/

/-- A batch, the tensors, and the references on each that others than the batch hold. -/
structure Sys where
  batch : TensorBatch
  objs : Objects TensorData
  owned : Addr → Nat

/-- A call on the batch with its result, or what another owner does: it creates a tensor, takes
another reference on one, gives one of its references back. -/
inductive Event where
  | call (op : Op) (result : Result)
  | create (handle : Addr) (t : TensorData)
  | incRef (handle : Addr)
  | decRef (handle : Addr)

/-- The handles a call gives its caller, each with a reference. -/
def Result.given : Result → List Addr
  | .got tensors => tensors
  | _ => []

def Sys.Step (s : Sys) : Event → Sys → Prop
  | .call op result, s' =>
    exec s.batch s.objs op = some (result, s'.batch, s'.objs) ∧
      s'.owned = fun h => s.owned h + result.given.count h
  | .create h t, s' =>
    h ≠ 0 ∧ s.objs.obj h = none ∧
      s' = { s with objs := s.objs.add h t, owned := Function.update s.owned h (s.owned h + 1) }
  | .incRef h, s' =>
    ∃ objs, s.objs.acquire h = some objs ∧
      s' = { s with objs, owned := Function.update s.owned h (s.owned h + 1) }
  | .decRef h, s' =>
    0 < s.owned h ∧ ∃ objs, s.objs.release h = some objs ∧
      s' = { s with objs, owned := Function.update s.owned h (s.owned h - 1) }

/-- A new batch; others hold all references on the tensors there are. -/
structure Sys.New (s : Sys) : Prop where
  batch : ∃ capacity pinned dev, s.batch =
    { capacity, pinnedTensorsBuffer := pinned, devTensorsBuffer := dev }
  null : s.objs.refs 0 = 0
  owned : ∀ h, s.owned h = s.objs.refs h

end TensorBatch

end Nvcv
