import CvCuda.Lib.Aggregate
import CvCuda.Nvcv.CoreObject
import CvCuda.Nvcv.Image

/-! # Batches of images of varying shape

`ImageBatchVarShape` of `nvcv/priv_musa/ImageBatchVarShape.cpp`. `int32_t` is `Int32` where it can
wrap; a call that reads or writes its buffers outside the batch's images has no outcome (`none`).
The elements of the device buffers are those all copies enqueued so far leave there, and what the
runtime's calls answer is an argument of the functions that make them. What `operator<<` prints
for a format is an argument of the pushes.

`Sys` adds the objects, which others may change, and the images the batch should have.
-/

namespace Nvcv

/-- What the buffers of a batch have at a position below `m_numImages`. -/
structure BatchImage where
  buffer : ImageBufferStrided
  format : ImageFormat
  handle : Addr

/-- `images` are the buffers below `m_numImages`; nothing reads the rest. -/
structure ImageBatchVarShape where
  capacity : Int32
  images : List BatchImage := []
  dirtyStartingFromIndex : Nat := 0
  cacheMaxSize : Option Size2D := some ⟨0, 0⟩
  cacheUniqueFormat : Option ImageFormat := none
  devImagesBuffer : Nat → ImageBufferStrided
  devFormatsBuffer : Nat → ImageFormat

/-- `NVCVImageBatchData`; its buffers are those of the batch. -/
structure ImageBatchData where
  numImages : Int32
  maxWidth : Int32
  maxHeight : Int32
  uniqueFormat : ImageFormat
  deriving DecidableEq

namespace ImageBatchVarShape

def numImages (b : ImageBatchVarShape) : Int32 := Int32.ofNat b.images.length

/-- The positions that are free. -/
def room (b : ImageBatchVarShape) : Nat := b.capacity.toInt.toNat - b.images.length

/-- The handles a caller passes as an array and its length. -/
def handles (images : Nat → Addr) (numImages : Int32) : List Addr :=
  (List.range numImages.toInt.toNat).map images

def invalidArgument (msg : String) : Exception := .nvcv .invalidArgument msg

/-! ## The attributes -/

/-- `std::max` of both dimensions. -/
def maxSizes (s t : Size2D) : Size2D := ⟨max s.w t.w, max s.h t.h⟩

/-- The body of the loop of `doUpdateCache`, on the caches. -/
def updateCaches (c : Size2D × Option ImageFormat) (img : BatchImage) :
    Size2D × Option ImageFormat :=
  (maxSizes c.1 ⟨img.buffer.planes[0].width, img.buffer.planes[0].height⟩,
    match c.2 with
    | none => some img.format
    | some f => if f ≠ imageFormatNone ∧ f ≠ img.format then some imageFormatNone else some f)

def doUpdateCache (b : ImageBatchVarShape) : ImageBatchVarShape :=
  if b.cacheMaxSize.isSome ∧ b.cacheUniqueFormat.isSome then b
  else
    let c := b.images.foldl updateCaches (b.cacheMaxSize.getD ⟨0, 0⟩, b.cacheUniqueFormat)
    { b with cacheMaxSize := some c.1, cacheUniqueFormat := some (c.2.getD imageFormatNone) }

def maxSize (b : ImageBatchVarShape) : Option (Size2D × ImageBatchVarShape) :=
  let b := b.doUpdateCache
  b.cacheMaxSize.map fun s => (s, b)

def uniqueFormat (b : ImageBatchVarShape) : Option (ImageFormat × ImageBatchVarShape) :=
  let b := b.doUpdateCache
  b.cacheUniqueFormat.map fun f => (f, b)

/-! ## The export -/

/-- What the calls of the runtime in `exportData` do. -/
structure ExportCalls where
  streamWaitEvent : Except Exception Unit := .ok ()
  memcpyImages : Except Exception Unit := .ok ()
  memcpyFormats : Except Exception Unit := .ok ()
  eventRecord : Except Exception Unit := .ok ()

/-- A buffer after the copy of the dirty part of a list to it. -/
def copyDirty {α : Type} (first : Nat) (host : List α) (dev : Nat → α) : Nat → α := fun i =>
  if first ≤ i then host.getD i (dev i) else dev i

/-- The copies of `exportData`. -/
def uploadDirty (calls : ExportCalls) (b : ImageBatchVarShape) :
    Except Exception Unit × ImageBatchVarShape :=
  match calls.streamWaitEvent with
  | .error e => (.error e, b)
  | .ok () =>
    match calls.memcpyImages with
    | .error e => (.error e, b)
    | .ok () =>
      let host := b.images.map BatchImage.buffer
      let b :=
        { b with devImagesBuffer := copyDirty b.dirtyStartingFromIndex host b.devImagesBuffer }
      match calls.memcpyFormats with
      | .error e => (.error e, b)
      | .ok () =>
        let host := b.images.map BatchImage.format
        let b :=
          { b with devFormatsBuffer := copyDirty b.dirtyStartingFromIndex host b.devFormatsBuffer }
        match calls.eventRecord with
        | .error e => (.error e, b)
        | .ok () => (.ok (), { b with dirtyStartingFromIndex := b.images.length })

/-- The end of `exportData`, from `doUpdateCache` on. -/
def exportAttributes (b : ImageBatchVarShape) :
    Option (Except Exception ImageBatchData × ImageBatchVarShape) :=
  let b := b.doUpdateCache
  match b.cacheMaxSize, b.cacheUniqueFormat with
  | some s, some f => some (.ok ⟨b.numImages, s.w, s.h, f⟩, b)
  | _, _ => none

def exportData (calls : ExportCalls) (b : ImageBatchVarShape) :
    Option (Except Exception ImageBatchData × ImageBatchVarShape) :=
  if b.dirtyStartingFromIndex < b.images.length then
    match uploadDirty calls b with
    | (.error e, b) => some (.error e, b)
    | (.ok (), b) => b.exportAttributes
  else b.exportAttributes

/-! ## Pushing images -/

section
variable (print : ImageFormat → String)

/-- The checks of `doPushImage`. -/
def checkImage (img : Image) : Except Exception Unit :=
  if img.format.memLayout ≠ memLayoutPL then
    .error (invalidArgument (s!"Format of image to be added, {print img.format}" ++
      s!" must be pitch-linear, not {memLayoutName img.format.memLayout}"))
  else if img.bufferType ≠ .stridedCuda then
    .error (invalidArgument "Data buffer of image to be added isn't gpu-accessible")
  else .ok ()

/-- The end of `doPushImage`, from its checks on. -/
def storeImage (handle : Addr) (img : Image) (b : ImageBatchVarShape) : ImageBatchVarShape :=
  let b := { b with images := b.images ++ [BatchImage.mk img.strided img.format handle] }
  if b.images.length = 1 then
    { b with cacheMaxSize := some img.size, cacheUniqueFormat := some img.format }
  else
    { b with
      cacheMaxSize := b.cacheMaxSize.map fun s => maxSizes s img.size
      cacheUniqueFormat :=
        b.cacheUniqueFormat.map fun f => if f ≠ img.format then imageFormatNone else f }

def doPushImage (handle : Addr) (b : ImageBatchVarShape) (o : Objects Image) :
    Option (Except Exception Unit × ImageBatchVarShape) :=
  if b.capacity.toInt ≤ b.images.length then none
  else
    match toStaticRef handle o with
    | .error e => some (.error e, b)
    | .ok img =>
      match checkImage print img with
      | .error e => some (.error e, b)
      | .ok () => some (.ok (), b.storeImage handle img)

/-- The loop of `pushImages`. -/
def pushLoop : List Addr → ImageBatchVarShape → Objects Image →
    Option (Except Exception Unit × ImageBatchVarShape × Objects Image)
  | [], b, o => some (.ok (), b, o)
  | h :: hs, b, o =>
    match doPushImage print h b o with
    | none => none
    | some (.error e, b) => some (.error e, b, o)
    | some (.ok (), b) =>
      match if h = 0 then (.ok 0, o) else coreObjectIncRef h o with
      | (.error e, o) => some (.error e, b, o)
      | (.ok _, o) => pushLoop hs b o

/-- The `catch` of both `pushImages`: `m_numImages` is set back. -/
def restoreNumImages (old : ImageBatchVarShape) :
    Except Exception Unit × ImageBatchVarShape × Objects Image →
      Except Exception Unit × ImageBatchVarShape × Objects Image
  | (.error e, b, o) => (.error e, { b with images := b.images.take old.images.length }, o)
  | (.ok (), b, o) => (.ok (), b, o)

/-- `pushImages` of an array. -/
def pushImages (eventSynchronize : Except Exception Unit) (images : Option (Nat → Addr))
    (numImages : Int32) (b : ImageBatchVarShape) (o : Objects Image) :
    Option (Except Exception Unit × ImageBatchVarShape × Objects Image) :=
  match images with
  | none => some (.error (invalidArgument "Images buffer cannot be NULL"), b, o)
  | some images =>
    if numImages + b.numImages > b.capacity then
      some (.error (.nvcv .overflow
        (s!"Adding {numImages.toInt} images to image batch would make its size " ++
          s!"{(numImages + b.numImages).toInt} exceed its capacity {b.capacity.toInt}")), b, o)
    else
      match eventSynchronize with
      | .error e => some (.error e, b, o)
      | .ok () => (pushLoop print (handles images numImages) b o).map (restoreNumImages b)

/-- A callback and its context: what the `k`-th call returns, and what it does to the objects. -/
abbrev PushImageFunc := Nat → Objects Image → Except Exception Addr × Objects Image

/-- The loop of `pushImages` with a callback, at its `k`-th call; `room` is
`m_reqs.capacity - m_numImages`. -/
def callbackLoop (cbPushImage : PushImageFunc) : (room k : Nat) → ImageBatchVarShape →
    Objects Image → Option (Except Exception Unit × ImageBatchVarShape × Objects Image)
  | room, k, b, o =>
    match cbPushImage k o with
    | (.error e, o) => some (.error e, b, o)
    | (.ok h, o) =>
      if h = 0 then some (.ok (), b, o)
      else
        match room with
        | 0 =>
          some (.error (.nvcv .overflow
            (s!"Adding one more image to image batch would make its size exceed its capacity " ++
              s!"{b.capacity.toInt}")), b, o)
        | room + 1 =>
          match doPushImage print h b o with
          | none => none
          | some (.error e, b) => some (.error e, b, o)
          | some (.ok (), b) => callbackLoop cbPushImage room (k + 1) b o

/-- `pushImages` with a callback. -/
def pushImagesCallback (eventSynchronize : Except Exception Unit)
    (cbPushImage : Option PushImageFunc) (b : ImageBatchVarShape) (o : Objects Image) :
    Option (Except Exception Unit × ImageBatchVarShape × Objects Image) :=
  match cbPushImage with
  | none =>
    some (.error (invalidArgument
      "Callback function that adds images to the image batch cannot be NULL"), b, o)
  | some cbPushImage =>
    match eventSynchronize with
    | .error e => some (.error e, b, o)
    | .ok () =>
      (callbackLoop print cbPushImage b.room 0 b o).map
        (restoreNumImages b)

end

/-! ## Removing and getting images -/

def popImages (numImages : Int32) (b : ImageBatchVarShape) (o : Objects Image) :
    Except Exception Unit × ImageBatchVarShape × Objects Image :=
  if numImages < 0 then
    (.error (invalidArgument "The number of images to remove cannot be negative"), b, o)
  else if b.numImages - numImages < 0 then
    (.error (.nvcv .underflow (s!"Cannot remove more images, {numImages.toInt}, than the " ++
      s!"number of images, {b.numImages.toInt}, in the image batch")), b, o)
  else
    let kept := b.images.length - numImages.toInt.toNat
    match coreObjectDecRefs ((b.images.drop kept).map BatchImage.handle).reverse o with
    | (.error e, o) => (.error e, b, o)
    | (.ok (), o) =>
      let b := { b with images := b.images.take kept }
      let b := { b with
        dirtyStartingFromIndex := min b.dirtyStartingFromIndex b.images.length
        cacheMaxSize := none }
      (.ok (), if b.images.length = 0 then { b with cacheUniqueFormat := none } else b, o)

def getImages (begIndex numImages : Int32) (b : ImageBatchVarShape) (o : Objects Image) :
    Option (Except Exception (List Addr) × Objects Image) :=
  if begIndex < 0 then
    some (.error (invalidArgument "Image index cannot be negative"), o)
  else if begIndex + numImages > b.numImages then
    some (.error (.nvcv .overflow "Cannot get images past end of image batch"), o)
  else
    let out := ((b.images.drop begIndex.toInt.toNat).take numImages.toInt.toNat).map
      BatchImage.handle
    match coreObjectIncRefs (out.filter (· ≠ 0)) o with
    | (.error e, o) => some (.error e, o)
    | (.ok (), o) =>
      -- a longer range goes on behind the last image
      if 0 < numImages ∧ b.images.length < begIndex.toInt.toNat + numImages.toInt.toNat then none
      else some (.ok out, o)

/-- The loop of `clear`: the handles it gets to are null afterwards. -/
def clearLoop : List BatchImage → Objects Image →
    Except Exception Unit × List BatchImage × Objects Image
  | [], o => (.ok (), [], o)
  | img :: imgs, o =>
    match coreObjectDecRef img.handle o with
    | (.error e, o) => (.error e, img :: imgs, o)
    | (.ok _, o) =>
      let r := clearLoop imgs o
      (r.1, { img with handle := 0 } :: r.2.1, r.2.2)

def clear (b : ImageBatchVarShape) (o : Objects Image) :
    Except Exception Unit × ImageBatchVarShape × Objects Image :=
  match clearLoop b.images o with
  | (.error e, images, o) => (.error e, { b with images }, o)
  | (.ok (), _, o) =>
    (.ok (), { b with
      images := []
      dirtyStartingFromIndex := 0
      cacheMaxSize := some ⟨0, 0⟩
      cacheUniqueFormat := none }, o)

/-! ## The calls -/

inductive Op where
  | pushImages (eventSynchronize : Except Exception Unit) (images : Option (Nat → Addr))
    (numImages : Int32)
  | pushImagesCallback (eventSynchronize : Except Exception Unit)
    (cbPushImage : Option PushImageFunc)
  | popImages (numImages : Int32)
  | getImages (begIndex : Int32) (outImages : Bool) (numImages : Int32)
  | clear
  | maxSize
  | uniqueFormat
  | exportData (calls : ExportCalls)

inductive Result where
  | threw (e : Exception)
  | done
  | got (images : List Addr)
  | size (s : Size2D)
  | format (f : ImageFormat)
  | exported (data : ImageBatchData)
  deriving DecidableEq

def Result.ofUnit : Except Exception Unit → Result
  | .error e => .threw e
  | .ok () => .done

def nvcvImageBatchVarShapeGetImages (begIndex : Int32) (outImages : Bool) (numImages : Int32)
    (b : ImageBatchVarShape) (o : Objects Image) :
    Option (Except Exception (List Addr) × Objects Image) :=
  if outImages = false then
    some (.error (invalidArgument "Pointer to output handle cannot be NULL"), o)
  else b.getImages begIndex numImages o

/-- A call: its result, the batch and the objects afterwards. -/
def exec (print : ImageFormat → String) (b : ImageBatchVarShape) (o : Objects Image) :
    Op → Option (Result × ImageBatchVarShape × Objects Image)
  | .pushImages sync images numImages =>
    (pushImages print sync images numImages b o).map fun r => (.ofUnit r.1, r.2)
  | .pushImagesCallback sync cb =>
    (pushImagesCallback print sync cb b o).map fun r => (.ofUnit r.1, r.2)
  | .popImages numImages =>
    let r := b.popImages numImages o
    some (.ofUnit r.1, r.2)
  | .getImages begIndex outImages numImages =>
    (nvcvImageBatchVarShapeGetImages begIndex outImages numImages b o).map fun r =>
      match r with
      | (.error e, o) => (.threw e, b, o)
      | (.ok out, o) => (.got out, b, o)
  | .clear =>
    let r := b.clear o
    some (.ofUnit r.1, r.2)
  | .maxSize => b.maxSize.map fun r => (.size r.1, r.2, o)
  | .uniqueFormat => b.uniqueFormat.map fun r => (.format r.1, r.2, o)
  | .exportData calls =>
    (b.exportData calls).map fun r =>
      match r with
      | (.error e, b) => (.threw e, b, o)
      | (.ok data, b) => (.exported data, b, o)

/-! ## The images of a batch -/

/-- The maximum of the sizes, by component. -/
def maxSizeOf (imgs : List Image) : Size2D :=
  ⟨Aggregate.maximum 0 (imgs.map fun img => img.size.w),
    Aggregate.maximum 0 (imgs.map fun img => img.size.h)⟩

/-- The format all images have. -/
def uniqueFormatOf (imgs : List Image) : ImageFormat :=
  Aggregate.common imageFormatNone (imgs.map Image.format)

/-- The image `doPushImage` adds for a handle. -/
def pushable (handle : Addr) (o : Objects Image) : Option Image :=
  match o.obj handle with
  | none => none
  | some img =>
    if img.format.memLayout = memLayoutPL ∧ img.bufferType = .stridedCuda then some img else none

/-- The images of an array that `pushImages` adds, and whether these are all. -/
def pushed (o : Objects Image) : List Addr → List Image × Bool
  | [] => ([], true)
  | h :: hs =>
    match pushable h o with
    | none => ([], false)
    | some img => (img :: (pushed o hs).1, (pushed o hs).2)

/-- The images a callback hands over and `pushImages` adds to `room` positions, and whether these
are all. -/
def pushedBack (cbPushImage : PushImageFunc) : (room k : Nat) → Objects Image → List Image × Bool
  | room, k, o =>
    match cbPushImage k o with
    | (.error _, _) => ([], false)
    | (.ok h, o) =>
      if h = 0 then ([], true)
      else
        match room with
        | 0 => ([], false)
        | room + 1 =>
          match pushable h o with
          | none => ([], false)
          | some img =>
            let r := pushedBack cbPushImage room (k + 1) o
            (img :: r.1, r.2)

/-- A batch, the objects, and the images that the calls so far leave in the batch. -/
structure Sys where
  batch : ImageBatchVarShape
  objs : Objects Image
  images : List Image

/-- A call on the batch with its result, or what others do with the objects. -/
inductive Event where
  | call (op : Op) (result : Result)
  | others (objs : Objects Image)

/-- The images a call leaves in the batch. -/
def Sys.imagesAfter (s : Sys) : Op → Result → List Image
  | .pushImages _ (some images) numImages, .done =>
    s.images ++ (pushed s.objs (handles images numImages)).1
  | .pushImagesCallback _ (some cbPushImage), .done =>
    s.images ++ (pushedBack cbPushImage s.batch.room 0 s.objs).1
  | .popImages numImages, .done => s.images.take (s.images.length - numImages.toInt.toNat)
  | .clear, .done => []
  | _, _ => s.images

def Sys.Step (print : ImageFormat → String) (s : Sys) : Event → Sys → Prop
  | .call op result, s' =>
    exec print s.batch s.objs op = some (result, s'.batch, s'.objs) ∧
      s'.images = s.imagesAfter op result
  | .others objs, s' => s' = { s with objs }

/-- A new batch. -/
structure Sys.New (s : Sys) : Prop where
  batch : ∃ capacity devImages devFormats, 0 ≤ capacity ∧ s.batch =
    { capacity, devImagesBuffer := devImages, devFormatsBuffer := devFormats }
  images : s.images = []

end ImageBatchVarShape

end Nvcv
