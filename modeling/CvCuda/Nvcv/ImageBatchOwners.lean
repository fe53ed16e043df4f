import CvCuda.Lib.Owners
import CvCuda.Nvcv.ImageBatchVarShape

/-! # Batches of images among other owners

`Shared` is a batch beside the references others hold on the images. A callback of `pushImages`
belongs to one of these others (`Delivers`): it hands a reference over with each handle, which the
batch takes over unless the push throws; the owner then has what it handed over.
-/

namespace Nvcv.ImageBatchVarShape

/-- The handles at the positions of a batch. -/
def imgHandles (b : ImageBatchVarShape) : List Addr := b.images.map BatchImage.handle

/-- The calls of a callback from the `k`-th on, and the handles a push takes from it, each with a
reference of its owner. -/
inductive Delivers (cbPushImage : PushImageFunc) :
    (room k : Nat) → Owned Addr Image → List Addr → Owned Addr Image → Prop where
  | threw {room k : Nat} {w w' : Owned Addr Image} {e : Exception}
      (call : cbPushImage k w.objs = (.error e, w'.objs)) (steps : OwnerSteps 0 w w') :
      Delivers cbPushImage room k w [] w'
  | stop {room k : Nat} {w w' : Owned Addr Image} (call : cbPushImage k w.objs = (.ok 0, w'.objs))
      (steps : OwnerSteps 0 w w') : Delivers cbPushImage room k w [] w'
  | refused {room k : Nat} {w w' : Owned Addr Image} {h : Addr}
      (call : cbPushImage k w.objs = (.ok h, w'.objs)) (ne : h ≠ 0) (steps : OwnerSteps 0 w w')
      (refused : room = 0 ∨ pushable h w'.objs = none) : Delivers cbPushImage room k w [] w'
  | took {room k : Nat} {w w₁ w' : Owned Addr Image} {h : Addr} {hs : List Addr}
      (call : cbPushImage k w.objs = (.ok h, w₁.objs)) (ne : h ≠ 0) (steps : OwnerSteps 0 w w₁)
      (own : 0 < w₁.owned h) (taken : pushable h w₁.objs ≠ none)
      (rest : Delivers cbPushImage room (k + 1)
        ⟨w₁.objs, Function.update w₁.owned h (w₁.owned h - 1)⟩ hs w') :
      Delivers cbPushImage (room + 1) k w (h :: hs) w'

/-- A batch, the images, and the references on each that others than the batch hold. -/
structure Shared where
  batch : ImageBatchVarShape
  images : Owned Addr Image

/-- A call on the batch with its result, or a step of another owner. -/
inductive Shared.Event where
  | call (op : Op) (result : Result)
  | owner

/-- The handles a call gives its caller, each with a reference. -/
def Result.given : Result → List Addr
  | .got images => images.filter (· ≠ 0)
  | _ => []

/-- The references of others after a call. -/
def Shared.Left (s : Shared) : Op → Result → Owned Addr Image → Prop
  | .pushImagesCallback (.ok ()) (some cbPushImage), result, w' =>
    ∃ hs w, Delivers cbPushImage s.batch.room 0 s.images hs w ∧ w'.objs = w.objs ∧
      w'.owned = if result = .done then w.owned else fun h => w.owned h + hs.count h
  | _, result, w' => w'.owned = fun h => s.images.owned h + result.given.count h

def Shared.Step (print : ImageFormat → String) (s : Shared) : Shared.Event → Shared → Prop
  | .call op result, s' =>
    exec print s.batch s.images.objs op = some (result, s'.batch, s'.images.objs) ∧
      s.Left op result s'.images
  | .owner, s' => s'.batch = s.batch ∧ OwnerStep 0 s.images s'.images

/-- A new batch; others hold all references on the images there are. -/
structure Shared.New (s : Shared) : Prop where
  batch : ∃ capacity devImages devFormats, 0 ≤ capacity ∧ s.batch =
    { capacity, devImagesBuffer := devImages, devFormatsBuffer := devFormats }
  images : Accounted 0 (fun _ => 0) s.images

end Nvcv.ImageBatchVarShape
