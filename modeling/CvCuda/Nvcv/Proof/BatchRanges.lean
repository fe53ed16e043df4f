import CvCuda.Nvcv.Proof.ImageBatchMirror
import CvCuda.Nvcv.Proof.ImageBatchRanges
import CvCuda.Nvcv.Proof.TensorBatchRanges

/-! # The ranges of calls on batches

* `ranges_safe_iff`: after every run, exactly when a call throws or works on positions of the batch.
* `range_wraps`: calls that do neither.
-/

namespace Nvcv

/-- **Ranges.** In every state a batch comes to, a call that takes a range throws or works on
positions of the batch only, exactly when its sum of 32 bits does not wrap or the call is refused
before it works on a position outside. -/
theorem ranges_safe_iff (print : ImageFormat → String) :
    (∀ {s s' : TensorBatch.Sys} {es : List TensorBatch.Event}, s.New →
      Run TensorBatch.Sys.Step s es s' → ∀ op : TensorBatch.Op, op.Ranged →
        (TensorBatch.Safe s'.batch s'.objs op ↔ TensorBatch.RangeFits s'.batch s'.objs op)) ∧
      ∀ {s s' : ImageBatchVarShape.Sys} {es : List ImageBatchVarShape.Event}, s.New →
        Run (ImageBatchVarShape.Sys.Step print) s es s' → ∀ op : ImageBatchVarShape.Op, op.Ranged →
          (ImageBatchVarShape.Safe print s'.batch s'.objs op ↔
            ImageBatchVarShape.RangeFits s'.batch s'.objs op) := by
  refine ⟨fun hn hr op hop => ?_, fun {s s' es} hn hr op hop => ?_⟩
  · exact TensorBatch.safe_iff (hr.inv (P := fun s => TensorBatch.Kept s.batch s.objs)
      (fun _ _ _ hk hs => TensorBatch.step_kept hk hs) hn.kept) hop
  · have hm : ImageBatchVarShape.Mirrored s'.batch s'.images :=
      hr.inv (P := fun s => ImageBatchVarShape.Mirrored s.batch s.images)
        (fun _ _ _ h hs => ImageBatchVarShape.step_mirrored h hs) hn.mirrored
    exact ImageBatchVarShape.safe_iff hm.fits hop

/-- New batches: a range of tensors whose end wraps, a range of images that has none. -/
theorem ranges_safe_new :
    (¬TensorBatch.Safe TensorBatch.threeTensors.batch TensorBatch.threeTensors.objs
        (.getTensors 2147483647 true 1)) ∧
      ImageBatchVarShape.Safe (fun _ => "") ImageBatchVarShape.emptyBatch.batch
        ImageBatchVarShape.emptyBatch.objs (.getImages 0 true (-1)) := by
  constructor
  · rw [(ranges_safe_iff fun _ => "").1 TensorBatch.threeTensors_new (.nil _)
      (.getTensors 2147483647 true 1) trivial]
    intro h
    exact absurd (h (by decide) (by decide)) (by decide)
  · rw [(ranges_safe_iff _).2 ImageBatchVarShape.emptyBatch_new (.nil _) (.getImages 0 true (-1))
      trivial]
    intro _ hw
    exact absurd hw (by decide)

/-- A range whose end is `2 ^ 31` passes the check of a new batch, and is behind its end. -/
theorem range_wraps :
    (TensorBatch.threeTensors.New ∧
        ¬TensorBatch.Safe TensorBatch.threeTensors.batch TensorBatch.threeTensors.objs
          (.getTensors 2147483647 true 1)) ∧
      ImageBatchVarShape.emptyBatch.New ∧
        ¬ImageBatchVarShape.Safe (fun _ => "") ImageBatchVarShape.emptyBatch.batch
          ImageBatchVarShape.emptyBatch.objs (.getImages 2147483647 true 1) := by
  refine ⟨⟨TensorBatch.threeTensors_new, ?_⟩, ImageBatchVarShape.emptyBatch_new, ?_⟩
  · rintro ⟨r, b', o', h, -⟩
    cases h
  · rintro ⟨r, b', o', h, -⟩
    cases h

end Nvcv
