import CvCuda.Nvcv.Proof.ImageBatchStreams
import CvCuda.Nvcv.Proof.TensorBatchStreams

/-! # Exports on any streams

Whether the stream of an export comes after the copies that last wrote the elements the export
returns, for both batches and every history of their calls. An export that finds nothing dirty
neither copies nor waits.

* `exports_delivered_iff`: exactly when it does.
* `clean_export_unordered`: two exports on two streams, the second of which does not.
-/

namespace Nvcv

open StreamOrder

/-- **Exports on any streams.** In every run in which the runtime refuses nothing between the first
copy of an export and its event record, an export that returns data has the elements of its data
ordered before its stream if and only if it found something dirty, or its stream is the one of
the last export that copied, or the host has waited for that export, or all elements that export
copied have been removed. -/
theorem exports_delivered_iff {S : Type} :
    (∀ (print : ImageFormat → String) (s s' s'' : ImageBatchVarShape.Streamed S)
        (es : List (ImageBatchVarShape.Event × S)) (calls : ImageBatchVarShape.ExportCalls)
        (data : ImageBatchData) (stream : S), s.New →
      Run (ImageBatchVarShape.Streamed.WholeStep print) s es s' →
      s'.WholeStep print (.call (.exportData calls) (.exported data), stream) s'' →
      (Delivered s''.history stream [.images, .formats] data.numImages.toInt.toNat ↔
        s'.sys.batch.dirtyStartingFromIndex < s'.sys.batch.images.length ∨
          Reaches s'.history stream s'.sys.batch.images.length)) ∧
      ∀ (s s' s'' : TensorBatch.Streamed S) (es : List (TensorBatch.Event × S))
        (calls : TensorBatch.ExportCalls) (data : TensorBatchData) (stream : S), s.New →
      Run TensorBatch.Streamed.WholeStep s es s' →
      s'.WholeStep (.call (.exportData calls) (.exported data), stream) s'' →
      (Delivered s''.history stream [.tensors] data.numTensors.toInt.toNat ↔
        s'.sys.batch.dirtyBegin < s'.sys.batch.dirtyEnd ∨
          Reaches s'.history stream s'.sys.batch.tensors.length) := by
  refine ⟨fun print s s' s'' es calls data stream hn hr hs => ?_,
    fun s s' s'' es calls data stream hn hr hs => ?_⟩
  · have hS : ImageBatchVarShape.Streams s' :=
      hr.inv (fun _ _ _ h hs => ImageBatchVarShape.step_streams h hs) hn.streams
    obtain ⟨hnum, hiff⟩ := ImageBatchVarShape.export_delivered_iff hS hs
    rw [hnum]
    exact hiff
  · have hS : TensorBatch.Streams s' :=
      hr.inv (fun _ _ _ h hs => TensorBatch.step_streams h hs) hn.streams
    obtain ⟨hnum, hiff⟩ := TensorBatch.export_delivered_iff hS hs
    rw [hnum]
    exact hiff

/-! ## Two streams -/

namespace ImageBatchVarShape

/-- The state after a call, with the commands of the call. -/
def Streamed.after {S : Type} (s : Streamed S) (op : Op) (stream : S) : Streamed S :=
  ⟨s.sys.after op, s.history ++ s.sys.batch.commands stream op⟩

theorem streamed_after_step {S : Type} {s : Streamed S} {op : Op} {r : Result} {stream : S}
    (h : (exec (fun _ => "") s.sys.batch s.sys.objs op).map Prod.fst = some r)
    (hw : ∀ calls, op = .exportData calls → calls.Whole) :
    s.WholeStep (fun _ => "") (.call op r, stream) (s.after op stream) := by
  refine ⟨⟨after_step h, rfl⟩, fun calls x heq => hw calls ?_⟩
  injection heq

def pushGray : Op := .pushImages (.ok ()) (some fun _ => 16#64) 1

/-- An image is pushed, and exported on one of two streams. -/
def grayExported : Streamed Bool :=
  Streamed.after (Streamed.after ⟨emptyBatch, []⟩ pushGray false) (.exportData {}) false

theorem grayExported_run : ∃ es,
    Run (Streamed.WholeStep fun _ => "") (⟨emptyBatch, []⟩ : Streamed Bool) es grayExported := by
  have h₁ : (⟨emptyBatch, []⟩ : Streamed Bool).WholeStep (fun _ => "")
      (.call pushGray .done, false) (Streamed.after ⟨emptyBatch, []⟩ pushGray false) :=
    streamed_after_step rfl fun _ heq => by cases heq
  have h₂ : (Streamed.after ⟨emptyBatch, []⟩ pushGray false).WholeStep (fun _ => "")
      (.call (.exportData {}) (.exported ⟨1, 4, 4, gray.format⟩), false) grayExported := by
    refine streamed_after_step rfl fun calls heq => ?_
    cases heq
    exact fun _ _ => ⟨rfl, rfl⟩
  exact ⟨_, .cons h₁ (.cons h₂ (.nil _))⟩

theorem grayExported_again (stream : Bool) : grayExported.WholeStep (fun _ => "")
    (.call (.exportData {}) (.exported ⟨1, 4, 4, gray.format⟩), stream)
    (grayExported.after (.exportData {}) stream) := by
  refine streamed_after_step rfl fun calls heq => ?_
  cases heq
  exact fun _ _ => ⟨rfl, rfl⟩

end ImageBatchVarShape

namespace TensorBatch

/-- The state after a call, with the commands of the call. -/
def Streamed.after {S : Type} (s : Streamed S) (op : Op) (stream : S) : Streamed S :=
  ⟨s.sys.after op, s.history ++ s.sys.batch.commands stream s.sys.objs op⟩

theorem streamed_after_step {S : Type} {s : Streamed S} {op : Op} {r : Result} {stream : S}
    (h : (exec s.sys.batch s.sys.objs op).map Prod.fst = some r)
    (hw : ∀ calls, op = .exportData calls → calls.Whole) :
    s.WholeStep (.call op r, stream) (s.after op stream) := by
  refine ⟨⟨after_step h, rfl⟩, fun calls x heq => hw calls ?_⟩
  injection heq

/-- A tensor is pushed, and exported on one of two streams. -/
def oneExported : Streamed Bool :=
  Streamed.after (Streamed.after ⟨threeTensors, []⟩ pushOne false) (.exportData {}) false

theorem oneExported_run : ∃ es,
    Run Streamed.WholeStep (⟨threeTensors, []⟩ : Streamed Bool) es oneExported := by
  have h₁ : (⟨threeTensors, []⟩ : Streamed Bool).WholeStep (.call pushOne .done, false)
      (Streamed.after ⟨threeTensors, []⟩ pushOne false) :=
    streamed_after_step rfl fun _ heq => by cases heq
  have h₂ : (Streamed.after ⟨threeTensors, []⟩ pushOne false).WholeStep
      (.call (.exportData {}) (.exported (threeTensors.after pushOne).batch.data), false)
      oneExported := by
    refine streamed_after_step rfl fun calls heq => ?_
    cases heq
    exact fun _ _ => rfl
  exact ⟨_, .cons h₁ (.cons h₂ (.nil _))⟩

theorem oneExported_again (stream : Bool) : oneExported.WholeStep
    (.call (.exportData {}) (.exported (threeTensors.after pushOne).batch.data), stream)
    (oneExported.after (.exportData {}) stream) := by
  refine streamed_after_step rfl fun calls heq => ?_
  cases heq
  exact fun _ _ => rfl

end TensorBatch

/-- Exported once more on the same stream. -/
theorem exports_delivered_iff_again :
    Delivered (ImageBatchVarShape.grayExported.after (.exportData {}) false).history false
        [.images, .formats] 1 ∧
      Delivered (TensorBatch.oneExported.after (.exportData {}) false).history false
        [.tensors] 1 := by
  obtain ⟨himages, htensors⟩ := exports_delivered_iff (S := Bool)
  obtain ⟨es, hr⟩ := ImageBatchVarShape.grayExported_run
  obtain ⟨es', hr'⟩ := TensorBatch.oneExported_run
  refine ⟨(himages _ _ _ _ es _ _ false ⟨ImageBatchVarShape.emptyBatch_new, rfl⟩ hr
      (ImageBatchVarShape.grayExported_again false)).2 (.inr fun l hl => ?_),
    (htensors _ _ _ es' _ _ false ⟨TensorBatch.threeTensors_new, rfl⟩ hr'
      (TensorBatch.oneExported_again false)).2 (.inr fun l hl => ?_)⟩
  · cases hl
    exact .inl rfl
  · cases hl
    exact .inl rfl

/-- Exported once more on the other stream, where nothing orders the work behind the copy. -/
theorem clean_export_unordered :
    (∃ s s' s'' es data, ImageBatchVarShape.Streamed.New s ∧
      Run (ImageBatchVarShape.Streamed.WholeStep fun _ => "") s es s' ∧
      s'.WholeStep (fun _ => "") (.call (.exportData {}) (.exported data), true) s'' ∧
      ¬Delivered s''.history true [.images, .formats] data.numImages.toInt.toNat) ∧
    ∃ s s' s'' es data, TensorBatch.Streamed.New s ∧
      Run TensorBatch.Streamed.WholeStep s es s' ∧
      s'.WholeStep (.call (.exportData {}) (.exported data), true) s'' ∧
      ¬Delivered s''.history true [.tensors] data.numTensors.toInt.toNat := by
  constructor
  · obtain ⟨es, hr⟩ := ImageBatchVarShape.grayExported_run
    have hn : ImageBatchVarShape.Streamed.New (⟨ImageBatchVarShape.emptyBatch, []⟩ :
      ImageBatchVarShape.Streamed Bool) := ⟨ImageBatchVarShape.emptyBatch_new, rfl⟩
    have hs := ImageBatchVarShape.grayExported_again true
    refine ⟨_, _, _, es, _, hn, hr, hs, fun hd => ?_⟩
    have hS : ImageBatchVarShape.Streams ImageBatchVarShape.grayExported :=
      hr.inv (fun _ _ _ h hs => ImageBatchVarShape.step_streams h hs) hn.streams
    rcases (ImageBatchVarShape.export_delivered_iff hS hs).2.1 hd with hd | hd
    · exact absurd hd (by decide)
    · exact absurd (hd _ rfl) (by decide)
  · obtain ⟨es, hr⟩ := TensorBatch.oneExported_run
    have hn : TensorBatch.Streamed.New (⟨TensorBatch.threeTensors, []⟩ :
      TensorBatch.Streamed Bool) := ⟨TensorBatch.threeTensors_new, rfl⟩
    have hs := TensorBatch.oneExported_again true
    refine ⟨_, _, _, es, _, hn, hr, hs, fun hd => ?_⟩
    have hS : TensorBatch.Streams TensorBatch.oneExported :=
      hr.inv (fun _ _ _ h hs => TensorBatch.step_streams h hs) hn.streams
    rcases (TensorBatch.export_delivered_iff hS hs).2.1 hd with hd | hd
    · exact absurd hd (by decide)
    · exact absurd (hd _ rfl) (by decide)

end Nvcv
