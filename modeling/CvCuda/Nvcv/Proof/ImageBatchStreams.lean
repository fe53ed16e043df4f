import CvCuda.Lib.Int32
import CvCuda.Nvcv.Proof.BatchFence
import CvCuda.Nvcv.Proof.ImageBatchMirror

/-! # The streams an image batch is exported on

`ImageBatchVarShape` against `Fenced`: elements become dirty only where the host has waited for
the event (`nonExport_quiet`), and an export copies them and records the event, or leaves the
batch as it is (`export_cases`).

* `Streams`: the invariant of a batch and its commands; `step_streams` keeps it.
* `export_delivered_iff`: what an export that returns data delivers.
-/

namespace Nvcv.ImageBatchVarShape

open StreamOrder

variable {S : Type} {b b' : ImageBatchVarShape} {o o' : Objects Image} (stream : S)
  {calls : ExportCalls} {h : List (Command S)}

def window (b : ImageBatchVarShape) : Window :=
  { length := b.images.length, first := b.dirtyStartingFromIndex, last := b.images.length }

/-- The buffers that an export fills. -/
def buffers : List BatchBuffer := [.images, .formats]

theorem window_congr (hl : b'.images.length = b.images.length)
    (hd : b'.dirtyStartingFromIndex = b.dirtyStartingFromIndex) : b'.window = b.window := by
  unfold window
  rw [hl, hd]

/-! ## The calls -/

/-- Other calls than exports wait for the event or ask nothing of the runtime. -/
theorem commands_cases {op : Op} (hop : ∀ calls, op ≠ .exportData calls) :
    b.commands stream op = [] ∨ b.commands stream op = [.synchronize .evPostFence] := by
  cases op with
  | pushImages sync images n =>
    cases images with
    | none => exact .inl rfl
    | some images =>
      unfold commands
      by_cases hc : n + b.numImages > b.capacity
      · exact .inl (if_pos hc)
      · cases sync with
        | error e => exact .inl (if_neg hc)
        | ok u => exact .inr (if_neg hc)
  | pushImagesCallback sync cb =>
    cases cb with
    | none => exact .inl rfl
    | some cb =>
      cases sync with
      | error e => exact .inl rfl
      | ok u => exact .inr rfl
  | exportData calls => exact absurd rfl (hop calls)
  | popImages n => exact .inl rfl
  | getImages beg out n => exact .inl rfl
  | clear => exact .inl rfl
  | maxSize => exact .inl rfl
  | uniqueFormat => exact .inl rfl

/-- A push that stores images has waited. -/
theorem pushed_commands {images : Nat → Addr} {n : Int32} {l : List (Addr × Image)}
    (hfit : (b.images.length : Int) ≤ b.capacity.toInt) (hs : Stored b b' l) (hl : l ≠ [])
    (hp : handles images n = l.map Prod.fst) :
    b.commands stream (.pushImages (.ok ()) (some images) n) = [.synchronize .evPostFence] := by
  obtain ⟨hi, hc, -⟩ := storeImages_fields (b := b) l
  rw [← hs.eq] at hi hc
  have hroom := hs.room hl
  have hlen := congrArg List.length hp
  rw [handles, List.length_map, List.length_map, List.length_range] at hlen
  rw [hi, hc, List.length_append, entries, List.length_map] at hroom
  have hpos : 0 < l.length := List.length_pos_iff.2 hl
  have hnum := toInt_numImages hfit
  have hcap := b.capacity.toInt_lt
  have hsum : (n + b.numImages).toInt = n.toInt + b.numImages.toInt :=
    Int32.toInt_add_of_range (by omega) (by omega)
  have hn : ¬n + b.numImages > b.capacity := by
    rw [gt_iff_lt, Int32.lt_iff_toInt_lt, hsum]
    omega
  exact if_neg hn

/-- No element is clean that was not, and where one becomes dirty the host waits. -/
structure Quiet (w w' : Window) (cs : List (Command S)) : Prop where
  clean : ∀ i, w'.Clean i → w.Clean i
  dirty : w'.Dirty → w.Dirty ∨ cs = [.synchronize .evPostFence]

variable {cs : List (Command S)}

theorem Quiet.of_eq {w w' : Window} (hw : w' = w) : Quiet w w' cs :=
  ⟨fun _ hi => hw ▸ hi, fun hd => .inl (hw ▸ hd)⟩

theorem Quiet.of_shorter (hl : b'.images.length ≤ b.images.length)
    (hd : b'.dirtyStartingFromIndex = min b.dirtyStartingFromIndex b'.images.length) :
    Quiet b.window b'.window cs := by
  unfold window
  refine ⟨fun i hi => ?_, fun hlt => ?_⟩
  · unfold Window.Clean at hi ⊢
    dsimp only at hi ⊢
    omega
  · unfold Window.Dirty at hlt ⊢
    dsimp only at hlt ⊢
    omega

theorem Quiet.of_stored {l : List (Addr × Image)} (hs : Stored b b' l)
    (hd : b.dirtyStartingFromIndex ≤ b.images.length)
    (hc : l ≠ [] → cs = [.synchronize .evPostFence]) : Quiet b.window b'.window cs := by
  obtain ⟨hi, -, hd', -⟩ := storeImages_fields (b := b) l
  rw [← hs.eq] at hi hd'
  by_cases hl : l = []
  · subst hl
    exact .of_eq (window_congr (by rw [hi]; simp [entries]) hd')
  · refine ⟨fun i hi => ?_, fun _ => .inr (hc hl)⟩
    unfold window Window.Clean at hi ⊢
    dsimp only at hi ⊢
    omega

theorem restored_window {l : List (Addr × Image)} (hs : Stored b b' l) :
    ({ b' with images := b'.images.take b.images.length } : ImageBatchVarShape).window =
      b.window := by
  obtain ⟨hi, -, hd, -⟩ := storeImages_fields (b := b) l
  rw [← hs.eq] at hi hd
  refine window_congr ?_ hd
  show (b'.images.take b.images.length).length = _
  rw [hi, List.take_left]

theorem cached_window (b : ImageBatchVarShape) : b.doUpdateCache.window = b.window := by
  obtain ⟨hi, -, hd, -⟩ := doUpdateCache_fields b
  exact window_congr (by rw [hi]) hd

/-- **Other calls than exports.** -/
theorem nonExport_quiet {op : Op} {r : Result} (hop : ∀ calls, op ≠ .exportData calls)
    (hfit : (b.images.length : Int) ≤ b.capacity.toInt)
    (hd : b.dirtyStartingFromIndex ≤ b.images.length) (he : Effect b o op r b' o') :
    Quiet b.window b'.window (b.commands stream op) := by
  cases he with
  | threw e => exact .of_eq rfl
  | pushed hs passed objs moved imgs =>
    exact .of_stored hs hd fun hl => pushed_commands stream hfit hs hl passed
  | pushThrew e hs fits passed moved imgs => exact .of_eq (restored_window hs)
  | pushedBack hs handed imgs => exact .of_stored hs hd fun _ => rfl
  | pushBackThrew e hs imgs => exact .of_eq (restored_window hs)
  | popped nonneg enough released eq =>
    subst eq
    split_ifs
    · exact .of_shorter (by simp) rfl
    · exact .of_shorter (by simp) rfl
  | popThrew e released => exact .of_eq rfl
  | got eq acquired => exact .of_eq rfl
  | getThrew e acquired => exact .of_eq rfl
  | cleared released => exact .of_shorter (Nat.zero_le _) (Nat.min_zero _).symm
  | @clearThrew es o₁ e released =>
    have hes := congrArg List.length (clearLoop_fields b.images o).1
    rw [released, List.length_map, List.length_map] at hes
    exact .of_eq (window_congr hes rfl)
  | maxSize eq => exact .of_eq (cached_window b)
  | uniqueFormat eq => exact .of_eq (cached_window b)
  | exportThrew e dirty upload => exact absurd rfl (hop _)
  | exported upload attributes => exact absurd rfl (hop _)

/-- The commands of an export that copies. -/
def uploadCommands (stream : S) (b : ImageBatchVarShape) : List (Command S) :=
  .waitEvent stream .evPostFence ::
    (buffers.map fun buffer =>
      .enqueue stream (.copy buffer b.dirtyStartingFromIndex b.images.length)) ++
    [.record .evPostFence stream]

/-- **Exports**: nothing is dirty; or the runtime refuses the wait or the first copy; or
everything dirty is copied and the event recorded. -/
theorem export_cases {r : Except Exception ImageBatchData} (hw : calls.Whole)
    (he : b.exportData calls = some (r, b')) :
    (¬b.window.Dirty ∧ b.exportCommands stream calls = [] ∧ b'.window = b.window ∧ r.isOk) ∨
      (b.window.Dirty ∧ b'.window = b.window ∧ ¬r.isOk ∧
        (b.exportCommands stream calls = [] ∨
          b.exportCommands stream calls = [.waitEvent stream .evPostFence])) ∨
      (b.window.Dirty ∧ b.exportCommands stream calls = b.uploadCommands stream ∧
        b'.window = { b.window with first := b.images.length } ∧ r.isOk) := by
  have attrs : ∀ {b₁ : ImageBatchVarShape}, b₁.exportAttributes = some (r, b') →
      b'.window = b₁.window ∧ r.isOk := fun h => by
    obtain ⟨data, rfl, rfl, -⟩ := exportAttributes_spec h
    exact ⟨cached_window _, rfl⟩
  unfold exportData at he
  unfold exportCommands
  by_cases hd : b.dirtyStartingFromIndex < b.images.length
  · rw [if_pos hd] at he
    rw [if_pos hd]
    unfold ExportCalls.Whole at hw
    unfold uploadDirty at he
    refine .inr ?_
    cases h₁ : calls.streamWaitEvent with
    | error e =>
      simp only [h₁, Option.some.injEq, Prod.mk.injEq] at he
      obtain ⟨rfl, rfl⟩ := he
      exact .inl ⟨hd, rfl, nofun, .inl rfl⟩
    | ok u =>
      cases h₂ : calls.memcpyImages with
      | error e =>
        simp only [h₁, h₂, Option.some.injEq, Prod.mk.injEq] at he
        obtain ⟨rfl, rfl⟩ := he
        exact .inl ⟨hd, rfl, nofun, .inr rfl⟩
      | ok u =>
        obtain ⟨h₃, h₄⟩ := hw h₁ h₂
        simp only [h₁, h₂, h₃, h₄] at he
        obtain ⟨hb, hr⟩ := attrs he
        rw [h₃, h₄]
        exact .inr ⟨hd, rfl, hb, hr⟩
  · rw [if_neg hd] at he
    rw [if_neg hd]
    obtain ⟨hb, hr⟩ := attrs he
    exact .inl ⟨hd, rfl, hb, hr⟩

/-! ## Runs -/

/-- A batch and its commands: the images it should have, the fence, and where something is dirty
the host has waited. -/
structure Streams (s : Streamed S) : Prop where
  mirrored : Mirrored s.sys.batch s.sys.images
  fenced : Fenced buffers s.sys.batch.window s.history
  waited : s.sys.batch.window.Dirty → Waited s.history

theorem Streamed.New.streams {s : Streamed S} (hn : s.New) : Streams s := by
  obtain ⟨hsys, hh⟩ := hn
  obtain ⟨capacity, devImages, devFormats, -, hb⟩ := hsys.batch
  have hw : s.sys.batch.window = ⟨0, 0, 0⟩ := by rw [hb]; rfl
  refine ⟨hsys.mirrored, ⟨hh ▸ .nil, fun buffer _ i hi => ?_, fun p f hp => ?_⟩, fun hd => ?_⟩
  · rw [hw] at hi
    exact absurd hi.1 (Nat.not_lt_zero i)
  · rw [hh] at hp
    exact absurd hp.lt_length (Nat.not_lt_zero p)
  · rw [hw] at hd
    exact absurd hd (Nat.lt_irrefl 0)

/-- What an export that copies leaves. -/
theorem uploaded_fenced {w' : Window} (hF : Fenced buffers b.window h)
    (hw : b.window.Dirty → Waited h) (hd : b.window.Dirty) (hl : w'.length = b.images.length) :
    Fenced buffers w' (h ++ b.uploadCommands stream) ∧
      lastExport (h ++ b.uploadCommands stream) =
        some ⟨stream, b.dirtyStartingFromIndex, false⟩ := by
  obtain ⟨hF', hw'⟩ := hF.waited (s := stream) (hw hd)
  have happ : h ++ b.uploadCommands stream = h ++ [.waitEvent stream .evPostFence] ++
      (buffers.map fun buffer => .enqueue stream (.copy buffer b.window.first b.window.last)) ++
      [.record .evPostFence stream] := by
    simp [uploadCommands, window]
  constructor
  · rw [happ]
    exact Fenced.exported hF'.toOrdered (hF'.toOrdered.ready hw') hd hF'.written
      (fun buffer hb hn => absurd hb hn) (fun _ hb => hb) hl
  · rw [happ, lastExport_concat]
    simp [buffers, lastExport, LastExport.note, window]

theorem step_streams {print : ImageFormat → String} {s s' : Streamed S} {e : Event × S}
    (hS : Streams s) (hs : s.WholeStep print e s') : Streams s' := by
  obtain ⟨⟨hstep, hh⟩, hwhole⟩ := hs
  have hm := step_mirrored hS.mirrored hstep
  have hF := hS.fenced
  obtain ⟨e, stream⟩ := e
  cases e with
  | others objs =>
    rw [Sys.Step] at hstep
    have hh : s'.history = s.history := hh
    have hb : s'.sys.batch = s.sys.batch := by rw [hstep]
    rw [← hh] at hF
    refine ⟨hm, hb ▸ hF, fun hd => hh ▸ hS.waited (hb ▸ hd)⟩
  | call op r =>
    have hh : s'.history = s.history ++ s.sys.batch.commands stream op := hh
    obtain ⟨he, -⟩ := hstep
    suffices hst : Fenced buffers s'.sys.batch.window s'.history ∧
        (s'.sys.batch.window.Dirty → Waited s'.history) from ⟨hm, hst.1, hst.2⟩
    by_cases hop : ∃ calls, op = .exportData calls
    · obtain ⟨calls, rfl⟩ := hop
      simp only [exec, Option.map_eq_some_iff] at he
      obtain ⟨⟨x, b₁⟩, he, hx⟩ := he
      have hb : b₁ = s'.sys.batch := by
        cases x <;> exact congrArg (fun y : Result × ImageBatchVarShape × Objects Image => y.2.1) hx
      subst hb
      have hh : s'.history = s.history ++ s.sys.batch.exportCommands stream calls := hh
      rw [hh]
      rcases export_cases stream (hwhole calls r rfl) he with ⟨hd, hc, hw, -⟩ | ⟨hd, hw, -, hc⟩ |
        ⟨hd, hc, hw, -⟩
      · rw [hc, List.append_nil]
        exact ⟨hw ▸ hF, fun hd' => absurd (hw ▸ hd') hd⟩
      · rcases hc with hc | hc
        · rw [hc, List.append_nil]
          exact ⟨hw ▸ hF, fun _ => hS.waited hd⟩
        · obtain ⟨hF', hw'⟩ := hF.waited (s := stream) (hS.waited hd)
          rw [hc]
          exact ⟨hw ▸ hF', fun _ => hw'⟩
      · rw [hc]
        refine ⟨?_, fun hd' => ?_⟩
        · exact (uploaded_fenced stream hF hS.waited hd (by rw [hw]; rfl)).1
        · rw [hw] at hd'
          exact absurd hd' (Nat.lt_irrefl _)
    · have hop : ∀ calls, op ≠ .exportData calls := fun calls heq => hop ⟨calls, heq⟩
      have hclean := hS.mirrored.clean
      rw [← hS.mirrored.length] at hclean
      have hq := nonExport_quiet stream hop hS.mirrored.fits hclean (exec_effect he)
      rw [hh]
      rcases commands_cases stream (b := s.sys.batch) hop with hc | hc
      · rw [hc, List.append_nil]
        refine ⟨hF.kept hq.clean, fun hd => ?_⟩
        rcases hq.dirty hd with hd | hn
        · exact hS.waited hd
        · rw [hc] at hn
          cases hn
      · obtain ⟨hF', hw'⟩ := hF.synchronized
        rw [hc]
        exact ⟨hF'.kept hq.clean, fun _ => hw'⟩

/-- **What an export delivers**: everything it found dirty is behind its stream, and where nothing
was dirty, the stream has to reach the last export that copied. -/
theorem export_delivered_iff {stream : S} {print : ImageFormat → String} {s s' : Streamed S}
    {data : ImageBatchData} (hS : Streams s)
    (hs : s.WholeStep print (.call (.exportData calls) (.exported data), stream) s') :
    data.numImages.toInt = s.sys.batch.images.length ∧
      (Delivered s'.history stream buffers s.sys.batch.images.length ↔
        s.sys.batch.dirtyStartingFromIndex < s.sys.batch.images.length ∨
          Reaches s.history stream s.sys.batch.images.length) := by
  have hS' := step_streams hS hs
  obtain ⟨⟨⟨he, -⟩, hh⟩, hwhole⟩ := hs
  have hnum := (hS.mirrored.exported (exec_effect he)).2
  rw [← hS.mirrored.length] at hnum
  refine ⟨hnum, ?_⟩
  simp only [exec, Option.map_eq_some_iff] at he
  obtain ⟨⟨x, b₁⟩, he, hx⟩ := he
  have hh : s'.history = s.history ++ s.sys.batch.exportCommands stream calls := hh
  cases x with
  | error e => cases hx
  | ok d =>
    have hb : b₁ = s'.sys.batch :=
      congrArg (fun y : Result × ImageBatchVarShape × Objects Image => y.2.1) hx
    subst hb
    rcases export_cases stream (hwhole calls _ rfl) he with ⟨hd, hc, hw, -⟩ | ⟨-, -, hr, -⟩ |
      ⟨hd, hc, hw, -⟩
    · rw [hc, List.append_nil] at hh
      rw [hh]
      have hiff := hS.fenced.delivered_iff (s := stream) hd
      exact hiff.trans (or_iff_right hd).symm
    · exact absurd rfl hr
    · have hnd : ¬s'.sys.batch.window.Dirty := by
        rw [hw]
        exact Nat.lt_irrefl _
      have hlen : s'.sys.batch.window.length = s.sys.batch.images.length := by rw [hw]; rfl
      have hlast := (uploaded_fenced stream hS.fenced hS.waited hd hlen).2
      rw [← hc, ← hh] at hlast
      have hiff := hS'.fenced.delivered_iff (s := stream) hnd
      rw [hlen] at hiff
      refine hiff.trans (iff_of_true (fun l hl => ?_) (.inl hd))
      rw [hlast] at hl
      cases hl
      exact .inl rfl

end Nvcv.ImageBatchVarShape
