import CvCuda.Nvcv.Proof.BatchFence
import CvCuda.Nvcv.Proof.TensorBatch

/-! # The streams a tensor batch is exported on

`TensorBatch` against `Fenced`, for every call that has an outcome: the references on the tensors
do not matter here.

* `Rearranged`, `nonExport_rearranged`: the dirty range stays in the batch, and has what is not on
  the device yet.
* `Streams`: the invariant of a batch and its commands; `step_streams` keeps it.
* `export_delivered_iff`: what an export that returns data delivers.
-/

namespace Nvcv.TensorBatch

open StreamOrder

variable {S : Type} {b b' : TensorBatch} {o o' : Objects TensorData} (stream : S)
  {calls : ExportCalls} {h : List (Command S)} {r : Except Exception Unit}

def window (b : TensorBatch) : Window :=
  { length := b.tensors.length
    first := b.dirtyBegin.toInt.toNat
    last := b.dirtyEnd.toInt.toNat }

/-- The buffer that an export fills. -/
def buffers : List BatchBuffer := [.tensors]

/-! ## The calls -/

/-- The dirty range lies in a batch whose positions are numbers. -/
structure Ranged (b : TensorBatch) : Prop extends DirtyRange b where
  short : b.tensors.length < 2 ^ 31

/-- The dirty range still lies in the batch, and no element is clean that was not. -/
structure Rearranged (b b' : TensorBatch) : Prop where
  ranged : Ranged b'
  clean : ∀ i, b'.window.Clean i → b.window.Clean i

theorem Rearranged.of_eq (hb : Ranged b) (hl : b'.tensors.length = b.tensors.length)
    (hf : b'.dirtyBegin = b.dirtyBegin) (he : b'.dirtyEnd = b.dirtyEnd) : Rearranged b b' := by
  refine ⟨⟨⟨?_, ?_, ?_⟩, ?_⟩, fun i hi => ?_⟩
  · rw [hf]
    exact hb.nonneg
  · rw [hf, he]
    exact hb.ordered
  · rw [he, hl]
    exact hb.inside
  · rw [hl]
    exact hb.short
  · unfold window at hi ⊢
    rwa [hl, hf, he] at hi

theorem Rearranged.refl (hb : Ranged b) : Rearranged b b := .of_eq hb rfl rfl rfl

theorem appendTensors_rearranged {hs : List Addr} (hb : Ranged b)
    (h : appendTensors hs b o = some (r, b', o')) : Rearranged b b' := by
  unfold appendTensors at h
  by_cases hroom : b.capacity.toInt < b.tensors.length + hs.length
  · simp only [hroom, if_true] at h
    cases h
  · simp only [hroom, if_false] at h
    generalize coreObjectIncRefs hs o = q at h
    obtain ⟨x, o₁⟩ := q
    cases x with
    | error e =>
      cases h
      exact .refl hb
    | ok u =>
      have hcap := b.capacity.toInt_lt
      have hlt : (b.tensors ++ hs).length < 2 ^ 31 := by
        rw [List.length_append]
        omega
      obtain ⟨ht, he, hf⟩ : b'.tensors = b.tensors ++ hs ∧
          b'.dirtyEnd = Int32.ofNat (b.tensors ++ hs).length ∧
          b'.dirtyBegin = if b.dirtyEnd = b.dirtyBegin then b.numTensors else b.dirtyBegin := by
        cases h
        exact ⟨rfl, rfl, rfl⟩
      have hlen : b'.tensors.length = b.tensors.length + hs.length := by
        rw [ht, List.length_append]
      have he' : b'.dirtyEnd.toInt = b'.tensors.length := by
        rw [he, ht, Int32.toInt_ofNat_of_lt hlt]
      obtain ⟨⟨h0, h1, h2⟩, h3⟩ := hb
      by_cases hd : b.dirtyEnd = b.dirtyBegin
      · rw [if_pos hd] at hf
        have hf' : b'.dirtyBegin.toInt = b.tensors.length := by rw [hf, toInt_numTensors h3]
        refine ⟨⟨⟨by omega, by omega, by omega⟩, by rw [ht]; exact hlt⟩, fun i hi => ?_⟩
        unfold window Window.Clean at hi ⊢
        dsimp only at hi ⊢
        rw [hd]
        omega
      · rw [if_neg hd] at hf
        have hf' : b'.dirtyBegin.toInt = b.dirtyBegin.toInt := by rw [hf]
        refine ⟨⟨⟨by omega, by omega, by omega⟩, by rw [ht]; exact hlt⟩, fun i hi => ?_⟩
        unfold window Window.Clean at hi ⊢
        dsimp only at hi ⊢
        omega

theorem pushTensors_rearranged {tensors : Nat → Addr} {n : Int32} (hb : Ranged b)
    (h : b.pushTensors tensors n o = some (r, b', o')) : Rearranged b b' := by
  unfold pushTensors at h
  split_ifs at h with h₁ h₂ h₃
  · cases h
    exact .refl hb
  · cases h
    exact .refl hb
  · cases h
    exact .refl hb
  · cases hl : b.setLayoutAndDType o (handles tensors n) with
    | error e =>
      simp only [hl] at h
      cases h
      exact .refl hb
    | ok b₁ =>
      have hr : Rearranged b b₁ := by
        rcases setLayout_cases hb.short hl with ⟨rfl, -⟩ | ⟨-, t, rfl⟩
        · exact .refl hb
        · exact .of_eq hb rfl rfl rfl
      simp only [hl] at h
      cases hv : b₁.validateTensors o (handles tensors n) with
      | error e =>
        simp only [hv] at h
        cases h
        exact hr
      | ok u =>
        simp only [hv] at h
        have ha := appendTensors_rearranged hr.ranged h
        exact ⟨ha.ranged, fun i hi => hr.clean i (ha.clean i hi)⟩

theorem popTensors_rearranged {n : Int32} (hb : Ranged b)
    (h : b.popTensors n o = (r, b', o')) : Rearranged b b' := by
  unfold popTensors at h
  split_ifs at h with h₁ h₂
  · cases h
    exact .refl hb
  · cases h
    exact .refl hb
  · dsimp only at h
    generalize coreObjectDecRefs (b.tensors.drop (b.tensors.length - n.toInt.toNat)) o = q at h
    obtain ⟨x, o₁⟩ := q
    cases x with
    | error e =>
      cases h
      exact .refl hb
    | ok u =>
      -- whether the attributes are reset changes nothing here
      have hfields : b'.tensors = b.tensors.take (b.tensors.length - n.toInt.toNat) ∧
          b'.dirtyEnd = min b.dirtyEnd (Int32.ofNat
            (b.tensors.take (b.tensors.length - n.toInt.toNat)).length) ∧
          b'.dirtyBegin = min b.dirtyBegin b'.dirtyEnd := by
        obtain ⟨-, rfl, -⟩ := h
        split_ifs <;> exact ⟨rfl, rfl, rfl⟩
      obtain ⟨ht, he, hf⟩ := hfields
      have hlen : b'.tensors.length ≤ b.tensors.length := by
        rw [ht]
        exact List.length_take_le' _ _
      obtain ⟨⟨h0, h1, h2⟩, h3⟩ := hb
      have he' : b'.dirtyEnd.toInt = min b.dirtyEnd.toInt b'.tensors.length := by
        rw [he, ← ht, Int32.toInt_min, Int32.toInt_ofNat_of_lt (by omega)]
      have hf' : b'.dirtyBegin.toInt = min b.dirtyBegin.toInt b'.dirtyEnd.toInt := by
        rw [hf, Int32.toInt_min]
      refine ⟨⟨⟨by omega, by omega, by omega⟩, by omega⟩, fun i hi => ?_⟩
      unfold window Window.Clean at hi ⊢
      dsimp only at hi ⊢
      omega

/-- `setTensors` writes positions of the batch only. -/
theorem setLoop_fields {i : Nat} {hs : List Addr} (h : setLoop i hs b o = some (r, b', o')) :
    b'.tensors.length = b.tensors.length ∧ b'.dirtyBegin = b.dirtyBegin ∧
      b'.dirtyEnd = b.dirtyEnd ∧
      (r = .ok () → hs ≠ [] → i + hs.length ≤ b.tensors.length) := by
  induction hs generalizing i b o with
  | nil =>
    cases h
    exact ⟨rfl, rfl, rfl, fun _ hn => absurd rfl hn⟩
  | cons x xs ih =>
    unfold setLoop at h
    cases hi : b.tensors[i]? with
    | none =>
      simp only [hi] at h
      cases h
    | some old =>
      have hlt := (List.getElem?_eq_some_iff.1 hi).1
      simp only [hi] at h
      generalize coreObjectDecRef old o = q at h
      obtain ⟨d, o₁⟩ := q
      cases d with
      | error e =>
        cases h
        exact ⟨rfl, rfl, rfl, nofun⟩
      | ok c =>
        dsimp only at h
        generalize coreObjectIncRef x o₁ = q at h
        obtain ⟨d, o₂⟩ := q
        cases d with
        | error e =>
          cases h
          exact ⟨rfl, rfl, rfl, nofun⟩
        | ok c' =>
          obtain ⟨hl, hf, he, hin⟩ := ih h
          have hl' : (b.tensors.set i x).length = b.tensors.length := List.length_set
          refine ⟨hl.trans hl', hf, he, fun hr _ => ?_⟩
          rw [List.length_cons]
          by_cases hxs : xs = []
          · subst hxs
            exact hlt
          · have hin : i + 1 + xs.length ≤ (b.tensors.set i x).length := hin hr hxs
            omega

theorem setTensors_rearranged {index n : Int32} {tensors : Nat → Addr} (hb : Ranged b)
    (h0 : 0 ≤ index.toInt) (hn : 0 ≤ n.toInt)
    (h : b.setTensors index tensors n o = some (r, b', o')) : Rearranged b b' := by
  unfold setTensors at h
  split_ifs at h with h₁ h₂
  · cases h
    exact .refl hb
  · cases h
    exact .refl hb
  · cases hv : b.validateTensors o (handles tensors n) with
    | error e =>
      simp only [hv] at h
      cases h
      exact .refl hb
    | ok u =>
      simp only [hv] at h
      cases hl : setLoop index.toInt.toNat (handles tensors n) b o with
      | none =>
        simp only [hl] at h
        cases h
      | some q =>
        obtain ⟨x, b₁, o₁⟩ := q
        obtain ⟨hlen, hf, he, hin⟩ := setLoop_fields hl
        simp only [hl] at h
        cases x with
        | error e =>
          cases h
          exact .of_eq hb hlen hf he
        | ok u =>
          have hr := Rearranged.of_eq hb hlen hf he
          have hsum : (index + n).toInt = index.toInt + n.toInt ∧
              index.toInt + n.toInt ≤ b₁.tensors.length := by
            rw [hlen]
            by_cases hz : n.toInt = 0
            · have hz' : n = 0 := Int32.toInt.inj hz
              subst hz'
              rw [Int32.add_zero] at h₁ ⊢
              rw [gt_iff_lt, Int32.lt_iff_toInt_lt, toInt_numTensors hb.short] at h₁
              omega
            · have hne : handles tensors n ≠ [] := by
                rw [← List.length_pos_iff, length_handles]
                omega
              have hin := hin rfl hne
              rw [length_handles] at hin
              have hs := hb.short
              exact ⟨Int32.toInt_add_of_range (by omega) (by omega), by omega⟩
          obtain ⟨hsum, hle⟩ := hsum
          obtain ⟨⟨⟨g0, g1, g2⟩, g3⟩, -⟩ := hr
          simp only at h
          by_cases hd : b₁.dirtyBegin ≠ b₁.dirtyEnd
          · rw [if_pos hd] at h
            obtain ⟨-, rfl, -⟩ := h
            refine ⟨⟨⟨?_, ?_, ?_⟩, g3⟩, fun i hi => ?_⟩
            · show 0 ≤ (min b₁.dirtyBegin index).toInt
              rw [Int32.toInt_min]
              omega
            · show (min b₁.dirtyBegin index).toInt ≤ (max b₁.dirtyEnd (index + n)).toInt
              rw [Int32.toInt_min, Int32.toInt_max]
              omega
            · show (max b₁.dirtyEnd (index + n)).toInt ≤ (b₁.tensors.length : Int)
              rw [Int32.toInt_max]
              omega
            · have hi : i < b₁.tensors.length ∧
                  ¬((min b₁.dirtyBegin index).toInt.toNat ≤ i ∧
                    i < (max b₁.dirtyEnd (index + n)).toInt.toNat) := hi
              rw [Int32.toInt_min, Int32.toInt_max, hsum] at hi
              show i < b.tensors.length ∧
                ¬(b.dirtyBegin.toInt.toNat ≤ i ∧ i < b.dirtyEnd.toInt.toNat)
              rw [← hf, ← he, ← hlen]
              omega
          · rw [if_neg hd] at h
            obtain ⟨-, rfl, -⟩ := h
            rw [not_not] at hd
            refine ⟨⟨⟨h0, ?_, ?_⟩, g3⟩, fun i hi => ?_⟩
            · show index.toInt ≤ (index + n).toInt
              omega
            · show (index + n).toInt ≤ (b₁.tensors.length : Int)
              omega
            · have hi : i < b₁.tensors.length ∧ ¬(index.toInt.toNat ≤ i ∧
                  i < (index + n).toInt.toNat) := hi
              show i < b.tensors.length ∧
                ¬(b.dirtyBegin.toInt.toNat ≤ i ∧ i < b.dirtyEnd.toInt.toNat)
              rw [← hf, ← he, ← hlen, hd]
              omega

theorem clear_rearranged (hb : Ranged b) (h : b.clear o = (r, b', o')) : Rearranged b b' := by
  unfold clear at h
  generalize coreObjectDecRefs b.tensors o = q at h
  obtain ⟨x, o₁⟩ := q
  cases x with
  | error e =>
    cases h
    exact .refl hb
  | ok u =>
    cases h
    exact ⟨⟨⟨Int.le_refl 0, Int.le_refl 0, Int.le_refl 0⟩, Nat.two_pow_pos 31⟩,
      fun i hi => absurd hi.1 (Nat.not_lt_zero i)⟩

/-- **Other calls than exports.** -/
theorem nonExport_rearranged {op : Op} {x : Result} (hb : Ranged b)
    (hop : ∀ calls, op ≠ .exportData calls) (h : exec b o op = some (x, b', o')) :
    Rearranged b b' := by
  cases op with
  | pushTensors tensors n =>
    obtain ⟨⟨r, b₁, o₁⟩, hp, hx⟩ := Option.map_eq_some_iff.1 h
    cases hx
    cases tensors with
    | none =>
      cases hp
      exact .refl hb
    | some tensors => exact pushTensors_rearranged hb hp
  | popTensors n =>
    cases hp : b.popTensors n o with
    | mk r q =>
      simp only [exec, hp] at h
      cases h
      exact popTensors_rearranged hb hp
  | getTensors index out n =>
    obtain ⟨⟨r, o₁⟩, -, hx⟩ := Option.map_eq_some_iff.1 h
    have heq : b' = b := by
      cases r <;> cases hx <;> rfl
    subst heq
    exact .refl hb
  | setTensors index tensors n =>
    obtain ⟨⟨r, b₁, o₁⟩, hp, hx⟩ := Option.map_eq_some_iff.1 h
    cases hx
    cases tensors with
    | none =>
      cases hp
      exact .refl hb
    | some tensors =>
      unfold nvcvTensorBatchSetTensors at hp
      cases hc : checkRange index n with
      | error e =>
        simp only [hc] at hp
        cases hp
        exact .refl hb
      | ok u =>
        simp only [hc] at hp
        obtain ⟨h0, hn⟩ := checkRange_ok hc
        exact setTensors_rearranged hb h0 hn hp
  | exportData calls => exact absurd rfl (hop calls)
  | clear =>
    cases hp : b.clear o with
    | mk r q =>
      simp only [exec, hp] at h
      cases h
      exact clear_rearranged hb hp

/-- The commands of an export that copies. -/
def uploadCommands (stream : S) (b : TensorBatch) : List (Command S) :=
  .synchronize .evPostFence ::
    (buffers.map fun buffer =>
      .enqueue stream (.copy buffer b.dirtyBegin.toInt.toNat b.dirtyEnd.toInt.toNat)) ++
    [.record .evPostFence stream]

theorem dirty_iff (hb : Ranged b) : b.window.Dirty ↔ b.dirtyBegin < b.dirtyEnd := by
  have h0 := hb.nonneg
  rw [Int32.lt_iff_toInt_lt]
  unfold window Window.Dirty
  dsimp only
  omega

/-- **Exports**: nothing is dirty; or the runtime refuses the wait or the copy, or a tensor is
gone; or everything dirty is copied and the event recorded. -/
theorem export_cases {x : Except Exception TensorBatchData} (hb : Ranged b) (hw : calls.Whole)
    (he : b.exportData calls o = some (x, b')) :
    (¬b.window.Dirty ∧ b.exportCommands stream calls o = [] ∧ b' = b ∧ x = .ok b.data) ∨
      (b.window.Dirty ∧ Rearranged b b' ∧ ¬x.isOk ∧ (b.exportCommands stream calls o = [] ∨
        b.exportCommands stream calls o = [.synchronize .evPostFence])) ∨
      (b.window.Dirty ∧ b.exportCommands stream calls o = b.uploadCommands stream ∧
        b'.tensors = b.tensors ∧ b'.dirtyBegin = b.dirtyEnd ∧ b'.dirtyEnd = b.dirtyEnd ∧
          x = .ok b.data) := by
  unfold exportData at he
  unfold exportCommands
  rw [dirty_iff hb]
  by_cases hd : b.dirtyBegin < b.dirtyEnd
  · simp only [hd, if_true] at he ⊢
    unfold ExportCalls.Whole at hw
    refine .inr ?_
    cases h₁ : calls.eventSynchronize with
    | error e =>
      simp only [h₁] at he
      cases he
      exact .inl ⟨trivial, .refl hb, Bool.false_ne_true, .inl rfl⟩
    | ok u =>
      simp only [h₁] at he
      by_cases hout : b.dirtyBegin < 0 ∨ b.tensors.length < b.dirtyEnd.toInt.toNat
      · rw [if_pos hout] at he
        cases he
      · rw [if_neg hout] at he
        generalize hf : fillLoop o b.dirtyBegin.toInt.toNat
          ((b.tensors.drop b.dirtyBegin.toInt.toNat).take
            (b.dirtyEnd.toInt.toNat - b.dirtyBegin.toInt.toNat)) b.pinnedTensorsBuffer = q at he ⊢
        obtain ⟨f, pinned⟩ := q
        cases f with
        | error e =>
          cases he
          exact .inl ⟨trivial, .of_eq hb rfl rfl rfl, Bool.false_ne_true, .inr rfl⟩
        | ok u =>
          cases h₂ : calls.memcpyAsync with
          | error e =>
            simp only [h₂] at he
            cases he
            exact .inl ⟨trivial, .of_eq hb rfl rfl rfl, Bool.false_ne_true, .inr rfl⟩
          | ok u =>
            have h₃ := hw h₁ h₂
            simp only [h₂, h₃] at he
            cases he
            rw [h₃]
            exact .inr ⟨trivial, rfl, rfl, rfl, rfl, rfl⟩
  · simp only [hd, if_false] at he ⊢
    cases he
    exact .inl ⟨not_false, trivial, rfl, rfl⟩

/-! ## Runs -/

/-- A batch and its commands: the dirty range and the fence. -/
structure Streams (s : Streamed S) : Prop where
  ranged : Ranged s.sys.batch
  fenced : Fenced buffers s.sys.batch.window s.history

theorem Streamed.New.streams {s : Streamed S} (hn : s.New) : Streams s := by
  obtain ⟨hsys, hh⟩ := hn
  obtain ⟨capacity, pinned, dev, hb⟩ := hsys.batch
  refine ⟨?_, hh ▸ .nil, fun buffer _ i hi => ?_, fun p f hp => ?_⟩
  · rw [hb]
    exact ⟨⟨Int.le_refl 0, Int.le_refl 0, Int.le_refl 0⟩, Nat.two_pow_pos 31⟩
  · rw [hb] at hi
    exact absurd hi.1 (Nat.not_lt_zero i)
  · rw [hh] at hp
    exact absurd hp.lt_length (Nat.not_lt_zero p)

/-- What an export that copies leaves. -/
theorem uploaded_fenced {w' : Window} (hF : Fenced buffers b.window h) (hd : b.window.Dirty)
    (hl : w'.length = b.tensors.length) :
    Fenced buffers w' (h ++ b.uploadCommands stream) ∧
      lastExport (h ++ b.uploadCommands stream) =
        some ⟨stream, b.dirtyBegin.toInt.toNat, false⟩ := by
  obtain ⟨hF', hw⟩ := hF.synchronized
  have happ : h ++ b.uploadCommands stream = h ++ [.synchronize .evPostFence] ++
      (buffers.map fun buffer => .enqueue stream (.copy buffer b.window.first b.window.last)) ++
      [.record .evPostFence stream] := by
    simp [uploadCommands, window]
  constructor
  · rw [happ]
    exact Fenced.exported hF'.toOrdered (hF'.toOrdered.ready hw) hd hF'.written
      (fun buffer hb hn => absurd hb hn) (fun _ hb => hb) hl
  · rw [happ, lastExport_concat]
    simp [buffers, lastExport, LastExport.note, window]

/-- What an export leaves, with its commands. -/
theorem export_streams {x : Except Exception TensorBatchData} (hb : Ranged b)
    (hF : Fenced buffers b.window h) (hw : calls.Whole)
    (he : b.exportData calls o = some (x, b')) :
    Ranged b' ∧ Fenced buffers b'.window (h ++ b.exportCommands stream calls o) := by
  rcases export_cases stream hb hw he with ⟨-, hc, rfl, -⟩ | ⟨-, hr, -, hc | hc⟩ |
    ⟨hd, hc, ht, hf, hl, -⟩
  · rw [hc, List.append_nil]
    exact ⟨hb, hF⟩
  · rw [hc, List.append_nil]
    exact ⟨hr.ranged, hF.kept hr.clean⟩
  · rw [hc]
    exact ⟨hr.ranged, hF.synchronized.1.kept hr.clean⟩
  · rw [hc]
    refine ⟨⟨⟨?_, ?_, ?_⟩, ?_⟩, (uploaded_fenced stream hF hd (by rw [window, ht])).1⟩
    · rw [hf]
      exact hb.nonneg.trans hb.ordered
    · rw [hf, hl]
    · rw [hl, ht]
      exact hb.inside
    · rw [ht]
      exact hb.short

theorem step_streams {s s' : Streamed S} {e : Event × S} (hS : Streams s)
    (hs : s.WholeStep e s') : Streams s' := by
  obtain ⟨⟨hstep, hh⟩, hwhole⟩ := hs
  obtain ⟨e, stream⟩ := e
  have others : s'.sys.batch = s.sys.batch → s'.history = s.history → Streams s' := by
    intro hb hh
    refine ⟨hb ▸ hS.ranged, ?_⟩
    rw [hb, hh]
    exact hS.fenced
  cases e with
  | call op r =>
    have hh : s'.history = s.history ++ s.sys.batch.commands stream s.sys.objs op := hh
    obtain ⟨he, -⟩ := hstep
    by_cases hop : ∃ calls, op = .exportData calls
    · obtain ⟨calls, rfl⟩ := hop
      simp only [exec, Option.map_eq_some_iff] at he
      obtain ⟨⟨x, b₁⟩, he, hx⟩ := he
      have hb : b₁ = s'.sys.batch := by
        cases x <;> exact congrArg (fun y : Result × TensorBatch × Objects TensorData => y.2.1) hx
      subst hb
      obtain ⟨hr, hF⟩ := export_streams stream hS.ranged hS.fenced
        (hwhole calls r rfl) he
      refine ⟨hr, ?_⟩
      rw [hh]
      exact hF
    · have hop : ∀ calls, op ≠ .exportData calls := fun calls heq => hop ⟨calls, heq⟩
      have hr := nonExport_rearranged hS.ranged hop he
      have hc : s.sys.batch.commands stream s.sys.objs op = [] := by
        cases op with
        | exportData calls => exact absurd rfl (hop calls)
        | pushTensors tensors n => rfl
        | popTensors n => rfl
        | getTensors index out n => rfl
        | setTensors index tensors n => rfl
        | clear => rfl
      rw [hc, List.append_nil] at hh
      refine ⟨hr.ranged, ?_⟩
      rw [hh]
      exact hS.fenced.kept hr.clean
  | create a t =>
    obtain ⟨-, -, hb⟩ := hstep
    exact others (by rw [hb]) hh
  | incRef a =>
    obtain ⟨o₁, -, hb⟩ := hstep
    exact others (by rw [hb]) hh
  | decRef a =>
    obtain ⟨-, o₁, -, hb⟩ := hstep
    exact others (by rw [hb]) hh

/-- **What an export delivers**: everything, if it found something dirty, which made the host wait
for all earlier copies; where nothing was dirty, the stream has to reach the last export that
copied. -/
theorem export_delivered_iff {stream : S} {s s' : Streamed S} {data : TensorBatchData} (hS : Streams s)
    (hs : s.WholeStep (.call (.exportData calls) (.exported data), stream) s') :
    data.numTensors.toInt = s.sys.batch.tensors.length ∧
      (Delivered s'.history stream buffers s.sys.batch.tensors.length ↔
        s.sys.batch.dirtyBegin < s.sys.batch.dirtyEnd ∨
          Reaches s.history stream s.sys.batch.tensors.length) := by
  have hS' := step_streams hS hs
  obtain ⟨⟨⟨he, -⟩, hcmds⟩, hwhole⟩ := hs
  simp only [exec, Option.map_eq_some_iff] at he
  obtain ⟨⟨x, b₁⟩, he, hx⟩ := he
  have hh : s'.history = s.history ++ s.sys.batch.exportCommands stream calls s.sys.objs := hcmds
  clear hcmds
  cases x with
  | error e => cases hx
  | ok d =>
    have hb : b₁ = s'.sys.batch :=
      congrArg (fun y : Result × TensorBatch × Objects TensorData => y.2.1) hx
    have hd : Result.exported d = .exported data :=
      congrArg (fun y : Result × TensorBatch × Objects TensorData => y.1) hx
    subst hb
    obtain rfl : d = data := Result.exported.inj hd
    clear hx hd
    rw [← dirty_iff hS.ranged]
    rcases export_cases stream hS.ranged (hwhole calls _ rfl) he with
      ⟨hd, hc, -, hr⟩ | ⟨-, -, hr, -⟩ | ⟨hd, hc, ht, hf, hl, hr⟩
    · cases hr
      rw [hc, List.append_nil] at hh
      rw [hh]
      have hiff := hS.fenced.delivered_iff (s := stream) hd
      exact ⟨toInt_numTensors hS.ranged.short, hiff.trans (or_iff_right hd).symm⟩
    · exact absurd rfl hr
    · cases hr
      refine ⟨toInt_numTensors hS.ranged.short, ?_⟩
      have hnd : ¬s'.sys.batch.window.Dirty := by
        unfold window
        rw [hf, hl]
        exact Nat.lt_irrefl _
      have hlen : s'.sys.batch.window.length = s.sys.batch.tensors.length := by
        rw [window, ht]
      have hlast := (uploaded_fenced stream hS.fenced hd hlen).2
      rw [← hc, ← hh] at hlast
      have hiff := hS'.fenced.delivered_iff (s := stream) hnd
      rw [hlen] at hiff
      refine hiff.trans (iff_of_true (fun l hl => ?_) (.inl hd))
      rw [hlast] at hl
      cases hl
      exact .inl rfl

end Nvcv.TensorBatch
