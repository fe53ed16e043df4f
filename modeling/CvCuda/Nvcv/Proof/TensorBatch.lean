import CvCuda.Lib.Run
import CvCuda.Nvcv.Proof.TensorBatchCalls

/-! # Tensor batches own and describe their tensors

Runs of the calls on a batch and of the steps of the other owners of its tensors. A call keeps
`Inv` when its positions do not overflow and no tensor that `setTensors` still has to store loses
its last reference before. It keeps `Homog` (the tensors have the attributes the batch reports)
when in addition a push on an empty batch is not rejected after its first tensor (`PushWhole`).

* `Effect.inv`, `Effect.homog`, `Effect.of_threw`: what one call keeps; `step_inv`: what every
  step keeps.
* `runs_owned`, `runs_mirrored`, `runs_homogeneous`: what holds after every run of such calls.
* `set_last_reference`, `set_stale_element`, `push_leaves_attributes`: runs where it does not.
-/

namespace Nvcv.TensorBatch

/-! ## What the calls keep -/

/-- Nothing but null has no references. -/
theorem valid_ne_null {s : Sys} (hI : Inv s) {b : TensorBatch} {hs : List Addr}
    (hv : b.validateTensors s.objs hs = .ok ()) : ∀ h ∈ hs, h ≠ 0 := by
  rintro h hh rfl
  have hl := validateTensors_live hv 0 hh
  have h0 := hI.null
  omega

section
variable {s : Sys} (hI : Inv s) {b' : TensorBatch} {o' : Objects TensorData}
include hI

/-- The invariant after a call: the references it moves are those of the positions it changes and
those it gives its caller, and a clean position was clean before or is described. -/
theorem Inv.next {r a given : List Addr} (hm : s.objs.Moved o' r a) (ha : ∀ h ∈ a, h ≠ 0)
    (hc : ∀ h, b'.tensors.count h + given.count h + r.count h =
      s.batch.tensors.count h + a.count h)
    (hshort : b'.tensors.length < 2 ^ 31) (hdirty : DirtyRange b')
    (hmirror : ∀ i h, b'.tensors[i]? = some h → Clean b' i →
      (s.batch.tensors[i]? = some h ∧ Clean s.batch i ∧
          b'.devTensorsBuffer i = s.batch.devTensorsBuffer i) ∨
        ∃ t, s.objs.obj h = some t ∧ Describes (b'.devTensorsBuffer i) t) :
    Inv ⟨b', o', fun h => s.owned h + given.count h⟩ := by
  have ho : ∀ h, o'.refs h = b'.tensors.count h + (s.owned h + given.count h) := by
    intro h
    have hr := hm.refs h
    have ho := hI.owned h
    have hch := hc h
    omega
  refine ⟨?_, hshort, ho, hdirty, ?_⟩
  · have hr := hm.refs 0
    have h0 := hI.null
    have hz : a.count 0 = 0 := List.count_eq_zero.2 fun hz => ha 0 hz rfl
    show o'.refs 0 = 0
    omega
  · intro i h hi hcl
    have hpos : 0 < o'.refs h := refs_pos_of_owned ho (List.mem_of_getElem? hi)
    show ∃ t, o'.obj h = some t ∧ Describes (b'.devTensorsBuffer i) t
    rw [hm.obj h hpos]
    obtain ⟨hi', hcl', hdev⟩ | hd := hmirror i h hi hcl
    · rw [hdev]
      exact hI.mirror i h hi' hcl'
    · exact hd

theorem pushed_inv {hs : List Addr} (hm : s.objs.Moved o' [] hs) (hs0 : ∀ h ∈ hs, h ≠ 0)
    (hshort : (s.batch.tensors ++ hs).length < 2 ^ 31)
    (ht : b'.tensors = s.batch.tensors ++ hs)
    (hb : b'.dirtyBegin =
      if s.batch.dirtyEnd = s.batch.dirtyBegin then s.batch.numTensors else s.batch.dirtyBegin)
    (he : b'.dirtyEnd = Int32.ofNat (s.batch.tensors ++ hs).length)
    (hdev : b'.devTensorsBuffer = s.batch.devTensorsBuffer) :
    Inv ⟨b', o', fun h => s.owned h + [].count h⟩ := by
  have h0 := hI.dirty.nonneg
  have h1 := hI.dirty.ordered
  have h2 := hI.dirty.inside
  have hend : b'.dirtyEnd.toInt = s.batch.tensors.length + hs.length := by
    rw [he, Int32.toInt_ofNat_of_lt hshort, List.length_append]
    omega
  have hbegin : b'.dirtyBegin.toInt = s.batch.tensors.length ∧
      s.batch.dirtyEnd.toInt = s.batch.dirtyBegin.toInt ∨
        b'.dirtyBegin.toInt = s.batch.dirtyBegin.toInt := by
    by_cases hd : s.batch.dirtyEnd = s.batch.dirtyBegin
    · exact .inl ⟨by rw [hb, if_pos hd, toInt_numTensors hI.short], congrArg _ hd⟩
    · exact .inr (by rw [hb, if_neg hd])
  refine hI.next hm hs0 (fun h => ?_) (ht ▸ hshort) ⟨by omega, by omega, ?_⟩ ?_
  · rw [ht, List.count_append]
    simp
  · rw [ht, List.length_append]
    omega
  · intro i h hi hcl
    unfold Clean at hcl ⊢
    rw [ht] at hi
    have hlt := (List.getElem?_eq_some_iff.1 hi).1
    rw [List.length_append] at hlt
    rw [List.getElem?_append_left (by omega)] at hi
    exact .inl ⟨hi, by omega, by rw [hdev]⟩

theorem popped_inv {kept : Nat} (hm : s.objs.Moved o' (s.batch.tensors.drop kept) [])
    (ht : b'.tensors = s.batch.tensors.take kept)
    (hb : b'.dirtyBegin = min s.batch.dirtyBegin b'.dirtyEnd)
    (he : b'.dirtyEnd =
      min s.batch.dirtyEnd (Int32.ofNat (s.batch.tensors.take kept).length))
    (hdev : b'.devTensorsBuffer = s.batch.devTensorsBuffer) :
    Inv ⟨b', o', fun h => s.owned h + [].count h⟩ := by
  have h0 := hI.dirty.nonneg
  have h1 := hI.dirty.ordered
  have h2 := hI.dirty.inside
  have hsh := hI.short
  have hle : (s.batch.tensors.take kept).length ≤ s.batch.tensors.length :=
    List.length_take_le' kept _
  have hend : b'.dirtyEnd.toInt =
      min s.batch.dirtyEnd.toInt ((s.batch.tensors.take kept).length : Int) := by
    rw [he, Int32.toInt_min, Int32.toInt_ofNat_of_lt (by omega)]
  have hbegin : b'.dirtyBegin.toInt = min s.batch.dirtyBegin.toInt b'.dirtyEnd.toInt := by
    rw [hb, Int32.toInt_min]
  refine hI.next hm (by simp) (fun h => ?_) (by rw [ht]; omega)
    ⟨by omega, by omega, by rw [ht]; omega⟩ ?_
  · rw [ht, List.count_nil, Nat.add_zero, Nat.add_zero, ← List.count_append,
      List.take_append_drop]
  · intro i h hi hcl
    unfold Clean at hcl ⊢
    rw [ht] at hi
    have hlt := (List.getElem?_eq_some_iff.1 hi).1
    have hlt' := hlt
    rw [List.length_take] at hlt'
    rw [List.getElem?_take_of_lt (by omega)] at hi
    exact .inl ⟨hi, by omega, by rw [hdev]⟩

theorem replaced_inv {index n : Int32} {hs : List Addr}
    (hm : s.objs.Moved o' ((s.batch.tensors.drop index.toInt.toNat).take hs.length) hs)
    (hs0 : ∀ h ∈ hs, h ≠ 0) (hi : 0 ≤ index.toInt) (hn : hs.length = n.toInt)
    (hle : index.toInt + n.toInt ≤ s.batch.tensors.length)
    (ht : b'.tensors = s.batch.tensors.take index.toInt.toNat ++ hs ++
      s.batch.tensors.drop (index.toInt.toNat + hs.length))
    (hb : b'.dirtyBegin =
      if s.batch.dirtyBegin ≠ s.batch.dirtyEnd then min s.batch.dirtyBegin index else index)
    (he : b'.dirtyEnd = if s.batch.dirtyBegin ≠ s.batch.dirtyEnd then
      max s.batch.dirtyEnd (index + n) else index + n)
    (hdev : b'.devTensorsBuffer = s.batch.devTensorsBuffer) :
    Inv ⟨b', o', fun h => s.owned h + [].count h⟩ := by
  have h0 := hI.dirty.nonneg
  have h1 := hI.dirty.ordered
  have h2 := hI.dirty.inside
  have hsh := hI.short
  have hsum : (index + n).toInt = index.toInt + n.toInt :=
    Int32.toInt_add_of_range (by omega) (by omega)
  have hrange : s.batch.dirtyBegin.toInt ≠ s.batch.dirtyEnd.toInt ∧
        b'.dirtyBegin.toInt = min s.batch.dirtyBegin.toInt index.toInt ∧
        b'.dirtyEnd.toInt = max s.batch.dirtyEnd.toInt (index.toInt + n.toInt) ∨
      s.batch.dirtyBegin.toInt = s.batch.dirtyEnd.toInt ∧ b'.dirtyBegin.toInt = index.toInt ∧
        b'.dirtyEnd.toInt = index.toInt + n.toInt := by
    by_cases hd : s.batch.dirtyBegin = s.batch.dirtyEnd
    · refine .inr ⟨congrArg _ hd, ?_, ?_⟩
      · rw [hb, if_neg (not_not.2 hd)]
      · rw [he, if_neg (not_not.2 hd), hsum]
    · refine .inl ⟨fun h => hd (Int32.toInt.inj h), ?_, ?_⟩
      · rw [hb, if_pos hd, Int32.toInt_min]
      · rw [he, if_pos hd, Int32.toInt_max, hsum]
  have hlen : b'.tensors.length = s.batch.tensors.length := by
    rw [ht, List.length_append, List.length_append, List.length_take, List.length_drop]
    omega
  -- the tensors before and after the range stay where they are
  have hsame : ∀ i : Nat, ((i : Int) < index.toInt ∨ index.toInt + n.toInt ≤ i) →
      b'.tensors[i]? = s.batch.tensors[i]? := by
    intro i hi'
    rw [ht, List.append_assoc]
    by_cases hlt : (i : Int) < index.toInt
    · rw [List.getElem?_append_left (by rw [List.length_take]; omega),
        List.getElem?_take_of_lt (by omega)]
    · rw [List.getElem?_append_right (by rw [List.length_take]; omega),
        List.getElem?_append_right (by rw [List.length_take]; omega), List.getElem?_drop,
        List.length_take]
      congr 1
      omega
  refine hI.next hm hs0 (fun h => ?_) (by rw [hlen]; exact hsh)
    ⟨by omega, by omega, by rw [hlen]; omega⟩ ?_
  · have hsplit := congrArg (List.count h)
      (List.take_append_drop index.toInt.toNat s.batch.tensors)
    have hsplit' := congrArg (List.count h)
      (List.take_append_drop hs.length (s.batch.tensors.drop index.toInt.toNat))
    rw [List.count_append] at hsplit hsplit'
    rw [List.drop_drop] at hsplit'
    rw [ht, List.count_append, List.count_append, List.count_nil]
    omega
  · intro i h hget hcl
    unfold Clean at hcl ⊢
    rw [hsame i (by omega)] at hget
    exact .inl ⟨hget, by omega, by rw [hdev]⟩

end

/-- **The invariant** is kept by what a call does. -/
theorem Effect.inv {s : Sys} (hI : Inv s) {op : Op} {r : Result} {b' : TensorBatch}
    {o' : Objects TensorData} (h : Effect s.batch s.objs op r b' o') :
    Inv ⟨b', o', fun h => s.owned h + r.given.count h⟩ := by
  cases h with
  | threw e => exact hI
  | idle => exact hI
  | pushThrew e t =>
    exact ⟨hI.null, hI.short, hI.owned, ⟨hI.dirty.nonneg, hI.dirty.ordered, hI.dirty.inside⟩,
      hI.mirror⟩
  | pushed ne short set valid moved =>
    refine pushed_inv hI moved (valid_ne_null hI valid) short rfl rfl rfl ?_
    obtain ⟨rfl, _⟩ | ⟨_, t, rfl⟩ := setLayout_cases hI.short set
    · rfl
    · rfl
  | @popped kept b' o' moved eq =>
    have hb : Inv ⟨b', o', fun h => s.owned h + [].count h⟩ := by
      subst eq
      exact popped_inv hI moved rfl rfl rfl rfl
    -- resetting the attributes changes nothing the invariant reads
    by_cases hz : b'.numTensors = 0
    · rw [if_pos hz]
      exact ⟨hb.null, hb.short, hb.owned, ⟨hb.dirty.nonneg, hb.dirty.ordered, hb.dirty.inside⟩,
        hb.mirror⟩
    · rw [if_neg hz]
      exact hb
  | got held moved =>
    refine hI.next moved (fun h hh => hI.ne_null (held h hh)) (fun h => by simp [Result.given])
      hI.short hI.dirty fun i h hi hcl => .inl ⟨hi, hcl, rfl⟩
  | replaced nonneg length inside valid moved =>
    exact replaced_inv hI moved (valid_ne_null hI valid) nonneg length inside rfl rfl rfl rfl
  | exportThrew e clean =>
    refine hI.next (.refl _) (by simp) (fun h => by simp [Result.given]) hI.short
      ⟨hI.dirty.nonneg, hI.dirty.ordered, hI.dirty.inside⟩ fun i h hi hcl => ?_
    exact .inl ⟨hi, hcl, clean i hcl⟩
  | exported eq clean dirty =>
    subst eq
    refine hI.next (.refl _) (by simp) (fun h => by simp [Result.given]) hI.short
      ⟨hI.dirty.nonneg.trans hI.dirty.ordered, le_refl _, hI.dirty.inside⟩ fun i h hi _ => ?_
    by_cases hcl : Clean s.batch i
    · exact .inl ⟨hi, hcl, clean i hcl⟩
    · exact .inr (dirty i h hi hcl)
  | cleared moved =>
    refine hI.next moved (by simp) (fun h => by simp [Result.given, resetAttributes])
      (by simp [resetAttributes]) ⟨le_refl _, le_refl _, le_refl _⟩ fun i h hi _ => ?_
    simp [resetAttributes] at hi

theorem Effect.moved {b b' : TensorBatch} {o o' : Objects TensorData} {op : Op} {r : Result}
    (h : Effect b o op r b' o') : ∃ released acquired, o.Moved o' released acquired := by
  cases h with
  | pushed _ _ _ _ moved => exact ⟨_, _, moved⟩
  | popped moved => exact ⟨_, _, moved⟩
  | got _ moved => exact ⟨_, _, moved⟩
  | replaced _ _ _ _ moved => exact ⟨_, _, moved⟩
  | cleared moved => exact ⟨_, _, moved⟩
  | _ => exact ⟨_, _, .refl o⟩

/-- A call that throws leaves the handles and the references alone, and a push also the
attributes. -/
theorem Effect.of_threw {b b' : TensorBatch} {o o' : Objects TensorData} {op : Op}
    {e : Exception} (h : Effect b o op (.threw e) b' o') :
    b'.tensors = b.tensors ∧ o' = o ∧ (PushWhole b o op → b'.data = b.data) := by
  cases h with
  | threw => exact ⟨rfl, rfl, fun _ => rfl⟩
  | pushThrew _ t empty whole => exact ⟨rfl, rfl, fun hw => absurd hw whole⟩
  | exportThrew => exact ⟨rfl, rfl, fun _ => rfl⟩

/-! ## Attributes -/

/-- An empty batch reports no attributes, the tensors of any other those it reports. -/
structure Homog (b : TensorBatch) (o : Objects TensorData) : Prop where
  empty : b.tensors = [] → b.rank = -1 ∧ b.dtype = dataTypeNone ∧ b.layout = tensorNone
  fits : ∀ h ∈ b.tensors, ∃ t, o.obj h = some t ∧ Fits b t

theorem Homog.rank_ne {b : TensorBatch} {o : Objects TensorData} (h : Homog b o)
    (hne : b.tensors ≠ []) : b.rank ≠ -1 := by
  obtain ⟨x, hx⟩ := List.exists_mem_of_ne_nil _ hne
  obtain ⟨t, _, hf⟩ := h.fits x hx
  rw [← hf.rank]
  exact ofNat_rank_ne t

theorem fits_of_valid {b : TensorBatch} {o : Objects TensorData} {hs : List Addr}
    (hb : b.rank ≠ -1) (hv : b.validateTensors o hs = .ok ()) :
    ∀ h ∈ hs, ∃ t, o.obj h = some t ∧ Fits b t := by
  intro h hh
  obtain ⟨t, ht, hvt⟩ := validateTensors_ok.1 hv h hh
  exact ⟨t, ht, (validateTensor_ok hb).1 hvt⟩

/-- **Homogeneity** is kept by what a call does, but for a rejected push on an empty batch. -/
theorem Effect.homog {s : Sys} (hI : Inv s) (hH : Homog s.batch s.objs) {op : Op} {r : Result}
    {b' : TensorBatch} {o' : Objects TensorData} (h : Effect s.batch s.objs op r b' o')
    (hw : PushWhole s.batch s.objs op) : Homog b' o' := by
  have hI' := h.inv hI
  -- the tensors the batch holds afterwards are the objects they were
  have hobj : ∀ x ∈ b'.tensors, o'.obj x = s.objs.obj x := by
    obtain ⟨_, _, hm⟩ := h.moved
    exact fun x hx => hm.obj x (hI'.held hx)
  suffices hk : (b'.tensors = [] → b'.rank = -1 ∧ b'.dtype = dataTypeNone ∧
      b'.layout = tensorNone) ∧ ∀ x ∈ b'.tensors, ∃ t, s.objs.obj x = some t ∧ Fits b' t by
    refine ⟨hk.1, fun x hx => ?_⟩
    rw [hobj x hx]
    exact hk.2 x hx
  clear hobj hI'
  cases h with
  | threw e => exact ⟨hH.empty, hH.fits⟩
  | idle => exact ⟨hH.empty, hH.fits⟩
  | pushThrew e t empty whole => exact absurd hw whole
  | @pushed hs b₁ o' ne short set valid moved =>
    refine ⟨fun h0 => absurd (List.append_eq_nil_iff.1 h0).2 ne, ?_⟩
    obtain ⟨rfl, hnil | hne⟩ | ⟨hnil, t, rfl⟩ := setLayout_cases hI.short set
    · exact absurd hnil ne
    · intro x hx
      obtain ⟨t, ht, hf⟩ : ∃ t, s.objs.obj x = some t ∧ Fits s.batch t := by
        rcases List.mem_append.1 hx with hx | hx
        · exact hH.fits x hx
        · exact fits_of_valid (hH.rank_ne hne) valid x hx
      exact ⟨t, ht, hf.rank, hf.dtype, hf.layout⟩
    · intro x hx
      rcases List.mem_append.1 hx with hx | hx
      · simp [hnil] at hx
      · obtain ⟨t', ht', hf⟩ := fits_of_valid (ofNat_rank_ne t) valid x hx
        exact ⟨t', ht', hf.rank, hf.dtype, hf.layout⟩
  | @popped kept b' o' moved eq =>
    by_cases hz : b'.numTensors = 0
    · have hlen : b'.tensors.length < 2 ^ 31 := by
        subst eq
        exact lt_of_le_of_lt (List.length_take_le' kept _) hI.short
      have hnil := (numTensors_eq_zero hlen).1 hz
      simp only [hz, if_true]
      refine ⟨fun _ => ⟨rfl, rfl, rfl⟩, fun x hx => ?_⟩
      rw [show b'.resetAttributes.tensors = [] from hnil] at hx
      simp at hx
    · simp only [hz, if_false]
      subst eq
      refine ⟨fun hnil => absurd ?_ hz, fun x hx => ?_⟩
      · show Int32.ofNat (s.batch.tensors.take kept).length = 0
        rw [show s.batch.tensors.take kept = [] from hnil]
        rfl
      · obtain ⟨t, ht, hf⟩ := hH.fits x (List.mem_of_mem_take hx)
        exact ⟨t, ht, hf.rank, hf.dtype, hf.layout⟩
  | got held moved => exact ⟨hH.empty, hH.fits⟩
  | @replaced index n hs o' nonneg length inside valid moved =>
    have hmem : ∀ x ∈ s.batch.tensors.take index.toInt.toNat ++ hs ++
        s.batch.tensors.drop (index.toInt.toNat + hs.length),
        ∃ t, s.objs.obj x = some t ∧ Fits s.batch t := by
      intro x hx
      rw [List.mem_append, List.mem_append] at hx
      rcases hx with (hx | hx) | hx
      · exact hH.fits x (List.mem_of_mem_take hx)
      · have hne : s.batch.tensors ≠ [] := by
          intro hnil
          have hp := List.length_pos_of_mem hx
          rw [hnil, List.length_nil] at inside
          omega
        exact fits_of_valid (hH.rank_ne hne) valid x hx
      · exact hH.fits x (List.mem_of_mem_drop hx)
    refine ⟨fun hnil => hH.empty ?_, fun x hx => ?_⟩
    · have hlen := congrArg List.length (show _ ++ _ ++ _ = [] from hnil)
      rw [List.length_append, List.length_append, List.length_take, List.length_drop,
        List.length_nil] at hlen
      exact List.length_eq_zero_iff.1 (by omega)
    · obtain ⟨t, ht, hf⟩ := hmem x hx
      exact ⟨t, ht, hf.rank, hf.dtype, hf.layout⟩
  | exportThrew e clean =>
    refine ⟨hH.empty, fun x hx => ?_⟩
    obtain ⟨t, ht, hf⟩ := hH.fits x hx
    exact ⟨t, ht, hf.rank, hf.dtype, hf.layout⟩
  | exported eq clean dirty =>
    subst eq
    refine ⟨hH.empty, fun x hx => ?_⟩
    obtain ⟨t, ht, hf⟩ := hH.fits x hx
    exact ⟨t, ht, hf.rank, hf.dtype, hf.layout⟩
  | cleared moved =>
    refine ⟨fun _ => ⟨rfl, rfl, rfl⟩, fun x hx => ?_⟩
    simp [resetAttributes] at hx

/-! ## Runs -/

/-- The calls that are neither out of range nor too late with a tensor they store. -/
def Sys.Safe (s : Sys) : Event → Prop
  | .call op _ => NoOverflow s.batch op ∧ SetInTime s.batch s.objs op
  | _ => True

/-- The safe calls that do not leave a push half done. -/
def Sys.Whole (s : Sys) : Event → Prop
  | .call op _ => NoOverflow s.batch op ∧ SetInTime s.batch s.objs op ∧
      PushWhole s.batch s.objs op
  | _ => True

def Sys.SafeStep (s : Sys) (e : Event) (s' : Sys) : Prop := s.Safe e ∧ s.Step e s'

def Sys.WholeStep (s : Sys) (e : Event) (s' : Sys) : Prop := s.Whole e ∧ s.Step e s'

theorem Sys.WholeStep.safe {s s' : Sys} {e : Event} (h : s.WholeStep e s') : s.SafeStep e s' := by
  refine ⟨?_, h.2⟩
  cases e with
  | call op r => exact ⟨h.1.1, h.1.2.1⟩
  | _ => trivial

theorem Sys.New.inv {s : Sys} (h : s.New) : Inv s := by
  obtain ⟨capacity, pinned, dev, hb⟩ := h.batch
  have ht : s.batch.tensors = [] := by rw [hb]
  refine ⟨h.null, by simp [ht], fun x => ?_, ?_, fun i x hx => ?_⟩
  · rw [ht, h.owned x]
    simp
  · rw [hb]
    exact ⟨le_refl _, le_refl _, le_refl _⟩
  · simp [ht] at hx

theorem Sys.New.homog {s : Sys} (h : s.New) : Homog s.batch s.objs := by
  obtain ⟨capacity, pinned, dev, hb⟩ := h.batch
  rw [hb]
  exact ⟨fun _ => ⟨rfl, rfl, rfl⟩, fun x hx => by simp at hx⟩

/-- A safe call is one of `Effect`. -/
theorem effect_of_step {s s' : Sys} (hI : Inv s) {op : Op} {r : Result}
    (h : s.SafeStep (.call op r) s') :
    Effect s.batch s.objs op r s'.batch s'.objs ∧
      s'.owned = fun h => s.owned h + r.given.count h := by
  obtain ⟨⟨hov, hset⟩, he, ho⟩ := h
  obtain ⟨r', b', o', he', hf⟩ := exec_effect hI hov hset
  rw [he] at he'
  cases he'
  exact ⟨hf, ho⟩

/-- Another owner's step leaves the batch and its references alone. -/
theorem Inv.other {s : Sys} (hI : Inv s) {objs : Objects TensorData} {owned : Addr → Nat}
    (hnull : objs.refs 0 = 0)
    (hrefs : ∀ x, objs.refs x = s.batch.tensors.count x + owned x)
    (hobj : ∀ x ∈ s.batch.tensors, objs.obj x = s.objs.obj x) :
    Inv ⟨s.batch, objs, owned⟩ := by
  refine ⟨hnull, hI.short, hrefs, hI.dirty, fun i x hx hcl => ?_⟩
  show ∃ t, objs.obj x = some t ∧ Describes (s.batch.devTensorsBuffer i) t
  rw [hobj x (List.mem_of_getElem? hx)]
  exact hI.mirror i x hx hcl

/-- The references another owner moves are its own. -/
theorem Inv.owner {s : Sys} (hI : Inv s) {objs : Objects TensorData} {owned : Addr → Nat}
    {r a : List Addr} (hm : s.objs.Moved objs r a) (ha : ∀ x ∈ a, x ≠ 0)
    (ho : ∀ x, owned x + r.count x = s.owned x + a.count x) : Inv ⟨s.batch, objs, owned⟩ := by
  have hrefs : ∀ x, objs.refs x = s.batch.tensors.count x + owned x := by
    intro x
    have hr := hm.refs x
    have hox := hI.owned x
    have hx := ho x
    omega
  refine hI.other ?_ hrefs fun x hx => hm.obj x (refs_pos_of_owned hrefs hx)
  have hr := hm.refs 0
  have h0 := hI.null
  have hz : a.count 0 = 0 := List.count_eq_zero.2 fun hz => ha 0 hz rfl
  omega

/-- **Every safe step keeps the invariant.** -/
theorem step_inv {s s' : Sys} {e : Event} (hI : Inv s) (h : s.SafeStep e s') : Inv s' := by
  cases e with
  | call op r =>
    obtain ⟨hf, ho⟩ := effect_of_step hI h
    have hI' := hf.inv hI
    rw [← ho] at hI'
    exact hI'
  | create x t =>
    obtain ⟨_, hx0, hnone, rfl⟩ := h
    have hx := RefStore.refs_eq_zero hnone
    refine hI.other ?_ (fun y => ?_) (fun y hy => ?_)
    · rw [RefStore.add, RefStore.refs_update, if_neg (Ne.symm hx0)]
      exact hI.null
    · have hoy := hI.owned y
      rw [RefStore.add, RefStore.refs_update]
      by_cases hyx : y = x
      · subst hyx
        rw [if_pos rfl, Function.update_self]
        have : RefStore.refs (fun _ : Addr => some (t, 0)) y = 1 := rfl
        omega
      · rw [if_neg hyx, Function.update_of_ne hyx]
        exact hoy
    · have hpos := hI.held hy
      rw [RefStore.add, RefStore.obj_update, if_neg]
      rintro rfl
      omega
  | incRef x =>
    obtain ⟨_, objs, ha, rfl⟩ := h
    have hx := RefStore.refs_pos_of_acquire ha
    obtain ⟨objs', ha', hm⟩ := RefStore.acquire_moved hx
    rw [ha] at ha'
    cases ha'
    refine hI.owner hm (fun y hy => ?_) (fun y => ?_)
    · obtain rfl := List.mem_singleton.1 hy
      rintro rfl
      have h0 := hI.null
      omega
    · by_cases hyx : y = x
      · subst hyx
        simp
      · simp [hyx, Ne.symm hyx]
  | decRef x =>
    obtain ⟨_, hox, objs, ha, rfl⟩ := h
    have hx : 0 < s.objs.refs x := by
      have := hI.owned x
      omega
    obtain ⟨objs', ha', hm⟩ := RefStore.release_moved hx
    rw [ha] at ha'
    cases ha'
    refine hI.owner hm (by simp) (fun y => ?_)
    by_cases hyx : y = x
    · subst hyx
      simp only [Function.update_self, List.count_cons_self, List.count_nil]
      omega
    · simp [hyx, Ne.symm hyx]

/-- A tensor stays the same object as long as the batch holds it. -/
theorem step_obj {s s' : Sys} {e : Event} (hI : Inv s) (h : s.SafeStep e s') :
    ∀ x ∈ s.batch.tensors, x ∈ s'.batch.tensors → s'.objs.obj x = s.objs.obj x := by
  intro x hx hx'
  have hpos := (step_inv hI h).held hx'
  cases e with
  | call op r =>
    obtain ⟨_, _, hm⟩ := (effect_of_step hI h).1.moved
    exact hm.obj x hpos
  | create y t =>
    obtain ⟨_, _, hnone, rfl⟩ := h
    have hheld := hI.held hx
    have hy := RefStore.refs_eq_zero hnone
    rw [RefStore.add, RefStore.obj_update, if_neg]
    rintro rfl
    omega
  | incRef y =>
    obtain ⟨_, objs, ha, rfl⟩ := h
    obtain ⟨objs', ha', hm⟩ := RefStore.acquire_moved (RefStore.refs_pos_of_acquire ha)
    rw [ha] at ha'
    cases ha'
    exact hm.obj x hpos
  | decRef y =>
    obtain ⟨_, hoy, objs, ha, rfl⟩ := h
    have hy : 0 < s.objs.refs y := by
      have := hI.owned y
      omega
    obtain ⟨objs', ha', hm⟩ := RefStore.release_moved hy
    rw [ha] at ha'
    cases ha'
    exact hm.obj x hpos

theorem step_homog {s s' : Sys} {e : Event} (hI : Inv s) (hH : Homog s.batch s.objs)
    (h : s.WholeStep e s') : Homog s'.batch s'.objs := by
  have hobj := step_obj hI h.safe
  have hkeep : s'.batch = s.batch → Homog s'.batch s'.objs := by
    intro hb
    rw [hb] at hobj ⊢
    refine ⟨hH.empty, fun x hx => ?_⟩
    rw [hobj x hx hx]
    exact hH.fits x hx
  cases e with
  | call op r => exact (effect_of_step hI h.safe).1.homog hI hH h.1.2.2
  | create x t =>
    obtain ⟨_, _, _, rfl⟩ := h
    exact hkeep rfl
  | incRef x =>
    obtain ⟨_, _, _, rfl⟩ := h
    exact hkeep rfl
  | decRef x =>
    obtain ⟨_, _, _, _, rfl⟩ := h
    exact hkeep rfl

theorem runs_inv {s s' : Sys} {es : List Event} (hs : s.New) (hr : Run Sys.SafeStep s es s') :
    Inv s' :=
  hr.inv (fun _ _ _ hI h => step_inv hI h) hs.inv

/-! ## Three tensors -/

/-- The state after a call. -/
def Sys.after (s : Sys) (op : Op) : Sys :=
  match exec s.batch s.objs op with
  | none => s
  | some (r, b, o) => ⟨b, o, fun h => s.owned h + r.given.count h⟩

theorem after_step {s : Sys} {op : Op} {r : Result}
    (h : (exec s.batch s.objs op).map Prod.fst = some r) :
    s.Step (.call op r) (s.after op) := by
  unfold Sys.after
  cases he : exec s.batch s.objs op with
  | none => simp [he] at h
  | some p =>
    simp only [he, Option.map_some, Option.some.injEq] at h
    subst h
    exact ⟨he, rfl⟩

/-- A vector of one element. -/
def pixel (dtype : DataType) (basePtr : BitVec 64) : TensorData where
  dtype := dtype
  layout := { data := .replicate _ 0, rank := 1 }
  rank := 1
  rank_le := by decide
  shape := .replicate _ 1
  strides := .replicate _ 1
  basePtr := basePtr

def zeroElement : BatchElement := ⟨0, .replicate _ 0, .replicate _ 0⟩

/-- A new batch, and three tensors of one owner: two of one type and one of another. -/
def threeTensors : Sys where
  batch := {
    capacity := 4, pinnedTensorsBuffer := fun _ => zeroElement
    devTensorsBuffer := fun _ => zeroElement }
  objs := fun h =>
    if h = 16#64 then some (pixel 8#64 4096#64, 0)
    else if h = 32#64 then some (pixel 8#64 8192#64, 0)
    else if h = 48#64 then some (pixel 9#64 12288#64, 0)
    else none
  owned := fun h => if h = 16#64 ∨ h = 32#64 ∨ h = 48#64 then 1 else 0

theorem threeTensors_new : threeTensors.New where
  batch := ⟨_, _, _, rfl⟩
  null := rfl
  owned h := by
    unfold threeTensors RefStore.refs
    by_cases h₁ : h = 16#64
    · simp [h₁]
    · by_cases h₂ : h = 32#64
      · simp [h₂]
      · by_cases h₃ : h = 48#64
        · simp [h₃]
        · simp [h₁, h₂, h₃]

/-- The state after the owner of the first tensor gives it up, where the batch holds it. -/
def Sys.givenUp (s : Sys) : Sys :=
  { s with
    objs := Function.update s.objs 16#64 (some (pixel 8#64 4096#64, 0))
    owned := Function.update s.owned 16#64 0 }

def pushTwo : Op := .pushTensors (some fun i => if i = 0 then 16#64 else 32#64) 2

def setOne : Op := .setTensors 0 (some fun _ => 16#64) 1

/-- Two tensors are pushed, the first is stored again, and both are exported. -/
def storedAgain : Sys :=
  ((threeTensors.after pushTwo).after setOne).after (.exportData {})

theorem storedAgain_run : Run Sys.WholeStep threeTensors [.call pushTwo .done, .call setOne .done,
    .call (.exportData {}) (.exported (threeTensors.after pushTwo).batch.data)] storedAgain := by
  have h₁ : threeTensors.WholeStep (.call pushTwo .done) (threeTensors.after pushTwo) := by
    refine ⟨⟨by unfold NoOverflow pushTwo; decide, trivial, fun _ _ b' hb => ?_⟩, after_step rfl⟩
    cases hb
    rfl
  have h₂ : (threeTensors.after pushTwo).WholeStep (.call setOne .done)
      ((threeTensors.after pushTwo).after setOne) := by
    refine ⟨⟨by unfold NoOverflow setOne; decide, fun _ _ _ => ?_, trivial⟩, after_step rfl⟩
    intro k hk y hy
    obtain rfl : k = 0 := Nat.lt_one_iff.1 hk
    obtain rfl : y = 16#64 := List.mem_singleton.1 hy
    decide
  have h₃ : ((threeTensors.after pushTwo).after setOne).WholeStep
      (.call (.exportData {}) (.exported (threeTensors.after pushTwo).batch.data)) storedAgain :=
    ⟨⟨trivial, trivial, trivial⟩, after_step rfl⟩
  exact .cons h₁ (.cons h₂ (.cons h₃ (.nil _)))

/-! ## What holds after every run -/

/-- **Ownership.** After every run of safe steps the references on each tensor are one for each
position that holds it and those of the other owners, no tensor the batch holds is or gets
destroyed, and every safe call has an outcome, which leaves handles and references alone if it
throws. -/
theorem runs_owned {s s' : Sys} {es : List Event} (hs : s.New)
    (hr : Run Sys.SafeStep s es s') :
    (∀ h, s'.objs.refs h = s'.batch.tensors.count h + s'.owned h) ∧
      (∀ h ∈ s'.batch.tensors, s'.objs.obj h ≠ none) ∧
      (∀ e s'', s'.SafeStep e s'' → ∀ h ∈ s'.batch.tensors, h ∈ s''.batch.tensors →
        s''.objs.obj h = s'.objs.obj h) ∧
      (∀ op, NoOverflow s'.batch op → SetInTime s'.batch s'.objs op →
        ∃ r s'', s'.Step (.call op r) s'') ∧
      ∀ op e s'', s'.SafeStep (.call op (.threw e)) s'' →
        s''.batch.tensors = s'.batch.tensors ∧ s''.objs = s'.objs := by
  have hI := runs_inv hs hr
  refine ⟨hI.owned, fun h hh => RefStore.refs_pos.1 (hI.held hh), fun e s'' h => step_obj hI h,
    fun op hov hset => ?_, fun op e s'' h => ?_⟩
  · obtain ⟨r, b', o', he, _⟩ := exec_effect hI hov hset
    exact ⟨r, ⟨b', o', _⟩, he, rfl⟩
  · obtain ⟨ht, ho, _⟩ := (effect_of_step hI h).1.of_threw
    exact ⟨ht, ho⟩

theorem runs_owned_storedAgain :
    storedAgain.objs.refs 16#64 =
        storedAgain.batch.tensors.count 16#64 + storedAgain.owned 16#64 ∧
      storedAgain.objs.obj 16#64 ≠ none :=
  have h := runs_owned threeTensors_new (storedAgain_run.mono fun _ _ _ h => h.safe)
  ⟨h.1 16#64, h.2.1 16#64 (by decide)⟩

def pushOne : Op := .pushTensors (some fun _ => 16#64) 1

/-- The batch holds the last reference on its only tensor. -/
def lastHeld : Sys := (threeTensors.after pushOne).givenUp

theorem lastHeld_run :
    Run Sys.Step threeTensors [.call pushOne .done, .decRef 16#64] lastHeld := by
  have h₁ : threeTensors.Step (.call pushOne .done) (threeTensors.after pushOne) :=
    after_step rfl
  have h₂ : (threeTensors.after pushOne).Step (.decRef 16#64) lastHeld :=
    ⟨by decide, _, rfl, rfl⟩
  exact .cons h₁ (.cons h₂ (.nil _))

/-- Setting that tensor where it is destroys it. -/
theorem set_last_reference :
    ∃ (s s' s'' : Sys) (es : List Event) (op : Op) (e : Exception), s.New ∧
      Run Sys.Step s es s' ∧ s'.Step (.call op (.threw e)) s'' ∧
      s''.objs.refs 16#64 ≠ s'.objs.refs 16#64 ∧
      ∃ h ∈ s''.batch.tensors, s''.objs.obj h = none ∧
        s''.objs.refs h ≠ s''.batch.tensors.count h + s''.owned h := by
  have h : lastHeld.Step (.call setOne (.threw HandleManager.invalidHandle))
      (lastHeld.after setOne) := after_step rfl
  exact ⟨threeTensors, lastHeld, lastHeld.after setOne, _, setOne, _, threeTensors_new,
    lastHeld_run, h, by decide, 16#64, by decide, rfl, by decide⟩

/-- **The device mirror.** After every run of safe steps the dirty range lies in the batch and
the elements outside of it describe the tensors; an export that succeeds leaves a buffer whose
elements describe all tensors. -/
theorem runs_mirrored {s s' : Sys} {es : List Event} (hs : s.New)
    (hr : Run Sys.SafeStep s es s') :
    DirtyRange s'.batch ∧ Mirror s'.batch s'.objs ∧
      ∀ calls data s'', s'.Step (.call (.exportData calls) (.exported data)) s'' →
        data = s'.batch.data ∧ s''.batch.tensors = s'.batch.tensors ∧
        ∀ i h, s''.batch.tensors[i]? = some h →
          ∃ t, s''.objs.obj h = some t ∧ Describes (s''.batch.devTensorsBuffer i) t := by
  have hI := runs_inv hs hr
  refine ⟨hI.dirty, hI.mirror, fun calls data s'' h => ?_⟩
  have hsafe : s'.SafeStep (.call (.exportData calls) (.exported data)) s'' :=
    ⟨⟨trivial, trivial⟩, h⟩
  have hI'' := step_inv hI hsafe
  have hf := (effect_of_step hI hsafe).1
  have hall : data = s'.batch.data ∧ s''.batch.tensors = s'.batch.tensors ∧
      s''.batch.dirtyBegin = s''.batch.dirtyEnd := by
    generalize s''.batch = b'' at hf ⊢
    generalize s''.objs = o'' at hf
    cases hf with
    | exported eq clean dirty =>
      subst eq
      exact ⟨rfl, rfl, rfl⟩
  refine ⟨hall.1, hall.2.1, fun i h hi => hI''.mirror i h hi ?_⟩
  unfold Clean
  rw [hall.2.2]
  omega

theorem runs_mirrored_storedAgain : ∃ t, storedAgain.objs.obj 16#64 = some t ∧
    Describes (storedAgain.batch.devTensorsBuffer 0) t :=
  have h := runs_mirrored threeTensors_new (storedAgain_run.mono fun _ _ _ h => h.safe)
  h.2.1 0 16#64 rfl (.inl (show (0 : Int) < storedAgain.batch.dirtyBegin.toInt by decide))

def swapTwo : Op := .setTensors 0 (some fun i => if i = 0 then 32#64 else 16#64) 2

/-- Two tensors, the first of which only the batch holds, as they were exported. -/
def twoExported : Sys := (threeTensors.after pushTwo).givenUp.after (.exportData {})

/-- Swapping them throws after the first position is written; they are exported again. -/
def halfSwapped : Sys := (twoExported.after swapTwo).after (.exportData {})

theorem halfSwapped_run : ∃ es, Run Sys.Step threeTensors es halfSwapped := by
  have h₁ : threeTensors.Step (.call pushTwo .done) (threeTensors.after pushTwo) :=
    after_step rfl
  have h₂ : (threeTensors.after pushTwo).Step (.decRef 16#64)
      (threeTensors.after pushTwo).givenUp := ⟨by decide, _, rfl, rfl⟩
  have h₃ : (threeTensors.after pushTwo).givenUp.Step
      (.call (.exportData {}) (.exported (threeTensors.after pushTwo).batch.data)) twoExported :=
    after_step rfl
  have h₄ : twoExported.Step (.call swapTwo (.threw HandleManager.invalidHandle))
      (twoExported.after swapTwo) := after_step rfl
  have h₅ : (twoExported.after swapTwo).Step
      (.call (.exportData {}) (.exported (threeTensors.after pushTwo).batch.data)) halfSwapped :=
    after_step rfl
  exact ⟨_, .cons h₁ (.cons h₂ (.cons h₃ (.cons h₄ (.cons h₅ (.nil _)))))⟩

theorem set_stale_element :
    ∃ (s s' : Sys) (es : List Event) (h : Addr), s.New ∧ Run Sys.Step s es s' ∧
      s'.batch.tensors[0]? = some h ∧ Clean s'.batch 0 ∧
      ¬∃ t, s'.objs.obj h = some t ∧ Describes (s'.batch.devTensorsBuffer 0) t := by
  obtain ⟨es, hr⟩ := halfSwapped_run
  refine ⟨threeTensors, halfSwapped, es, 32#64, threeTensors_new, hr, rfl,
    .inl (show (0 : Int) < halfSwapped.batch.dirtyBegin.toInt by decide), ?_⟩
  rintro ⟨t, ht, hd⟩
  have h32 : halfSwapped.objs.obj 32#64 = some (pixel 8#64 8192#64) := rfl
  rw [h32] at ht
  cases ht
  have hdata := hd.data
  exact absurd hdata (by decide)

/-- **Homogeneity.** After every run of safe steps in which no push on an empty batch is rejected
after its first tensor, the batch reports the attributes of its tensors, and none when it is
empty; a push that throws changes nothing. -/
theorem runs_homogeneous {s s' : Sys} {es : List Event} (hs : s.New)
    (hr : Run Sys.WholeStep s es s') :
    (s'.batch.tensors = [] →
        s'.batch.rank = -1 ∧ s'.batch.dtype = dataTypeNone ∧ s'.batch.layout = tensorNone) ∧
      (∀ h ∈ s'.batch.tensors, ∃ t, s'.objs.obj h = some t ∧ Fits s'.batch t) ∧
      ∀ tensors n e s'', s'.WholeStep (.call (.pushTensors tensors n) (.threw e)) s'' →
        s''.batch.data = s'.batch.data ∧ s''.batch.tensors = s'.batch.tensors ∧
          s''.objs = s'.objs := by
  have hIH : Inv s' ∧ Homog s'.batch s'.objs :=
    hr.inv (P := fun s => Inv s ∧ Homog s.batch s.objs)
      (fun _ _ _ hI h => ⟨step_inv hI.1 h.safe, step_homog hI.1 hI.2 h⟩) ⟨hs.inv, hs.homog⟩
  refine ⟨hIH.2.empty, hIH.2.fits, fun tensors n e s'' h => ?_⟩
  obtain ⟨ht, ho, hd⟩ := (effect_of_step hIH.1 h.safe).1.of_threw
  exact ⟨hd h.1.2.2, ht, ho⟩

theorem runs_homogeneous_storedAgain :
    ∃ t, storedAgain.objs.obj 32#64 = some t ∧ Fits storedAgain.batch t :=
  have h := runs_homogeneous threeTensors_new storedAgain_run
  h.2.1 32#64 (by decide)

def pushMixed : Op := .pushTensors (some fun i => if i = 0 then 16#64 else 48#64) 2

/-- A push on an empty batch whose second tensor has another type. -/
theorem push_leaves_attributes :
    ∃ (s s' : Sys) (op : Op) (e : Exception), s.New ∧ s.Step (.call op (.threw e)) s' ∧
      s'.batch.tensors = [] ∧ s'.batch.rank ≠ -1 ∧ s'.batch.data ≠ s.batch.data := by
  have h : threeTensors.Step (.call pushMixed (.threw (invalidArgument
      "Trying to add a tensor to a tensor batch with an inconsistent type.")))
      (threeTensors.after pushMixed) := after_step rfl
  exact ⟨threeTensors, threeTensors.after pushMixed, pushMixed, _, threeTensors_new, h, rfl,
    by decide, by decide⟩

end Nvcv.TensorBatch
