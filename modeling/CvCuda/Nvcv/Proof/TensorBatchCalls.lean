import CvCuda.Lib.Int32
import CvCuda.Nvcv.TensorBatch

/-! # The calls of tensor batches

`Inv s`: the references on each tensor are those of the batch, one for each position that holds
it, and those of the other owners; the dirty range lies in the batch, and outside of it the
elements on the device describe the tensors.

* `push_spec`, `pop_spec`, `get_spec`, `set_spec`, `export_spec`, `clear_spec`: what each function
  does in a state with `Inv`.
* `exec_effect`: a call whose positions do not overflow (`NoOverflow`), and that loses no tensor it
  still has to store (`SetInTime`), does one of `Effect`.
-/

namespace Nvcv.TensorBatch

/-! ## Lengths -/

theorem toInt_numTensors {b : TensorBatch} (h : b.tensors.length < 2 ^ 31) :
    b.numTensors.toInt = b.tensors.length :=
  Int32.toInt_ofNat_of_lt h

theorem numTensors_eq_zero {b : TensorBatch} (h : b.tensors.length < 2 ^ 31) :
    b.numTensors = 0 ↔ b.tensors = [] := by
  rw [← Int32.toInt_inj, toInt_numTensors h, ← List.length_eq_zero_iff]
  exact Int.natCast_eq_zero

@[simp] theorem length_handles (tensors : Nat → Addr) (n : Int32) :
    (handles tensors n).length = n.toInt.toNat := by
  simp [handles]

/-! ## Layouts -/

theorem memcmp_eq_zero {xs ys : List UInt8} (hl : xs.length = ys.length) :
    memcmp xs ys = 0 ↔ xs = ys := by
  induction xs generalizing ys with
  | nil =>
    cases ys with
    | nil => simp [memcmp]
    | cons y ys => simp at hl
  | cons x xs ih =>
    cases ys with
    | nil => simp at hl
    | cons y ys =>
      have hl' : xs.length = ys.length := by simpa using hl
      unfold memcmp
      by_cases h₁ : x < y
      · rw [if_pos h₁]
        simp [UInt8.ne_of_lt h₁]
      · rw [if_neg h₁]
        by_cases h₂ : y < x
        · rw [if_pos h₂]
          simp [(UInt8.ne_of_lt h₂).symm]
        · rw [if_neg h₂, ih hl']
          have hxy : x = y := UInt8.le_antisymm (UInt8.not_lt.1 h₂) (UInt8.not_lt.1 h₁)
          simp [hxy]

/-- Layouts compare equal when they have the same labels. -/
theorem layoutCompare_eq_zero {a b : TensorLayout} :
    nvcvTensorLayoutCompare a b = 0 ↔ a.rank = b.rank ∧ a.labels = b.labels := by
  unfold nvcvTensorLayoutCompare
  by_cases h : a.rank = b.rank
  · rw [if_pos h, memcmp_eq_zero (by simp [TensorLayout.labels, h])]
    simp [h]
  · rw [if_neg h]
    constructor
    · intro h0
      rw [Int32.sub_eq_iff_eq_add, Int32.zero_add] at h0
      exact absurd h0 h
    · intro h0
      exact absurd h0.1 h

/-! ## The checks -/

/-- The attributes of a tensor are the ones the batch reports. -/
structure Fits (b : TensorBatch) (t : TensorData) : Prop where
  rank : Int32.ofNat t.rank = b.rank
  dtype : t.dtype = b.dtype
  layout : t.layout.rank = b.layout.rank ∧ t.layout.labels = b.layout.labels

theorem ofNat_rank_ne (t : TensorData) : Int32.ofNat t.rank ≠ -1 := by
  intro h
  have hr := t.rank_le
  have ht := congrArg Int32.toInt h
  rw [Int32.toInt_ofNat_of_lt (by unfold tensorMaxRank at hr; omega)] at ht
  have h1 : (-1 : Int32).toInt = -1 := rfl
  omega

theorem validateTensor_ok {b : TensorBatch} {t : TensorData} (hb : b.rank ≠ -1) :
    b.validateTensor t = .ok () ↔ Fits b t := by
  unfold validateTensor
  constructor
  · intro h
    split_ifs at h with h₁ h₂ h₃
    exact ⟨by simpa [hb] using h₁, not_not.1 h₂, layoutCompare_eq_zero.1 (not_not.1 h₃)⟩
  · intro h
    rw [if_neg (by simp [h.rank]), if_neg (by simp [h.dtype]),
      if_neg (by simp [layoutCompare_eq_zero.2 h.layout])]

theorem validateTensors_ok {b : TensorBatch} {o : Objects TensorData} {hs : List Addr} :
    b.validateTensors o hs = .ok () ↔
      ∀ h ∈ hs, ∃ t, o.obj h = some t ∧ b.validateTensor t = .ok () := by
  induction hs with
  | nil => simp [validateTensors]
  | cons x xs ih =>
    unfold validateTensors
    cases hx : toStaticRef x o with
    | error e =>
      have hn : ∀ t, o.obj x ≠ some t := fun t ht => by
        rw [toStaticRef_ok.2 ht] at hx
        cases hx
      simp [hn]
    | ok t =>
      have ht := toStaticRef_ok.1 hx
      cases hv : b.validateTensor t with
      | error e => simp [ht, hv]
      | ok u => simp [ht, hv, ih]

theorem validateTensors_live {b : TensorBatch} {o : Objects TensorData} {hs : List Addr}
    (h : b.validateTensors o hs = .ok ()) : ∀ x ∈ hs, 0 < o.refs x := by
  intro x hx
  obtain ⟨t, ht, _⟩ := validateTensors_ok.1 h x hx
  exact RefStore.refs_pos.2 (by simp [ht])

/-- `setLayoutAndDType` changes nothing but the attributes, and these on an empty batch only. -/
theorem setLayout_cases {b b' : TensorBatch} {o : Objects TensorData} {hs : List Addr}
    (hb : b.tensors.length < 2 ^ 31) (h : b.setLayoutAndDType o hs = .ok b') :
    (b' = b ∧ (hs = [] ∨ b.tensors ≠ [])) ∨
      (b.tensors = [] ∧ ∃ t : TensorData, b' =
        { b with rank := Int32.ofNat t.rank, dtype := t.dtype, layout := t.layout }) := by
  unfold setLayoutAndDType at h
  cases hs with
  | nil =>
    cases h
    exact .inl ⟨rfl, .inl rfl⟩
  | cons x xs =>
    by_cases h0 : b.numTensors = 0
    · simp only [h0, if_true] at h
      cases hx : toStaticRef x o with
      | error e =>
        rw [hx] at h
        cases h
      | ok t =>
        rw [hx] at h
        cases h
        exact .inr ⟨(numTensors_eq_zero hb).1 h0, t, rfl⟩
    · simp only [h0, if_false] at h
      cases h
      exact .inl ⟨rfl, .inr fun hn => h0 ((numTensors_eq_zero hb).2 hn)⟩

/-! ## The invariant -/

/-- An element of the device buffer describes a tensor. -/
structure Describes (e : BatchElement) (t : TensorData) : Prop where
  data : e.data = t.basePtr
  shape : ∀ d : Fin tensorMaxRank, d.1 < t.rank → e.shape.get d = t.shape.get d
  stride : ∀ d : Fin tensorMaxRank, d.1 < t.rank → e.stride.get d = t.strides.get d

/-- Position `i` is not in the dirty range. -/
def Clean (b : TensorBatch) (i : Nat) : Prop := i < b.dirtyBegin.toInt ∨ b.dirtyEnd.toInt ≤ i

/-- The element of every clean position describes the tensor there. -/
def Mirror (b : TensorBatch) (o : Objects TensorData) : Prop :=
  ∀ i h, b.tensors[i]? = some h → Clean b i →
    ∃ t, o.obj h = some t ∧ Describes (b.devTensorsBuffer i) t

/-- The dirty range lies in the batch. -/
structure DirtyRange (b : TensorBatch) : Prop where
  nonneg : 0 ≤ b.dirtyBegin.toInt
  ordered : b.dirtyBegin.toInt ≤ b.dirtyEnd.toInt
  inside : b.dirtyEnd.toInt ≤ b.tensors.length

structure Inv (s : Sys) : Prop where
  null : s.objs.refs 0 = 0
  short : s.batch.tensors.length < 2 ^ 31
  owned : ∀ h, s.objs.refs h = s.batch.tensors.count h + s.owned h
  dirty : DirtyRange s.batch
  mirror : Mirror s.batch s.objs

theorem refs_pos_of_owned {o : Objects TensorData} {tensors : List Addr} {n : Addr → Nat}
    (ho : ∀ h, o.refs h = tensors.count h + n h) {h : Addr} (hh : h ∈ tensors) :
    0 < o.refs h := by
  have hc := List.count_pos_iff.2 hh
  have hoh := ho h
  omega

theorem Inv.held {s : Sys} (hI : Inv s) {h : Addr} (hh : h ∈ s.batch.tensors) :
    0 < s.objs.refs h :=
  refs_pos_of_owned hI.owned hh

theorem Inv.ne_null {s : Sys} (hI : Inv s) {h : Addr} (hh : h ∈ s.batch.tensors) : h ≠ 0 := by
  rintro rfl
  have h0 := hI.null
  have hp := hI.held hh
  omega

/-- Tensors that are still referenced are still described. -/
theorem Mirror.moved {b : TensorBatch} {o o' : Objects TensorData} {r a : List Addr}
    (h : Mirror b o) (hm : o.Moved o' r a) (hl : ∀ x ∈ b.tensors, 0 < o'.refs x) :
    Mirror b o' := by
  intro i x hx hc
  obtain ⟨t, ht, hd⟩ := h i x hx hc
  exact ⟨t, by rw [hm.obj x (hl x (List.mem_of_getElem? hx)), ht], hd⟩

/-! ## What each call does -/

section
variable {b : TensorBatch} {o : Objects TensorData}

/-- A push is rejected, does nothing, or appends valid tensors. -/
theorem push_spec (hb : b.tensors.length < 2 ^ 31) (tensors : Nat → Addr) {n : Int32}
    (hn : b.tensors.length + n.toInt < 2 ^ 31) :
    ∃ r b' o', b.pushTensors tensors n o = some (r, b', o') ∧
      ((∃ e, r = .error e ∧ o' = o ∧ (b' = b ∨ n.toInt ≤ b.capacity.toInt - b.tensors.length ∧
          b.setLayoutAndDType o (handles tensors n) = .ok b' ∧
          b'.validateTensors o (handles tensors n) ≠ .ok ())) ∨
        (r = .ok () ∧ b' = b ∧ o' = o) ∨
        (r = .ok () ∧ o.Moved o' [] (handles tensors n) ∧ ∃ b₁,
          b.setLayoutAndDType o (handles tensors n) = .ok b₁ ∧ handles tensors n ≠ [] ∧
          b₁.validateTensors o (handles tensors n) = .ok () ∧
          b' = { b₁ with
            tensors := b.tensors ++ handles tensors n
            dirtyBegin := if b.dirtyEnd = b.dirtyBegin then b.numTensors else b.dirtyBegin
            dirtyEnd := Int32.ofNat (b.tensors ++ handles tensors n).length })) := by
  unfold pushTensors
  by_cases h0 : n = 0
  · rw [if_pos h0]
    exact ⟨_, _, _, rfl, .inr (.inl ⟨rfl, rfl, rfl⟩)⟩
  rw [if_neg h0]
  by_cases hneg : n < 0
  · rw [if_pos hneg]
    exact ⟨_, _, _, rfl, .inl ⟨_, rfl, rfl, .inl rfl⟩⟩
  rw [if_neg hneg]
  have hpos : 0 < n.toInt := by
    rw [Int32.lt_iff_toInt_lt] at hneg
    rw [← Int32.toInt_inj] at h0
    have : (0 : Int32).toInt = 0 := rfl
    omega
  by_cases hcap : b.numTensors + n > b.capacity
  · rw [if_pos hcap]
    exact ⟨_, _, _, rfl, .inl ⟨_, rfl, rfl, .inl rfl⟩⟩
  rw [if_neg hcap]
  have hle : b.tensors.length + n.toInt ≤ b.capacity.toInt := by
    rw [gt_iff_lt, Int32.lt_iff_toInt_lt, Int32.toInt_add_of_range, toInt_numTensors hb] at hcap
    · omega
    · rw [toInt_numTensors hb]
      omega
    · rw [toInt_numTensors hb]
      exact hn
  cases hs : b.setLayoutAndDType o (handles tensors n) with
  | error e =>
    simp only [hs]
    exact ⟨_, _, _, rfl, .inl ⟨_, rfl, rfl, .inl rfl⟩⟩
  | ok b₁ =>
    simp only [hs]
    cases hv : b₁.validateTensors o (handles tensors n) with
    | error e =>
      simp only
      refine ⟨_, _, _, rfl, .inl ⟨_, rfl, rfl, .inr ⟨by omega, rfl, ?_⟩⟩⟩
      rw [hv]
      exact fun h => nomatch h
    | ok u =>
      simp only
      have hk : b₁.tensors = b.tensors ∧ b₁.capacity = b.capacity ∧
          b₁.dirtyBegin = b.dirtyBegin ∧ b₁.dirtyEnd = b.dirtyEnd := by
        obtain ⟨rfl, _⟩ | ⟨_, t, rfl⟩ := setLayout_cases hb hs
        · exact ⟨rfl, rfl, rfl, rfl⟩
        · exact ⟨rfl, rfl, rfl, rfl⟩
      obtain ⟨o', ho, hm⟩ := coreObjectIncRefs_spec (validateTensors_live hv)
      unfold appendTensors
      rw [if_neg (by rw [hk.1, hk.2.1, length_handles]; omega), ho]
      refine ⟨_, _, _, rfl, .inr (.inr ⟨rfl, hm, b₁, rfl, ?_, hv, ?_⟩)⟩
      · intro hnil
        have hlen := length_handles tensors n
        rw [hnil, List.length_nil] at hlen
        omega
      · simp only [numTensors, hk.1, hk.2.2.1, hk.2.2.2]

/-- A pop is rejected, or releases the last tensors. -/
theorem pop_spec (hb : b.tensors.length < 2 ^ 31) (h0 : ∀ h ∈ b.tensors, h ≠ 0)
    (hc : ∀ h, b.tensors.count h ≤ o.refs h) (n : Int32) :
    (∃ e, b.popTensors n o = (.error e, b, o)) ∨
      ∃ o', 0 ≤ n.toInt ∧ n.toInt ≤ b.tensors.length ∧
        o.Moved o' (b.tensors.drop (b.tensors.length - n.toInt.toNat)) [] ∧
        ∃ b', b' = { b with
            tensors := b.tensors.take (b.tensors.length - n.toInt.toNat)
            dirtyBegin := min b.dirtyBegin (min b.dirtyEnd (Int32.ofNat
              (b.tensors.take (b.tensors.length - n.toInt.toNat)).length))
            dirtyEnd := min b.dirtyEnd (Int32.ofNat
              (b.tensors.take (b.tensors.length - n.toInt.toNat)).length) } ∧
          b.popTensors n o = (.ok (), if b'.numTensors = 0 then b'.resetAttributes else b', o') := by
  unfold popTensors
  by_cases hneg : n < 0
  · rw [if_pos hneg]
    exact .inl ⟨_, rfl⟩
  rw [if_neg hneg]
  by_cases hgt : n > b.numTensors
  · rw [if_pos hgt]
    exact .inl ⟨_, rfl⟩
  rw [if_neg hgt]
  rw [Int32.lt_iff_toInt_lt] at hneg
  rw [gt_iff_lt, Int32.lt_iff_toInt_lt, toInt_numTensors hb] at hgt
  have hz : (0 : Int32).toInt = 0 := rfl
  obtain ⟨o', ho, hm⟩ := coreObjectDecRefs_spec (o := o)
    (fun x hx => h0 x (List.mem_of_mem_drop hx))
    (fun x => ((List.drop_sublist (b.tensors.length - n.toInt.toNat) _).count_le x).trans (hc x))
  refine .inr ⟨o', by omega, by omega, hm, _, rfl, ?_⟩
  simp only [ho]
  rfl

/-- A get is rejected, or gives the handles in the range. -/
theorem get_spec (hb : b.tensors.length < 2 ^ 31) (hl : ∀ h ∈ b.tensors, 0 < o.refs h)
    {index n : Int32} (hi : 0 ≤ index.toInt) (hn : 0 ≤ n.toInt)
    (hov : index.toInt + n.toInt < 2 ^ 31) :
    (∃ e, b.getTensors index n o = some (.error e, o)) ∨
      ∃ o' out, o.Moved o' [] out ∧ (∀ h ∈ out, h ∈ b.tensors) ∧
        b.getTensors index n o = some (.ok out, o') := by
  unfold getTensors
  by_cases hgt : index + n > b.numTensors
  · rw [if_pos hgt]
    exact .inl ⟨_, rfl⟩
  rw [if_neg hgt]
  by_cases hneg : index < 0
  · rw [if_pos hneg]
    exact .inl ⟨_, rfl⟩
  rw [if_neg hneg]
  rw [gt_iff_lt, Int32.lt_iff_toInt_lt, Int32.toInt_add_of_range (by omega) (by omega),
    toInt_numTensors hb] at hgt
  rw [if_neg (by omega)]
  have hsub : ∀ x ∈ (b.tensors.drop index.toInt.toNat).take n.toInt.toNat, x ∈ b.tensors :=
    fun x hx => List.mem_of_mem_drop (List.mem_of_mem_take hx)
  obtain ⟨o', ho, hm⟩ := coreObjectIncRefs_spec fun x hx => hl x (hsub x hx)
  simp only [ho]
  exact .inr ⟨o', _, hm, hsub, rfl⟩

/-- No tensor that `setTensors` still has to store loses its last reference before: `old` are the
handles it overwrites with `hs`. -/
def InTime (o : Objects TensorData) (old hs : List Addr) : Prop :=
  ∀ k < hs.length, ∀ h ∈ hs.drop k,
    (old.take (k + 1)).count h < o.refs h + (hs.take k).count h

theorem InTime.tail {o' : Objects TensorData} {x h : Addr} {old hs : List Addr}
    (ht : InTime o (x :: old) (h :: hs))
    (hr : ∀ y, o'.refs y + [x].count y = o.refs y + [h].count y) : InTime o' old hs := by
  intro k hk y hy
  have hlt := ht (k + 1) (by simpa using hk) y hy
  have hry := hr y
  simp only [List.take_succ_cons, List.count_cons, List.count_nil] at hlt hry ⊢
  omega

theorem setLoop_spec (i : Nat) (hs : List Addr) (h0 : o.refs 0 = 0)
    (hc : ∀ h, b.tensors.count h ≤ o.refs h) (hi : i + hs.length ≤ b.tensors.length)
    (ht : InTime o ((b.tensors.drop i).take hs.length) hs) :
    ∃ o', setLoop i hs b o = some (.ok (), { b with
        tensors := b.tensors.take i ++ hs ++ b.tensors.drop (i + hs.length) }, o') ∧
      o.Moved o' ((b.tensors.drop i).take hs.length) hs := by
  induction hs generalizing i b o with
  | nil =>
    refine ⟨o, ?_, by simpa using RefStore.Moved.refl o⟩
    simp [setLoop]
  | cons h hs ih =>
    have hlt : i < b.tensors.length := by
      rw [List.length_cons] at hi
      omega
    have hold : b.tensors[i]? = some b.tensors[i] := List.getElem?_eq_getElem hlt
    have hsplit : (b.tensors.drop i).take (h :: hs).length =
        b.tensors[i] :: (b.tensors.drop (i + 1)).take hs.length := by
      rw [List.drop_eq_getElem_cons hlt, List.length_cons, List.take_succ_cons]
    rw [hsplit] at ht ⊢
    have hx : 0 < o.refs b.tensors[i] := by
      have hcx := hc b.tensors[i]
      have hcp := List.count_pos_iff.2 (List.getElem_mem hlt)
      omega
    have hx0 : b.tensors[i] ≠ 0 := by
      intro hz
      rw [hz] at hx
      omega
    obtain ⟨o₁, e₁, m₁⟩ := coreObjectDecRef_spec hx0 hx
    -- the new tensor still has a reference after the old one is released
    have hh : 0 < o₁.refs h := by
      have hlt := ht 0 (by simp) h (by simp)
      have hr := m₁.refs h
      simp only [List.take_succ_cons, List.take_zero, List.count_cons, List.count_nil] at hlt hr
      omega
    obtain ⟨o₂, e₂, m₂⟩ := coreObjectIncRef_spec hh
    have hm : o.Moved o₂ [b.tensors[i]] [h] := m₁.trans m₂
    have hc₂ : ∀ y, (b.tensors.set i h).count y ≤ o₂.refs y := by
      intro y
      have hr := hm.refs y
      have hcy := hc y
      rw [List.count_set hlt]
      simp only [List.count_cons, List.count_nil] at hr
      have hmem : (if b.tensors[i] == y then 1 else 0) ≤ b.tensors.count y := by
        by_cases hy : b.tensors[i] = y
        · have hcp := List.count_pos_iff.2 (List.getElem_mem hlt)
          rw [hy] at hcp
          simp only [hy, beq_self_eq_true, if_true]
          omega
        · simp [hy]
      omega
    have h0₂ : o₂.refs 0 = 0 := by
      have hr := hm.refs 0
      have hh0 : h ≠ 0 := by
        intro hz
        have hr₁ := m₁.refs 0
        rw [hz] at hh
        simp only [List.count_nil] at hr₁
        omega
      simp only [List.count_cons, List.count_nil, beq_iff_eq, hh0, hx0, if_false] at hr
      omega
    have htl := ht.tail hm.refs
    rw [List.length_cons] at hi
    obtain ⟨o₃, e₃, m₃⟩ := ih (b := { b with tensors := b.tensors.set i h }) (i + 1) h0₂ hc₂
      (by rw [List.length_set]; omega)
      (by rw [List.drop_set_of_lt (by omega)]; exact htl)
    have hlist : (b.tensors.set i h).take (i + 1) ++ hs ++
        (b.tensors.set i h).drop (i + 1 + hs.length) =
          b.tensors.take i ++ h :: hs ++ b.tensors.drop (i + (h :: hs).length) := by
      rw [List.take_add_one, List.getElem?_set_self hlt, List.take_set_of_le (le_refl i),
        List.drop_set_of_lt (by omega), List.length_cons, Nat.add_right_comm, Nat.add_assoc]
      simp
    rw [hlist] at e₃
    rw [List.drop_set_of_lt (by omega)] at m₃
    refine ⟨o₃, ?_, hm.trans m₃⟩
    simp only [setLoop, hold, e₁, e₂]
    exact e₃

/-- A set is rejected, or replaces the tensors in its range by valid ones. -/
theorem set_spec (hb : b.tensors.length < 2 ^ 31) (h0 : o.refs 0 = 0)
    (hc : ∀ h, b.tensors.count h ≤ o.refs h) (tensors : Nat → Addr) {index n : Int32}
    (hi : 0 ≤ index.toInt) (hn : 0 ≤ n.toInt) (hov : index.toInt + n.toInt < 2 ^ 31)
    (ht : index.toInt + n.toInt ≤ b.tensors.length →
      b.validateTensors o (handles tensors n) = .ok () →
      InTime o ((b.tensors.drop index.toInt.toNat).take n.toInt.toNat) (handles tensors n)) :
    (∃ e, b.setTensors index tensors n o = some (.error e, b, o)) ∨
      ∃ o', index.toInt + n.toInt ≤ b.tensors.length ∧
        b.validateTensors o (handles tensors n) = .ok () ∧
        o.Moved o' ((b.tensors.drop index.toInt.toNat).take n.toInt.toNat) (handles tensors n) ∧
        b.setTensors index tensors n o = some (.ok (), { b with
          tensors := b.tensors.take index.toInt.toNat ++ handles tensors n ++
            b.tensors.drop (index.toInt.toNat + n.toInt.toNat)
          dirtyBegin := if b.dirtyBegin ≠ b.dirtyEnd then min b.dirtyBegin index else index
          dirtyEnd := if b.dirtyBegin ≠ b.dirtyEnd then max b.dirtyEnd (index + n)
            else index + n }, o') := by
  unfold setTensors
  by_cases hgt : index + n > b.numTensors
  · rw [if_pos hgt]
    exact .inl ⟨_, rfl⟩
  rw [if_neg hgt]
  by_cases hneg : index < 0
  · rw [if_pos hneg]
    exact .inl ⟨_, rfl⟩
  rw [if_neg hneg]
  rw [gt_iff_lt, Int32.lt_iff_toInt_lt, Int32.toInt_add_of_range (by omega) (by omega),
    toInt_numTensors hb] at hgt
  cases hv : b.validateTensors o (handles tensors n) with
  | error e =>
    simp only [hv]
    exact .inl ⟨_, rfl⟩
  | ok u =>
    obtain ⟨o', he, hm⟩ := setLoop_spec index.toInt.toNat (handles tensors n) h0 hc
      (by rw [length_handles]; omega)
      (by rw [length_handles]; exact ht (by omega) hv)
    rw [length_handles] at he hm
    refine .inr ⟨o', by omega, rfl, hm, ?_⟩
    simp only [hv, he]
    by_cases hd : b.dirtyBegin ≠ b.dirtyEnd
    · simp [hd]
    · simp [hd]

/-! ## The export -/

theorem writeElement_describes (e : BatchElement) (t : TensorData) :
    Describes (writeElement e t) t := by
  have key : ∀ (a v : Vector Int64 tensorMaxRank) (d : Fin tensorMaxRank), d.1 < t.rank →
      (overwrite a (v.toList.take t.rank))[d] = v[d] := by
    intro a v d hd
    simp [overwrite, List.getD, List.getElem?_take, hd]
  exact ⟨rfl, key _ _, key _ _⟩

theorem fillLoop_spec (i : Nat) (hs : List Addr) (pinned : Nat → BatchElement)
    (hl : ∀ h ∈ hs, 0 < o.refs h) :
    ∃ pinned', fillLoop o i hs pinned = (.ok (), pinned') ∧
      (∀ j < i, pinned' j = pinned j) ∧
      ∀ k h, hs[k]? = some h → ∃ t, o.obj h = some t ∧ Describes (pinned' (i + k)) t := by
  induction hs generalizing i pinned with
  | nil => exact ⟨pinned, rfl, fun _ _ => rfl, by simp⟩
  | cons x xs ih =>
    obtain ⟨t, ht⟩ := Option.ne_none_iff_exists'.1 (RefStore.refs_pos.1 (hl x (by simp)))
    obtain ⟨pinned', he, hbelow, hdesc⟩ := ih (i + 1)
      (Function.update pinned i (writeElement (pinned i) t))
      (fun h hh => hl h (List.mem_cons_of_mem _ hh))
    refine ⟨pinned', ?_, fun j hj => ?_, fun k h hk => ?_⟩
    · simp only [fillLoop, toStaticRef_ok.2 ht]
      exact he
    · rw [hbelow j (by omega), Function.update_of_ne (by omega)]
    · cases k with
      | zero =>
        obtain rfl : x = h := by simpa using hk
        refine ⟨t, ht, ?_⟩
        rw [Nat.add_zero, hbelow i (by omega), Function.update_self]
        exact writeElement_describes _ _
      | succ k =>
        obtain ⟨t', ht', hd⟩ := hdesc k h (by simpa using hk)
        exact ⟨t', ht', by rwa [Nat.add_assoc, Nat.add_comm 1 k] at hd⟩

/-- An export writes elements of the dirty range only; one that succeeds writes them all. -/
theorem export_spec (hd : DirtyRange b) (hl : ∀ h ∈ b.tensors, 0 < o.refs h)
    (calls : ExportCalls) :
    ∃ r b' pinned dev, b.exportData calls o = some (r, b') ∧
      (∀ i, Clean b i → dev i = b.devTensorsBuffer i) ∧
      ((b' = { b with pinnedTensorsBuffer := pinned, devTensorsBuffer := dev } ∧
          ∃ e, r = .error e) ∨
        (b' = { b with
            pinnedTensorsBuffer := pinned, devTensorsBuffer := dev, dirtyBegin := b.dirtyEnd } ∧
          r = .ok b'.data ∧ ∀ i h, b.tensors[i]? = some h → ¬Clean b i →
            ∃ t, o.obj h = some t ∧ Describes (dev i) t)) := by
  have h0 := hd.nonneg
  have h1 := hd.ordered
  have h2 := hd.inside
  unfold exportData
  by_cases hlt : b.dirtyBegin < b.dirtyEnd
  swap
  · rw [if_neg hlt]
    rw [Int32.lt_iff_toInt_lt] at hlt
    have heq : b.dirtyBegin = b.dirtyEnd := Int32.toInt.inj (by omega)
    refine ⟨_, _, b.pinnedTensorsBuffer, b.devTensorsBuffer, rfl, fun _ _ => rfl,
      .inr ⟨congrArg (fun d => { b with dirtyBegin := d }) heq, rfl, fun i h _ hn => absurd ?_ hn⟩⟩
    unfold Clean
    omega
  rw [if_pos hlt]
  cases calls.eventSynchronize with
  | error e => exact ⟨_, _, _, _, rfl, fun _ _ => rfl, .inl ⟨rfl, e, rfl⟩⟩
  | ok u =>
    have hb : ¬(b.dirtyBegin < 0 ∨ b.tensors.length < b.dirtyEnd.toInt.toNat) := by
      rw [Int32.lt_iff_toInt_lt]
      have : (0 : Int32).toInt = 0 := rfl
      omega
    obtain ⟨pinned, hf, _, hdesc⟩ := fillLoop_spec (o := o) b.dirtyBegin.toInt.toNat
      ((b.tensors.drop b.dirtyBegin.toInt.toNat).take
        (b.dirtyEnd.toInt.toNat - b.dirtyBegin.toInt.toNat)) b.pinnedTensorsBuffer
      (fun h hh => hl h (List.mem_of_mem_drop (List.mem_of_mem_take hh)))
    simp only [hb, if_false, hf]
    have hclean : ∀ i, Clean b i → (if b.dirtyBegin.toInt.toNat ≤ i ∧ i < b.dirtyEnd.toInt.toNat
        then pinned i else b.devTensorsBuffer i) = b.devTensorsBuffer i := by
      intro i hi
      unfold Clean at hi
      rw [if_neg (by omega)]
    cases calls.memcpyAsync with
    | error e => exact ⟨_, _, _, _, rfl, fun _ _ => rfl, .inl ⟨rfl, e, rfl⟩⟩
    | ok u =>
      cases calls.eventRecord with
      | error e => exact ⟨_, _, _, _, rfl, hclean, .inl ⟨rfl, e, rfl⟩⟩
      | ok u =>
        refine ⟨_, _, _, _, rfl, hclean, .inr ⟨rfl, rfl, fun i h hi hn => ?_⟩⟩
        unfold Clean at hn
        rw [if_pos (by omega)]
        have hk := hdesc (i - b.dirtyBegin.toInt.toNat) h (by
          rw [List.getElem?_take_of_lt (by omega), List.getElem?_drop, ← hi]
          congr 1
          omega)
        rwa [show b.dirtyBegin.toInt.toNat + (i - b.dirtyBegin.toInt.toNat) = i by omega] at hk

theorem clear_spec (h0 : ∀ h ∈ b.tensors, h ≠ 0) (hc : ∀ h, b.tensors.count h ≤ o.refs h) :
    ∃ o', o.Moved o' b.tensors [] ∧ b.clear o = (.ok (),
      { b with tensors := [], dirtyBegin := 0, dirtyEnd := 0 }.resetAttributes, o') := by
  obtain ⟨o', ho, hm⟩ := coreObjectDecRefs_spec h0 hc
  exact ⟨o', hm, by simp only [clear, ho]⟩

end

/-! ## The calls -/

/-- The positions of the call do not overflow. -/
def NoOverflow (b : TensorBatch) : Op → Prop
  | .pushTensors _ n => b.tensors.length + n.toInt < 2 ^ 31
  | .getTensors index _ n | .setTensors index _ n => index.toInt + n.toInt < 2 ^ 31
  | _ => True

/-- A `setTensors` that passes its checks stores tensors that are still there. -/
def SetInTime (b : TensorBatch) (o : Objects TensorData) : Op → Prop
  | .setTensors index (some tensors) n =>
    0 ≤ index.toInt → index.toInt + n.toInt ≤ b.tensors.length →
      b.validateTensors o (handles tensors n) = .ok () →
      InTime o ((b.tensors.drop index.toInt.toNat).take n.toInt.toNat) (handles tensors n)
  | _ => True

/-- A push on an empty batch that gets past its first tensor is not rejected. -/
def PushWhole (b : TensorBatch) (o : Objects TensorData) : Op → Prop
  | .pushTensors (some tensors) n =>
    b.tensors = [] → n.toInt ≤ b.capacity.toInt →
      ∀ b', b.setLayoutAndDType o (handles tensors n) = .ok b' →
        b'.validateTensors o (handles tensors n) = .ok ()
  | _ => True

/-- What a call can do. -/
inductive Effect (b : TensorBatch) (o : Objects TensorData) (op : Op) :
    Result → TensorBatch → Objects TensorData → Prop where
  | threw (e : Exception) : Effect b o op (.threw e) b o
  | idle : Effect b o op .done b o
  | pushThrew (e : Exception) (t : TensorData) (empty : b.tensors = [])
      (whole : ¬PushWhole b o op) :
      Effect b o op (.threw e)
        { b with rank := Int32.ofNat t.rank, dtype := t.dtype, layout := t.layout } o
  | pushed {hs : List Addr} {b₁ : TensorBatch} {o' : Objects TensorData} (ne : hs ≠ [])
      (short : (b.tensors ++ hs).length < 2 ^ 31) (set : b.setLayoutAndDType o hs = .ok b₁)
      (valid : b₁.validateTensors o hs = .ok ()) (moved : o.Moved o' [] hs) :
      Effect b o op .done { b₁ with
        tensors := b.tensors ++ hs
        dirtyBegin := if b.dirtyEnd = b.dirtyBegin then b.numTensors else b.dirtyBegin
        dirtyEnd := Int32.ofNat (b.tensors ++ hs).length } o'
  | popped {kept : Nat} {b' : TensorBatch} {o' : Objects TensorData}
      (moved : o.Moved o' (b.tensors.drop kept) [])
      (eq : b' = { b with
        tensors := b.tensors.take kept
        dirtyBegin := min b.dirtyBegin
          (min b.dirtyEnd (Int32.ofNat (b.tensors.take kept).length))
        dirtyEnd := min b.dirtyEnd (Int32.ofNat (b.tensors.take kept).length) }) :
      Effect b o op .done (if b'.numTensors = 0 then b'.resetAttributes else b') o'
  | got {out : List Addr} {o' : Objects TensorData} (held : ∀ h ∈ out, h ∈ b.tensors)
      (moved : o.Moved o' [] out) :
      Effect b o op (.got out) b o'
  | replaced {index n : Int32} {hs : List Addr} {o' : Objects TensorData}
      (nonneg : 0 ≤ index.toInt) (length : hs.length = n.toInt)
      (inside : index.toInt + n.toInt ≤ b.tensors.length)
      (valid : b.validateTensors o hs = .ok ())
      (moved : o.Moved o' ((b.tensors.drop index.toInt.toNat).take hs.length) hs) :
      Effect b o op .done { b with
        tensors := b.tensors.take index.toInt.toNat ++ hs ++
          b.tensors.drop (index.toInt.toNat + hs.length)
        dirtyBegin := if b.dirtyBegin ≠ b.dirtyEnd then min b.dirtyBegin index else index
        dirtyEnd := if b.dirtyBegin ≠ b.dirtyEnd then max b.dirtyEnd (index + n)
          else index + n } o'
  | exportThrew (e : Exception) {pinned dev : Nat → BatchElement}
      (clean : ∀ i, Clean b i → dev i = b.devTensorsBuffer i) :
      Effect b o op (.threw e) { b with pinnedTensorsBuffer := pinned, devTensorsBuffer := dev } o
  | exported {b' : TensorBatch} {pinned dev : Nat → BatchElement}
      (eq : b' = { b with
        pinnedTensorsBuffer := pinned, devTensorsBuffer := dev, dirtyBegin := b.dirtyEnd })
      (clean : ∀ i, Clean b i → dev i = b.devTensorsBuffer i)
      (dirty : ∀ i h, b.tensors[i]? = some h → ¬Clean b i →
        ∃ t, o.obj h = some t ∧ Describes (dev i) t) :
      Effect b o op (.exported b'.data) b' o
  | cleared {o' : Objects TensorData} (moved : o.Moved o' b.tensors []) :
      Effect b o op .done
        { b with tensors := [], dirtyBegin := 0, dirtyEnd := 0 }.resetAttributes o'

theorem checkRange_ok {index n : Int32} (h : checkRange index n = .ok ()) :
    0 ≤ index.toInt ∧ 0 ≤ n.toInt := by
  unfold checkRange at h
  simp only [Int32.lt_iff_toInt_lt] at h
  have h0 : (0 : Int32).toInt = 0 := rfl
  split_ifs at h
  omega

/-- **The calls.** Without overflow, and with what it stores still there, every call has an
outcome, and it is one of `Effect`. -/
theorem exec_effect {s : Sys} (hI : Inv s) {op : Op} (hov : NoOverflow s.batch op)
    (hset : SetInTime s.batch s.objs op) :
    ∃ r b' o', exec s.batch s.objs op = some (r, b', o') ∧
      Effect s.batch s.objs op r b' o' := by
  have hc : ∀ h, s.batch.tensors.count h ≤ s.objs.refs h := fun h => by
    rw [hI.owned h]
    exact Nat.le_add_right _ _
  cases op with
  | pushTensors tensors n =>
    cases tensors with
    | none => exact ⟨_, _, _, rfl, .threw _⟩
    | some tensors =>
      obtain ⟨r, b', o', he, hr⟩ := push_spec (o := s.objs) hI.short tensors hov
      refine ⟨.ofUnit r, b', o', by simp [exec, nvcvTensorBatchPushTensors, he], ?_⟩
      obtain ⟨e, rfl, rfl, rfl | ⟨hcap, hs, hv⟩⟩ | ⟨rfl, rfl, rfl⟩ |
        ⟨rfl, hm, b₁, hs, hne, hv, rfl⟩ := hr
      · exact .threw e
      · obtain ⟨rfl, _⟩ | ⟨hnil, t, rfl⟩ := setLayout_cases hI.short hs
        · exact .threw e
        · refine .pushThrew e t hnil fun hw => hv (hw hnil ?_ _ hs)
          simpa [hnil] using hcap
      · exact .idle
      · refine .pushed hne ?_ hs hv hm
        have hov' : (s.batch.tensors.length : Int) + n.toInt < 2 ^ 31 := hov
        have hsh := hI.short
        rw [List.length_append, length_handles]
        omega
  | popTensors n =>
    obtain ⟨e, he⟩ | ⟨o', _, _, hm, b', hb', he⟩ :=
      pop_spec hI.short (fun _ hh => hI.ne_null hh) hc n
    · exact ⟨_, _, _, by simp only [exec, he]; rfl, .threw e⟩
    · exact ⟨_, _, _, by simp only [exec, he]; rfl, .popped hm hb'⟩
  | getTensors index outTensors n =>
    cases outTensors with
    | false => exact ⟨_, _, _, rfl, .threw _⟩
    | true =>
      cases hr : checkRange index n with
      | error e =>
        exact ⟨_, _, _, by simp only [exec, nvcvTensorBatchGetTensors, hr]; rfl, .threw e⟩
      | ok u =>
        obtain ⟨hi, hn⟩ := checkRange_ok hr
        obtain ⟨e, he⟩ | ⟨o', out, hm, hout, he⟩ :=
          get_spec hI.short (fun _ hh => hI.held hh) hi hn hov
        · exact ⟨_, _, _, by simp only [exec, nvcvTensorBatchGetTensors, hr, he]; rfl, .threw e⟩
        · exact ⟨_, _, _, by simp only [exec, nvcvTensorBatchGetTensors, hr, he]; rfl,
            .got hout hm⟩
  | setTensors index tensors n =>
    cases tensors with
    | none => exact ⟨_, _, _, rfl, .threw _⟩
    | some tensors =>
      cases hr : checkRange index n with
      | error e =>
        exact ⟨_, _, _, by simp only [exec, nvcvTensorBatchSetTensors, hr]; rfl, .threw e⟩
      | ok u =>
        obtain ⟨hi, hn⟩ := checkRange_ok hr
        obtain ⟨e, he⟩ | ⟨o', hle, hv, hm, he⟩ :=
          set_spec hI.short hI.null hc tensors hi hn hov (hset hi)
        · exact ⟨_, _, _, by simp only [exec, nvcvTensorBatchSetTensors, hr, he]; rfl, .threw e⟩
        · have hlen : (handles tensors n).length = n.toInt := by
            rw [length_handles]
            omega
          rw [← length_handles tensors n] at hm he
          exact ⟨_, _, _, by simp only [exec, nvcvTensorBatchSetTensors, hr, he]; rfl,
            .replaced hi hlen hle hv hm⟩
  | exportData calls =>
    obtain ⟨r, b', pinned, dev, he, hclean, hr⟩ :=
      export_spec hI.dirty (fun _ hh => hI.held hh) calls
    obtain ⟨rfl, e, rfl⟩ | ⟨hb', rfl, hdirty⟩ := hr
    · exact ⟨_, _, _, by simp only [exec, he]; rfl, .exportThrew e hclean⟩
    · exact ⟨_, _, _, by simp only [exec, he]; rfl, .exported hb' hclean hdirty⟩
  | clear =>
    obtain ⟨o', hm, he⟩ := clear_spec (fun _ hh => hI.ne_null hh) hc
    exact ⟨_, _, _, by simp only [exec, he]; rfl, .cleared hm⟩

end Nvcv.TensorBatch
