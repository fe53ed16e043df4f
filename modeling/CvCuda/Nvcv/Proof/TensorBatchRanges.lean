import CvCuda.Nvcv.Proof.TensorBatch

/-! # The positions calls on batches of tensors work on

`Op.Inside` says that the range of a call has only positions of the batch, `RangeFits` that its sum
of 32 bits does not wrap, or that the call is refused before it gets to a position outside.

* `setLoop_none`: exactly when the loop of `setTensors` leaves the batch.
* `Kept`, `step_kept`: what every call keeps, whatever its outcome.
* `safe_iff`: exactly when a call throws or stays inside.
-/

namespace Nvcv.TensorBatch

variable {b b' : TensorBatch} {o o' : Objects TensorData}

/-! ## The loop of `setTensors` -/

/-- Storing the handles `hs` over `old`, one by one, comes to a tensor that has lost its last
reference before. -/
def Lost (o : Objects TensorData) (old hs : List Addr) : Prop :=
  ∃ k x h, old[k]? = some x ∧ hs[k]? = some h ∧
    (o.refs x + (hs.take k).count x ≤ (old.take k).count x ∨
      o.refs h + (hs.take k).count h ≤ (old.take (k + 1)).count h)

theorem lost_cons {x h : Addr} {old hs : List Addr}
    (hr : ∀ y, o'.refs y + [x].count y = o.refs y + [h].count y) :
    Lost o (x :: old) (h :: hs) ↔
      o.refs x = 0 ∨ o.refs h ≤ [x].count h ∨ Lost o' old hs := by
  unfold Lost
  constructor
  · rintro ⟨k, x', h', hx, hh, hl⟩
    cases k with
    | zero =>
      cases hx
      cases hh
      have hl' : o.refs x = 0 ∨ o.refs h ≤ [x].count h := by simpa [List.take_succ_cons] using hl
      exact hl'.imp_right .inl
    | succ k =>
      refine .inr (.inr ⟨k, x', h', by simpa using hx, by simpa using hh, ?_⟩)
      have hx' := hr x'
      have hh' := hr h'
      simp only [List.take_succ_cons, List.count_cons, List.count_nil] at hl hx' hh' ⊢
      omega
  · rintro (h0 | h0 | ⟨k, x', h', hx, hh, hl⟩)
    · exact ⟨0, x, h, rfl, rfl, .inl (by simp [h0])⟩
    · exact ⟨0, x, h, rfl, rfl, .inr (by simpa using h0)⟩
    · refine ⟨k + 1, x', h', by simpa using hx, by simpa using hh, ?_⟩
      have hx' := hr x'
      have hh' := hr h'
      simp only [List.take_succ_cons, List.count_cons, List.count_nil] at hl hx' hh' ⊢
      omega

theorem coreObjectDecRef_error {h : Addr} (h0 : h ≠ 0) (hr : o.refs h = 0) :
    coreObjectDecRef h o = (.error HandleManager.invalidHandle, o) := by
  rw [coreObjectDecRef, if_neg h0, RefStore.release, RefStore.refs_eq_zero_iff.1 hr]

theorem coreObjectIncRef_error {h : Addr} (hr : o.refs h = 0) :
    coreObjectIncRef h o = (.error HandleManager.invalidHandle, o) := by
  rw [coreObjectIncRef, RefStore.acquire, RefStore.refs_eq_zero_iff.1 hr]

/-- **The loop leaves the batch** if it has more to store than there are positions, and gets there. -/
theorem setLoop_none (i : Nat) (hs : List Addr) (hn : o.refs 0 = 0) (h0 : 0 ∉ b.tensors) :
    setLoop i hs b o = none ↔
      hs ≠ [] ∧ b.tensors.length < i + hs.length ∧ ¬Lost o (b.tensors.drop i) hs := by
  induction hs generalizing i b o with
  | nil => simp [setLoop]
  | cons h hs ih =>
    rw [setLoop]
    by_cases hi : i < b.tensors.length
    swap
    · have hold : b.tensors[i]? = none := List.getElem?_eq_none (by omega)
      simp only [hold, true_iff]
      refine ⟨List.cons_ne_nil _ _, by rw [List.length_cons]; omega, ?_⟩
      rw [List.drop_eq_nil_of_le (by omega)]
      rintro ⟨k, x, h, hx, -⟩
      simp at hx
    have hold : b.tensors[i]? = some b.tensors[i] := List.getElem?_eq_getElem hi
    have hx0 : b.tensors[i] ≠ 0 := fun he => h0 (he ▸ List.getElem_mem hi)
    simp only [hold, List.drop_eq_getElem_cons hi]
    by_cases hx : o.refs b.tensors[i] = 0
    · rw [coreObjectDecRef_error hx0 hx]
      refine iff_of_false (by simp) fun hr => hr.2.2 ?_
      exact ⟨0, _, _, rfl, rfl, .inl (by simp [hx])⟩
    obtain ⟨o₁, e₁, m₁⟩ := coreObjectDecRef_spec hx0 (Nat.pos_of_ne_zero hx)
    have hr₁ := m₁.refs h
    rw [List.count_nil] at hr₁
    simp only [e₁]
    by_cases hh : o₁.refs h = 0
    · rw [coreObjectIncRef_error hh]
      refine iff_of_false (by simp) fun hr => hr.2.2 ?_
      refine ⟨0, _, _, rfl, rfl, .inr ?_⟩
      simp only [List.take_zero, List.count_nil, List.take_succ_cons]
      omega
    obtain ⟨o₂, e₂, m₂⟩ := coreObjectIncRef_spec (Nat.pos_of_ne_zero hh)
    have hm : o.Moved o₂ [b.tensors[i]] [h] := m₁.trans m₂
    have hn₁ := @coreObjectDecRef_dead _ b.tensors[i] _ _ hn
    rw [congrArg Prod.snd e₁] at hn₁
    have hn₂ := @coreObjectIncRef_dead _ h _ _ hn₁
    rw [congrArg Prod.snd e₂] at hn₂
    have hh0 : h ≠ 0 := by
      rintro rfl
      exact hh hn₁
    simp only [e₂]
    rw [ih (b := { b with tensors := b.tensors.set i h }) (i + 1) hn₂ fun hmem =>
      (List.mem_or_eq_of_mem_set hmem).elim h0 (fun he => hh0 he.symm)]
    rw [lost_cons hm.refs, List.length_set, List.drop_set_of_lt (by omega), List.length_cons]
    constructor
    · rintro ⟨hne, hl, hL⟩
      refine ⟨List.cons_ne_nil _ _, by omega, ?_⟩
      rintro (h₁ | h₁ | h₁)
      · exact hx h₁
      · omega
      · exact hL h₁
    · rintro ⟨-, hl, hL⟩
      refine ⟨?_, by omega, fun h₁ => hL (.inr (.inr h₁))⟩
      rintro rfl
      simp at hl
      omega

/-- A loop that returns has found every position it stores to. -/
theorem setLoop_ok {i : Nat} {hs : List Addr} (h : setLoop i hs b o = some (.ok (), b', o'))
    (hne : hs ≠ []) : i + hs.length ≤ b.tensors.length := by
  induction hs generalizing i b o with
  | nil => exact absurd rfl hne
  | cons x xs ih =>
    rw [setLoop] at h
    cases hi : b.tensors[i]? with
    | none => simp [hi] at h
    | some old =>
      have hlt : i < b.tensors.length := (List.getElem?_eq_some_iff.1 hi).1
      simp only [hi] at h
      rcases hd : coreObjectDecRef old o with ⟨e | n, o₁⟩
      · simp [hd] at h
      · rcases hc : coreObjectIncRef x o₁ with ⟨e | n, o₂⟩
        · simp [hd, hc] at h
        · simp only [hd, hc] at h
          by_cases hxs : xs = []
          · subst hxs
            exact hlt
          · have := ih h hxs
            rw [List.length_set] at this
            rw [List.length_cons]
            omega

/-! ## The calls -/

/-- The positions the range of a call has are in the batch, those of a push in its buffers. -/
def Op.Inside (b : TensorBatch) : Op → Prop
  | .pushTensors _ numTensors => ∀ i : Int, b.tensors.length ≤ i →
      i < b.tensors.length + numTensors.toInt → i < b.capacity.toInt
  | .getTensors index _ numTensors => ∀ i : Int, index.toInt ≤ i →
      i < index.toInt + numTensors.toInt → 0 ≤ i ∧ i < b.tensors.length
  | .setTensors index _ numTensors => ∀ i : Int, index.toInt ≤ i →
      i < index.toInt + numTensors.toInt → 0 ≤ i ∧ i < b.tensors.length
  | _ => True

/-- The calls that take a range, less the pops. -/
def Op.Ranged : Op → Prop
  | .pushTensors .. | .getTensors .. | .setTensors .. => True
  | _ => False

/-- The call has an outcome, and it throws or its positions are inside. -/
def Safe (b : TensorBatch) (o : Objects TensorData) (op : Op) : Prop :=
  ∃ r b' o', exec b o op = some (r, b', o') ∧ ((∃ e, r = .threw e) ∨ op.Inside b)

/-- **The condition**: the sum of 32 bits does not wrap, or the call is refused before the range is
used. -/
def RangeFits (b : TensorBatch) (o : Objects TensorData) : Op → Prop
  | .pushTensors (some tensors) numTensors => 2 ^ 31 ≤ b.tensors.length + numTensors.toInt →
      ∀ b', b.setLayoutAndDType o (handles tensors numTensors) = .ok b' →
        b'.validateTensors o (handles tensors numTensors) ≠ .ok ()
  | .getTensors index true numTensors => 0 ≤ index.toInt → 0 ≤ numTensors.toInt →
      index.toInt + numTensors.toInt < 2 ^ 31
  | .setTensors index (some tensors) numTensors => 0 ≤ index.toInt → 0 ≤ numTensors.toInt →
      2 ^ 31 ≤ index.toInt + numTensors.toInt →
      b.validateTensors o (handles tensors numTensors) = .ok () →
        Lost o (b.tensors.drop index.toInt.toNat) (handles tensors numTensors)
  | _ => True

/-- What every call keeps: the tensors fit in the buffers, and none is the null handle. -/
structure Kept (b : TensorBatch) (o : Objects TensorData) : Prop where
  fits : b.tensors.length ≤ b.capacity.toInt.toNat
  null : o.refs 0 = 0
  notNull : 0 ∉ b.tensors

section
variable (hk : Kept b o)
include hk

theorem Kept.short : b.tensors.length < 2 ^ 31 := by
  have := b.capacity.toInt_lt
  have := hk.fits
  omega

/-- Where the check of the capacity lets a push through, it is refused or appends its tensors. -/
theorem pushTensors_eq {tensors : Nat → Addr} {n : Int32} (hn : 0 < n.toInt)
    (hc : ¬b.numTensors + n > b.capacity) :
    (∃ e b', b.pushTensors tensors n o = some (.error e, b', o) ∧
        (b'.tensors = b.tensors ∧ b'.capacity = b.capacity) ∧
        ∀ b₁, b.setLayoutAndDType o (handles tensors n) = .ok b₁ →
          b₁.validateTensors o (handles tensors n) ≠ .ok ()) ∨
      ∃ b₁, (b₁.tensors = b.tensors ∧ b₁.capacity = b.capacity) ∧
        b.setLayoutAndDType o (handles tensors n) = .ok b₁ ∧
        b₁.validateTensors o (handles tensors n) = .ok () ∧
        b.pushTensors tensors n o = appendTensors (handles tensors n) b₁ o := by
  have h0 : n ≠ 0 := by
    rintro rfl
    exact absurd hn (by decide)
  have hneg : ¬n < 0 := by
    rw [Int32.lt_iff_toInt_lt]
    exact Int.not_lt.2 hn.le
  unfold pushTensors
  rw [if_neg h0, if_neg hneg, if_neg hc]
  cases hs : b.setLayoutAndDType o (handles tensors n) with
  | error e =>
    refine .inl ⟨e, b, by simp only [hs], ⟨rfl, rfl⟩, fun b₁ h => ?_⟩
    cases h
  | ok b₁ =>
    have hk₁ : b₁.tensors = b.tensors ∧ b₁.capacity = b.capacity := by
      obtain ⟨rfl, _⟩ | ⟨_, t, rfl⟩ := setLayout_cases hk.short hs
      · exact ⟨rfl, rfl⟩
      · exact ⟨rfl, rfl⟩
    cases hv : b₁.validateTensors o (handles tensors n) with
    | error e =>
      refine .inl ⟨e, b₁, by simp only [hs, hv], hk₁, fun b₂ h => ?_⟩
      cases h
      rw [hv]
      intro h
      cases h
    | ok u => exact .inr ⟨b₁, hk₁, rfl, hv, by simp only [hs, hv]⟩

/-- A push of a sum that does not wrap is checked against the capacity; one that wraps is not. -/
theorem push_checked {n : Int32} (hn : 0 < n.toInt) : ¬b.numTensors + n > b.capacity ↔
    b.tensors.length + n.toInt ≤ b.capacity.toInt ∨ 2 ^ 31 ≤ b.tensors.length + n.toInt := by
  have hs := hk.short
  have hf := hk.fits
  have := b.capacity.toInt_lt
  have hN := toInt_numTensors hs
  by_cases hw : 2 ^ 31 ≤ b.tensors.length + n.toInt
  · have hsum := @Int32.toInt_add_wraps b.numTensors n (by omega)
    have := n.toInt_lt
    rw [gt_iff_lt, Int32.lt_iff_toInt_lt, hsum, hN]
    omega
  · rw [gt_iff_lt, Int32.lt_iff_toInt_lt, Int32.toInt_add_of_range (by omega) (by omega), hN]
    omega

theorem push_safe_iff {tensors : Nat → Addr} {n : Int32} :
    Safe b o (.pushTensors (some tensors) n) ↔ RangeFits b o (.pushTensors (some tensors) n) := by
  have hs := hk.short
  have hcap := b.capacity.toInt_lt
  have hexec : exec b o (.pushTensors (some tensors) n) =
      (b.pushTensors tensors n o).map fun r => (.ofUnit r.1, r.2) := rfl
  unfold Safe
  rw [hexec]
  by_cases hn : 0 < n.toInt
  swap
  · refine iff_of_true ?_ fun h => by omega
    unfold pushTensors
    by_cases h0 : n = 0
    · rw [if_pos h0]
      refine ⟨_, _, _, rfl, .inr fun i h₁ h₂ => ?_⟩
      omega
    · have hneg : n < 0 := by
        rw [Int32.lt_iff_toInt_lt]
        have : n.toInt ≠ (0 : Int32).toInt := fun h => h0 (Int32.toInt_inj.1 h)
        have hz : (0 : Int32).toInt = 0 := rfl
        omega
      rw [if_neg h0, if_pos hneg]
      exact ⟨_, _, _, rfl, .inl ⟨_, rfl⟩⟩
  by_cases hc : b.numTensors + n > b.capacity
  · have hw := (not_congr (push_checked hk hn)).1 (not_not_intro hc)
    refine iff_of_true ?_ fun h => absurd (.inr h) hw
    unfold pushTensors
    have h0 : n ≠ 0 := by
      rintro rfl
      exact absurd hn (by decide)
    have hneg : ¬n < 0 := by
      rw [Int32.lt_iff_toInt_lt]
      exact Int.not_lt.2 hn.le
    rw [if_neg h0, if_neg hneg, if_pos hc]
    exact ⟨_, _, _, rfl, .inl ⟨_, rfl⟩⟩
  rcases @pushTensors_eq b o hk tensors n hn hc with ⟨e, b', he, -, hr⟩ | ⟨b₁, hk₁, hl, hv, he⟩
  · rw [he]
    exact iff_of_true ⟨.threw e, b', o, rfl, .inl ⟨e, rfl⟩⟩ fun _ => hr
  · rw [he]
    unfold appendTensors
    rw [hk₁.1, hk₁.2, length_handles]
    rcases (push_checked hk hn).1 hc with hfit | hw
    · refine iff_of_true ?_ fun h => by omega
      obtain ⟨o', ho, -⟩ := coreObjectIncRefs_spec (validateTensors_live hv)
      rw [if_neg (by omega), ho]
      refine ⟨_, _, _, rfl, .inr fun i h₁ h₂ => ?_⟩
      omega
    · refine iff_of_false ?_ fun h => h hw b₁ hl hv
      rw [if_pos (by omega)]
      rintro ⟨r, b', o', hnone, -⟩
      cases hnone

theorem range_checked {index n : Int32} (hi : 0 ≤ index.toInt) (hn : 0 ≤ n.toInt) :
    ¬index + n > b.numTensors ↔ index.toInt + n.toInt ≤ b.tensors.length ∨
      2 ^ 31 ≤ index.toInt + n.toInt := by
  have hs := hk.short
  have hN := toInt_numTensors hs
  have := index.toInt_lt
  have := n.toInt_lt
  by_cases hw : 2 ^ 31 ≤ index.toInt + n.toInt
  · have hsum := Int32.toInt_add_wraps hw
    rw [gt_iff_lt, Int32.lt_iff_toInt_lt, hsum, hN]
    omega
  · rw [gt_iff_lt, Int32.lt_iff_toInt_lt, Int32.toInt_add_of_range (by omega) (by omega), hN]
    omega

omit hk in
/-- The checks of `checkRange`. -/
theorem checkRange_cases (index n : Int32) :
    (∃ e, checkRange index n = .error e) ∧ ¬(0 ≤ index.toInt ∧ 0 ≤ n.toInt) ∨
      checkRange index n = .ok () ∧ 0 ≤ index.toInt ∧ 0 ≤ n.toInt := by
  unfold checkRange
  have hz : (0 : Int32).toInt = 0 := rfl
  by_cases hi : index < 0
  · rw [if_pos hi]
    rw [Int32.lt_iff_toInt_lt] at hi
    exact .inl ⟨⟨_, rfl⟩, by omega⟩
  · by_cases hn : n < 0
    · rw [if_neg hi, if_pos hn]
      rw [Int32.lt_iff_toInt_lt] at hn
      exact .inl ⟨⟨_, rfl⟩, by omega⟩
    · rw [if_neg hi, if_neg hn]
      rw [Int32.lt_iff_toInt_lt] at hi hn
      exact .inr ⟨rfl, by omega, by omega⟩

theorem get_safe_iff {index n : Int32} :
    Safe b o (.getTensors index true n) ↔ RangeFits b o (.getTensors index true n) := by
  have hs := hk.short
  simp only [Safe, exec, nvcvTensorBatchGetTensors, reduceCtorEq, if_false]
  rcases checkRange_cases index n with ⟨⟨e, he⟩, hneg⟩ | ⟨he, hi, hn⟩
  · simp only [he]
    exact iff_of_true ⟨_, _, _, rfl, .inl ⟨_, rfl⟩⟩ fun h₁ h₂ => absurd ⟨h₁, h₂⟩ hneg
  simp only [he]
  unfold getTensors
  have hz : (0 : Int32).toInt = 0 := rfl
  by_cases hc : index + n > b.numTensors
  · rw [if_pos hc]
    have hw := (not_congr (range_checked hk hi hn)).1 (not_not_intro hc)
    exact iff_of_true ⟨_, _, _, rfl, .inl ⟨_, rfl⟩⟩ fun _ _ => by omega
  rw [if_neg hc, if_neg (by rw [Int32.lt_iff_toInt_lt]; omega)]
  rcases (range_checked hk hi hn).1 hc with hfit | hw
  · rw [if_neg (by omega)]
    refine iff_of_true ?_ fun _ _ => by omega
    rcases hr : coreObjectIncRefs ((b.tensors.drop index.toInt.toNat).take n.toInt.toNat) o with
      ⟨e | u, o₁⟩
    · simp only [hr]
      exact ⟨_, _, _, rfl, .inl ⟨_, rfl⟩⟩
    · simp only [hr]
      refine ⟨_, _, _, rfl, .inr fun i h₁ h₂ => ?_⟩
      omega
  · rw [if_pos (by omega)]
    refine iff_of_false ?_ fun h => absurd (h hi hn) (by omega)
    rintro ⟨r, b', o', hnone, -⟩
    cases hnone

theorem set_safe_iff {tensors : Nat → Addr} {index n : Int32} :
    Safe b o (.setTensors index (some tensors) n) ↔
      RangeFits b o (.setTensors index (some tensors) n) := by
  have hs := hk.short
  have hexec : exec b o (.setTensors index (some tensors) n) =
      (nvcvTensorBatchSetTensors index (some tensors) n b o).map
        fun r => (.ofUnit r.1, r.2) := rfl
  unfold Safe
  rw [hexec]
  unfold nvcvTensorBatchSetTensors
  rcases checkRange_cases index n with ⟨⟨e, he⟩, hneg⟩ | ⟨he, hi, hn⟩
  · simp only [he]
    exact iff_of_true ⟨_, _, _, rfl, .inl ⟨_, rfl⟩⟩ fun h₁ h₂ => absurd ⟨h₁, h₂⟩ hneg
  simp only [he]
  unfold setTensors
  have hz : (0 : Int32).toInt = 0 := rfl
  by_cases hc : index + n > b.numTensors
  · rw [if_pos hc]
    have hw := (not_congr (range_checked hk hi hn)).1 (not_not_intro hc)
    exact iff_of_true ⟨_, _, _, rfl, .inl ⟨_, rfl⟩⟩ fun _ _ _ => by omega
  rw [if_neg hc, if_neg (by rw [Int32.lt_iff_toInt_lt]; omega)]
  cases hv : b.validateTensors o (handles tensors n) with
  | error e =>
    simp only [hv]
    refine iff_of_true ⟨_, _, _, rfl, .inl ⟨_, rfl⟩⟩ fun _ _ _ h => ?_
    rw [hv] at h
    cases h
  | ok u =>
    have hloop := setLoop_none (b := b) index.toInt.toNat (handles tensors n) hk.null hk.notNull
    rw [length_handles] at hloop
    have hne (hw : 2 ^ 31 ≤ index.toInt + n.toInt) : handles tensors n ≠ [] := by
      have := index.toInt_lt
      rw [← List.length_pos_iff, length_handles]
      omega
    cases hl : setLoop index.toInt.toNat (handles tensors n) b o with
    | none =>
      obtain ⟨-, hlen, hL⟩ := hloop.1 hl
      have hw := ((range_checked hk hi hn).1 hc).resolve_left (by omega)
      simp only [hv, hl]
      refine iff_of_false ?_ fun h => hL (h hi hn hw hv)
      rintro ⟨r, b', o', hnone, -⟩
      cases hnone
    | some q =>
      obtain ⟨r, b', o'⟩ := q
      have hR : RangeFits b o (.setTensors index (some tensors) n) := by
        intro _ _ hw _
        by_contra hL
        rw [hloop.2 ⟨hne hw, by omega, hL⟩] at hl
        cases hl
      refine iff_of_true ?_ hR
      cases r with
      | error e =>
        simp only [hv, hl]
        exact ⟨_, _, _, rfl, .inl ⟨_, rfl⟩⟩
      | ok u =>
        have hfit : index.toInt + n.toInt ≤ b.tensors.length := by
          rcases (range_checked hk hi hn).1 hc with hfit | hw
          · exact hfit
          · have := setLoop_ok hl (hne hw)
            rw [length_handles] at this
            omega
        simp only [hv, hl]
        by_cases hd : b'.dirtyBegin ≠ b'.dirtyEnd
        · rw [if_pos hd]
          exact ⟨_, _, _, rfl, .inr fun i h₁ h₂ => by omega⟩
        · rw [if_neg hd]
          exact ⟨_, _, _, rfl, .inr fun i h₁ h₂ => by omega⟩

/-! ## Every call -/

theorem Kept.of_eq (ht : b'.tensors = b.tensors) (hc : b'.capacity = b.capacity)
    (hn : o'.refs 0 = 0) : Kept b' o' :=
  ⟨by rw [ht, hc]; exact hk.fits, hn, by rw [ht]; exact hk.notNull⟩

theorem Kept.push {tensors : Nat → Addr} {n : Int32} {r : Except Exception Unit}
    (h : b.pushTensors tensors n o = some (r, b', o')) : Kept b' o' := by
  by_cases hn : 0 < n.toInt ∧ ¬b.numTensors + n > b.capacity
  swap
  · unfold pushTensors at h
    by_cases h0 : n = 0
    · rw [if_pos h0] at h
      cases h
      exact hk
    by_cases hneg : n < 0
    · rw [if_neg h0, if_pos hneg] at h
      cases h
      exact hk
    have hc : b.numTensors + n > b.capacity := by
      by_contra hc
      refine hn ⟨?_, hc⟩
      have hz : (0 : Int32).toInt = 0 := rfl
      have : n.toInt ≠ (0 : Int32).toInt := fun h => h0 (Int32.toInt_inj.1 h)
      rw [Int32.lt_iff_toInt_lt] at hneg
      omega
    rw [if_neg h0, if_neg hneg, if_pos hc] at h
    cases h
    exact hk
  rcases @pushTensors_eq b o hk tensors n hn.1 hn.2 with
    ⟨e, b₁, he, hk₁, -⟩ | ⟨b₁, hk₁, -, hv, he⟩
  · rw [he] at h
    cases h
    exact hk.of_eq hk₁.1 hk₁.2 hk.null
  rw [he] at h
  unfold appendTensors at h
  by_cases hfit : b₁.capacity.toInt < b₁.tensors.length + (handles tensors n).length
  · rw [if_pos hfit] at h
    cases h
  obtain ⟨o₁, ho, -⟩ := coreObjectIncRefs_spec (validateTensors_live hv)
  have hnull := @coreObjectIncRefs_dead _ (handles tensors n) _ _ hk.null
  rw [ho] at hnull
  rw [if_neg hfit, ho] at h
  cases h
  refine ⟨?_, hnull, ?_⟩
  · simp only [List.length_append]
    omega
  · rw [List.mem_append, hk₁.1, not_or]
    refine ⟨hk.notNull, fun h0 => ?_⟩
    have := validateTensors_live hv 0 h0
    rw [hk.null] at this
    omega

theorem Kept.pop {n : Int32} {r : Except Exception Unit} (h : b.popTensors n o = (r, b', o')) :
    Kept b' o' := by
  unfold popTensors at h
  by_cases hneg : n < 0
  · rw [if_pos hneg] at h
    cases h
    exact hk
  by_cases hgt : n > b.numTensors
  · rw [if_neg hneg, if_pos hgt] at h
    cases h
    exact hk
  rw [if_neg hneg, if_neg hgt] at h
  have hnull := @coreObjectDecRefs_dead _ (b.tensors.drop (b.tensors.length - n.toInt.toNat)) _ _
    hk.null
  rcases hd : coreObjectDecRefs (b.tensors.drop (b.tensors.length - n.toInt.toNat)) o with
    ⟨e | u, o₁⟩
  · rw [hd] at hnull
    simp only [hd] at h
    cases h
    exact hk.of_eq rfl rfl hnull
  · rw [hd] at hnull
    simp only [hd] at h
    have hl : (b.tensors.take (b.tensors.length - n.toInt.toNat)).length ≤
        b.capacity.toInt.toNat := by
      have := hk.fits
      rw [List.length_take]
      omega
    have h0 : 0 ∉ b.tensors.take (b.tensors.length - n.toInt.toNat) :=
      fun h => hk.notNull (List.mem_of_mem_take h)
    cases h
    split
    · exact ⟨hl, hnull, h0⟩
    · exact ⟨hl, hnull, h0⟩

theorem Kept.get {index n : Int32} {r : Except Exception (List Addr)}
    (h : b.getTensors index n o = some (r, o')) : Kept b o' := by
  have hnull := @coreObjectIncRefs_dead _
    ((b.tensors.drop index.toInt.toNat).take n.toInt.toNat) _ _ hk.null
  unfold getTensors at h
  split_ifs at h
  · cases h
    exact hk
  · cases h
    exact hk
  · rcases hd : coreObjectIncRefs ((b.tensors.drop index.toInt.toNat).take n.toInt.toNat) o with
      ⟨e | u, o₁⟩
    · rw [hd] at hnull
      simp only [hd] at h
      cases h
      exact hk.of_eq rfl rfl hnull
    · rw [hd] at hnull
      simp only [hd] at h
      cases h
      exact hk.of_eq rfl rfl hnull

theorem Kept.setLoop {i : Nat} {hs : List Addr} {r : Except Exception Unit}
    (h : setLoop i hs b o = some (r, b', o')) : Kept b' o' := by
  induction hs generalizing i b o with
  | nil =>
    cases h
    exact hk
  | cons x xs ih =>
    rw [TensorBatch.setLoop] at h
    cases hi : b.tensors[i]? with
    | none => simp [hi] at h
    | some old =>
      have hnull₁ := @coreObjectDecRef_dead _ old _ _ hk.null
      simp only [hi] at h
      rcases hd : coreObjectDecRef old o with ⟨e | n, o₁⟩
      · rw [hd] at hnull₁
        simp only [hd] at h
        cases h
        exact hk.of_eq rfl rfl hnull₁
      · rw [hd] at hnull₁
        have hnull₂ := @coreObjectIncRef_dead _ x _ _ hnull₁
        rcases hc : coreObjectIncRef x o₁ with ⟨e | n, o₂⟩
        · rw [hc] at hnull₂
          simp only [hd, hc] at h
          cases h
          exact hk.of_eq rfl rfl hnull₂
        · rw [hc] at hnull₂
          simp only [hd, hc] at h
          refine ih ⟨?_, hnull₂, fun hmem => ?_⟩ h
          · rw [List.length_set]
            exact hk.fits
          · rcases List.mem_or_eq_of_mem_set hmem with hmem | rfl
            · exact hk.notNull hmem
            · rw [coreObjectIncRef_error hnull₁] at hc
              cases hc

theorem Kept.set {tensors : Nat → Addr} {index n : Int32} {r : Except Exception Unit}
    (h : b.setTensors index tensors n o = some (r, b', o')) : Kept b' o' := by
  unfold setTensors at h
  by_cases hc : index + n > b.numTensors
  · rw [if_pos hc] at h
    cases h
    exact hk
  by_cases hi : index < 0
  · rw [if_neg hc, if_pos hi] at h
    cases h
    exact hk
  rw [if_neg hc, if_neg hi] at h
  cases hv : b.validateTensors o (handles tensors n) with
  | error e =>
    simp only [hv] at h
    cases h
    exact hk
  | ok u =>
    cases hl : TensorBatch.setLoop index.toInt.toNat (handles tensors n) b o with
    | none => simp only [hv, hl, reduceCtorEq] at h
    | some q =>
      obtain ⟨r₁, b₁, o₁⟩ := q
      have hk₁ := hk.setLoop hl
      cases r₁ with
      | error e =>
        simp only [hv, hl] at h
        cases h
        exact hk₁
      | ok u =>
        simp only [hv, hl] at h
        split_ifs at h
        · cases h
          exact hk₁.of_eq rfl rfl hk₁.null
        · cases h
          exact hk₁.of_eq rfl rfl hk₁.null

theorem Kept.exported {calls : ExportCalls} {r : Except Exception TensorBatchData}
    (h : b.exportData calls o = some (r, b')) : Kept b' o := by
  have hsame : b'.tensors = b.tensors ∧ b'.capacity = b.capacity := by
    unfold exportData at h
    by_cases hd : b.dirtyBegin < b.dirtyEnd
    swap
    · rw [if_neg hd] at h
      cases h
      exact ⟨rfl, rfl⟩
    rw [if_pos hd] at h
    cases hs : calls.eventSynchronize with
    | error e =>
      simp only [hs] at h
      cases h
      exact ⟨rfl, rfl⟩
    | ok u =>
      simp only [hs] at h
      split_ifs at h
      rcases hf : fillLoop o b.dirtyBegin.toInt.toNat ((b.tensors.drop b.dirtyBegin.toInt.toNat).take
        (b.dirtyEnd.toInt.toNat - b.dirtyBegin.toInt.toNat)) b.pinnedTensorsBuffer with ⟨e | u, p⟩
      · simp only [hf] at h
        cases h
        exact ⟨rfl, rfl⟩
      · simp only [hf] at h
        split at h
        · cases h
          exact ⟨rfl, rfl⟩
        · split at h
          · cases h
            exact ⟨rfl, rfl⟩
          · cases h
            exact ⟨rfl, rfl⟩
  exact hk.of_eq hsame.1 hsame.2 hk.null

theorem Kept.clear {r : Except Exception Unit} (h : b.clear o = (r, b', o')) : Kept b' o' := by
  have hnull := @coreObjectDecRefs_dead _ b.tensors _ _ hk.null
  unfold TensorBatch.clear at h
  rcases hd : coreObjectDecRefs b.tensors o with ⟨e | u, o₁⟩
  · rw [hd] at hnull
    simp only [hd] at h
    cases h
    exact hk.of_eq rfl rfl hnull
  · rw [hd] at hnull
    simp only [hd] at h
    cases h
    exact ⟨Nat.zero_le _, hnull, List.not_mem_nil⟩

/-- What a call leaves. -/
theorem Kept.exec {op : Op} {r : Result} (h : exec b o op = some (r, b', o')) : Kept b' o' := by
  cases op with
  | pushTensors tensors n =>
    obtain ⟨⟨x, b₁, o₁⟩, hp, he⟩ := Option.map_eq_some_iff.1 h
    cases he
    cases tensors with
    | none =>
      cases hp
      exact hk
    | some tensors => exact hk.push hp
  | popTensors n =>
    have hp : (b.popTensors n o).2 = (b', o') := congrArg Prod.snd (Option.some.inj h)
    exact hk.pop (Prod.ext rfl hp)
  | getTensors index out n =>
    obtain ⟨⟨x, o₁⟩, hg, he⟩ := Option.map_eq_some_iff.1 h
    have hk₁ : Kept b o₁ := by
      unfold nvcvTensorBatchGetTensors at hg
      cases out with
      | false =>
        cases hg
        exact hk
      | true =>
        rw [if_neg (by simp)] at hg
        rcases checkRange_cases index n with ⟨⟨e, hc⟩, -⟩ | ⟨hc, -⟩
        · simp only [hc] at hg
          cases hg
          exact hk
        · simp only [hc] at hg
          exact hk.get hg
    cases x with
    | error e =>
      cases he
      exact hk₁
    | ok out =>
      cases he
      exact hk₁
  | setTensors index tensors n =>
    obtain ⟨⟨x, b₁, o₁⟩, hp, he⟩ := Option.map_eq_some_iff.1 h
    cases he
    unfold nvcvTensorBatchSetTensors at hp
    cases tensors with
    | none =>
      cases hp
      exact hk
    | some tensors =>
      rcases checkRange_cases index n with ⟨⟨e, hc⟩, -⟩ | ⟨hc, -⟩
      · simp only [hc] at hp
        cases hp
        exact hk
      · simp only [hc] at hp
        exact hk.set hp
  | exportData calls =>
    obtain ⟨⟨x, b₁⟩, hp, he⟩ := Option.map_eq_some_iff.1 h
    have hk₁ := hk.exported hp
    cases x with
    | error e =>
      cases he
      exact hk₁
    | ok data =>
      cases he
      exact hk₁
  | clear =>
    have hp : (b.clear o).2 = (b', o') := congrArg Prod.snd (Option.some.inj h)
    exact hk.clear (Prod.ext rfl hp)

end

theorem step_kept {s s' : Sys} {e : Event} (hk : Kept s.batch s.objs) (hs : s.Step e s') :
    Kept s'.batch s'.objs := by
  cases e with
  | call op r => exact hk.exec hs.1
  | create h t =>
    obtain ⟨h0, -, rfl⟩ := hs
    refine hk.of_eq rfl rfl ?_
    rw [RefStore.add, RefStore.refs_update, if_neg h0.symm]
    exact hk.null
  | incRef h =>
    obtain ⟨objs, ha, rfl⟩ := hs
    refine hk.of_eq rfl rfl ?_
    have := @coreObjectIncRef_dead _ h _ _ hk.null
    rw [coreObjectIncRef, ha] at this
    exact this
  | decRef h =>
    obtain ⟨-, objs, ha, rfl⟩ := hs
    refine hk.of_eq rfl rfl ?_
    have h0 : h ≠ 0 := by
      rintro rfl
      rw [RefStore.release, RefStore.refs_eq_zero_iff.1 hk.null] at ha
      cases ha
    have := @coreObjectDecRef_dead _ h _ _ hk.null
    rw [coreObjectDecRef, if_neg h0, ha] at this
    exact this

theorem Sys.New.kept {s : Sys} (hn : s.New) : Kept s.batch s.objs := by
  obtain ⟨c, p, d, hb⟩ := hn.batch
  rw [hb]
  exact ⟨Nat.zero_le _, hn.null, List.not_mem_nil⟩

/-- The calls that take a range, in any state that keeps `Kept`. -/
theorem safe_iff (hk : Kept b o) {op : Op} (hr : op.Ranged) :
    Safe b o op ↔ RangeFits b o op := by
  cases op with
  | pushTensors tensors n =>
    cases tensors with
    | none => exact iff_of_true ⟨_, _, _, rfl, .inl ⟨_, rfl⟩⟩ trivial
    | some tensors => exact push_safe_iff hk
  | getTensors index out n =>
    cases out with
    | false => exact iff_of_true ⟨_, _, _, rfl, .inl ⟨_, rfl⟩⟩ trivial
    | true => exact get_safe_iff hk
  | setTensors index tensors n =>
    cases tensors with
    | none => exact iff_of_true ⟨_, _, _, rfl, .inl ⟨_, rfl⟩⟩ trivial
    | some tensors => exact set_safe_iff hk
  | popTensors n => exact hr.elim
  | exportData calls => exact hr.elim
  | clear => exact hr.elim

end Nvcv.TensorBatch
