import CvCuda.Nvcv.Proof.ImageBatchOwners
import CvCuda.Nvcv.Proof.TensorBatch
import CvCuda.Nvcvpy.Batch

/-! # What the list of a Python batch mirrors

The list of a Python batch is to hold the Python objects of the native ones. `pushBackMany` puts a
list of objects there before the native batch has accepted them.

* `Mirrors`: the list against the native batch.
* `TensorBatch.mirrors_iff`, `ImageBatchVarShape.mirrors_iff`: one call.
* `batches_mirror`: whole runs.
* `pushback_overflows`: a list that a batch has no room for.
-/

namespace Nvcvpy

open Nvcv (Addr Objects TensorData Image ImageFormat coreObjectDecRefs coreObjectDecRefs_spec coreObjectIncRefs_spec)

/-- The list has an object for every position of the native batch, which wraps the native object
there. -/
def Mirrors (handles list : List (Option Addr)) : Prop := list = handles

section
variable {Impl Obj : Type} {b b' : Batch Impl} {raised : Except Raised Unit} {o' : Objects Obj}

theorem Batch.afterImpl_eq {r : Option (Except Nvcv.Exception Unit × Impl × Objects Obj)}
    {list : Option (List (Option Addr))} (h : b.afterImpl r list = some (raised, b', o')) :
    (∃ e, raised = .error (.nvcv e) ∧ r = some (.error e, b'.impl, o') ∧ b'.list = b.list) ∨
      raised = .ok () ∧ r = some (.ok (), b'.impl, o') ∧ list = some b'.list := by
  obtain _ | ⟨⟨e⟩ | ⟨⟨⟩⟩, impl, o⟩ := r
  · cases h
  · cases h
    exact .inl ⟨e, rfl, rfl, rfl⟩
  · obtain ⟨l, rfl, h⟩ := Option.map_eq_some_iff.1 h
    cases h
    exact .inr ⟨rfl, rfl, rfl⟩

end

/-! ## Arrays of handles -/

theorem map_data (hs : List Addr) {n : Nat} (hn : n ≤ hs.length) :
    (List.range n).map (fun i => hs.getD i 0) = hs.take n := by
  apply List.ext_getElem?
  intro i
  rw [List.getElem?_map, List.getElem?_take]
  by_cases hi : i < n
  · rw [List.getElem?_range hi, if_pos hi, Option.map_some, List.getD_eq_getElem?_getD,
      List.getElem?_eq_getElem (by omega)]
    rfl
  · rw [List.getElem?_eq_none (by simpa using hi), if_neg hi]
    rfl

theorem toInt_ofNat_le (n : Nat) : (Int32.ofNat n).toInt.toNat ≤ n := by
  have hsize : (Int32.size : Int) = 2 ^ 32 := rfl
  rw [Int32.toInt_ofNat', Int.bmod_def, hsize]
  split <;> omega

@[simp] theorem length_handlesOf (l : List (Option Addr)) : (handlesOf l).length = l.length :=
  List.length_map _

/-- A list of objects against the handles of the first of them. -/
theorem eq_map_take_iff {l : List (Option Addr)} {k : Nat} :
    l = ((handlesOf l).take k).map some ↔ none ∉ l ∧ l.length ≤ k := by
  constructor
  · intro h
    constructor
    · intro hn
      rw [h] at hn
      obtain ⟨x, -, hx⟩ := List.mem_map.1 hn
      cases hx
    · have hlen := congrArg List.length h
      rw [List.length_map, List.length_take, length_handlesOf] at hlen
      omega
  · rintro ⟨hn, hk⟩
    rw [List.take_of_length_le (by rw [length_handlesOf]; exact hk), handlesOf, List.map_map]
    refine ((List.map_congr_left fun e he => ?_).trans (List.map_id l)).symm
    cases e with
    | none => exact absurd he hn
    | some h => rfl

/-- **A list that is pushed** is mirrored when the native batch accepts it: `n` is its length as the
native batch sees it, of which it appends so many handles as it accepts or none. -/
theorem mirrors_push_iff {before after : List Addr} {l : List (Option Addr)} {n : Int32}
    {A : List Addr → Prop} (hn : n = Int32.ofNat l.length)
    (hA : A (handlesOf l) → l.length < 2 ^ 31)
    (h : (after = before ++ (handlesOf l).take n.toInt.toNat ∧
        (0 < n.toInt → A ((handlesOf l).take n.toInt.toNat))) ∨
      after = before ∧ (0 < n.toInt → ¬A ((handlesOf l).take n.toInt.toNat))) :
    Mirrors (after.map some) (before.map some ++ l) ↔ l = [] ∨ none ∉ l ∧ A (handlesOf l) := by
  have hwhole : l.length ≤ n.toInt.toNat →
      (handlesOf l).take n.toInt.toNat = handlesOf l := fun hk =>
    List.take_of_length_le (by rw [length_handlesOf]; exact hk)
  have hlen : A (handlesOf l) → n.toInt = l.length := fun hacc => by
    rw [hn, Int32.toInt_ofNat_of_lt (hA hacc)]
  have hpos : l ≠ [] → 0 < l.length := List.length_pos_iff.2
  rcases h with ⟨rfl, hacc⟩ | ⟨rfl, hacc⟩
  · rw [Mirrors, List.map_append, List.append_right_inj, eq_map_take_iff]
    constructor
    · rintro ⟨hnone, hk⟩
      by_cases hl : l = []
      · exact .inl hl
      · rw [hwhole hk] at hacc
        have hp := hpos hl
        exact .inr ⟨hnone, hacc (by omega)⟩
    · rintro (rfl | ⟨hnone, ha⟩)
      · exact ⟨List.not_mem_nil, Nat.zero_le _⟩
      · have hk := hlen ha
        exact ⟨hnone, by omega⟩
  · rw [Mirrors, List.append_right_eq_self]
    constructor
    · exact .inl
    · rintro (hl | ⟨hnone, ha⟩)
      · exact hl
      · by_contra hl
        have hp := hpos hl
        have hk := hlen ha
        rw [hwhole (by omega)] at hacc
        exact hacc (by omega) ha

/-! ## Tensor batches -/

namespace TensorBatch

open Nvcv.TensorBatch

/-- A native push has room for tensors and finds them valid. -/
def Accepts (b : Nvcv.TensorBatch) (o : Objects TensorData) (hs : List Addr) : Prop :=
  b.tensors.length + hs.length ≤ b.capacity.toInt ∧
    ∃ b₁, b.setLayoutAndDType o hs = .ok b₁ ∧ b₁.validateTensors o hs = .ok ()

/-- **The condition** on a call: a list to push has no `None` and is accepted. -/
def Fits (s : Sys) : Op → Prop
  | .pushBackMany l =>
    l = [] ∨ none ∉ l ∧ Accepts s.batch.impl s.objs (handlesOf l)
  | _ => True

section
variable {b b' : Nvcv.TensorBatch} {o o' : Objects TensorData} {r : Except Nvcv.Exception Unit}

/-- A native push appends all tensors, which it accepts, or none. -/
theorem pushTensors_cases (hb : b.tensors.length < 2 ^ 31) {tensors : Nat → Addr} {n : Int32}
    (h : b.pushTensors tensors n o = some (r, b', o')) :
    (r = .ok () ∧ b'.tensors = b.tensors ++ handles tensors n ∧
      b'.tensors.length < 2 ^ 31 ∧ (0 < n.toInt → Accepts b o (handles tensors n))) ∨
    (∃ e, r = .error e) ∧ b'.tensors = b.tensors ∧
      (0 < n.toInt → ¬Accepts b o (handles tensors n)) := by
  have hz : (0 : Int32).toInt = 0 := rfl
  have hlen := length_handles tensors n
  unfold pushTensors at h
  by_cases h0 : n = 0
  · rw [if_pos h0] at h
    cases h
    have hnil : handles tensors n = [] := by
      rw [← List.length_eq_zero_iff, hlen, h0]
      rfl
    refine .inl ⟨rfl, by rw [hnil, List.append_nil], hb, fun hpos => ?_⟩
    rw [h0] at hpos
    omega
  rw [if_neg h0] at h
  by_cases hneg : n < 0
  · rw [if_pos hneg] at h
    cases h
    rw [Int32.lt_iff_toInt_lt] at hneg
    exact .inr ⟨⟨_, rfl⟩, rfl, fun hpos => by omega⟩
  rw [if_neg hneg] at h
  by_cases hcap : b.numTensors + n > b.capacity
  · rw [if_pos hcap] at h
    cases h
    refine .inr ⟨⟨_, rfl⟩, rfl, fun hpos hacc => ?_⟩
    have hroom := hacc.1
    have hlt := Int32.toInt_lt b.capacity
    rw [hlen] at hroom
    rw [gt_iff_lt, Int32.lt_iff_toInt_lt, Int32.toInt_add_of_range, toInt_numTensors hb] at hcap
    · omega
    · rw [toInt_numTensors hb]
      omega
    · rw [toInt_numTensors hb]
      omega
  rw [if_neg hcap] at h
  cases hs : b.setLayoutAndDType o (handles tensors n) with
  | error e =>
    simp only [hs] at h
    cases h
    refine .inr ⟨⟨_, rfl⟩, rfl, fun hpos hacc => ?_⟩
    obtain ⟨-, b₁, hb₁, -⟩ := hacc
    rw [hs] at hb₁
    cases hb₁
  | ok b₁ =>
    simp only [hs] at h
    have hk : b₁.tensors = b.tensors ∧ b₁.capacity = b.capacity := by
      obtain ⟨rfl, _⟩ | ⟨_, t, rfl⟩ := setLayout_cases hb hs
      · exact ⟨rfl, rfl⟩
      · exact ⟨rfl, rfl⟩
    cases hv : b₁.validateTensors o (handles tensors n) with
    | error e =>
      simp only [hv] at h
      cases h
      refine .inr ⟨⟨_, rfl⟩, hk.1, fun hpos hacc => ?_⟩
      obtain ⟨-, b₂, hb₂, hv₂⟩ := hacc
      rw [hs] at hb₂
      cases hb₂
      rw [hv] at hv₂
      cases hv₂
    | ok u =>
      simp only [hv] at h
      obtain ⟨o₁, ho, -⟩ := coreObjectIncRefs_spec (validateTensors_live hv)
      unfold appendTensors at h
      by_cases hroom : b₁.capacity.toInt <
          b₁.tensors.length + (handles tensors n).length
      · rw [if_pos hroom] at h
        cases h
      · rw [if_neg hroom, ho] at h
        cases h
        have hlt := Int32.toInt_lt b.capacity
        rw [hk.1, hk.2] at hroom
        refine .inl ⟨rfl, by rw [hk.1], ?_, fun _ => ⟨by omega, b₁, hs, hv⟩⟩
        simp only [hk.1, List.length_append]
        omega

theorem popTensors_cases {n : Int32} (h : b.popTensors n o = (r, b', o')) :
    (r = .ok () ∧ b'.tensors = b.tensors.take (b.tensors.length - n.toInt.toNat)) ∨
      (∃ e, r = .error e) ∧ b'.tensors = b.tensors := by
  unfold popTensors at h
  split_ifs at h
  · cases h
    exact .inr ⟨⟨_, rfl⟩, rfl⟩
  · cases h
    exact .inr ⟨⟨_, rfl⟩, rfl⟩
  · rcases hd : coreObjectDecRefs (b.tensors.drop (b.tensors.length - n.toInt.toNat)) o with
      ⟨⟨e⟩ | ⟨u⟩, o₁⟩
    · simp only [hd] at h
      cases h
      exact .inr ⟨⟨_, rfl⟩, rfl⟩
    · simp only [hd, Prod.mk.injEq] at h
      obtain ⟨rfl, rfl, -⟩ := h
      refine .inl ⟨rfl, ?_⟩
      split_ifs <;> rfl

theorem clear_cases (h : b.clear o = (r, b', o')) :
    (r = .ok () ∧ b'.tensors = []) ∨ (∃ e, r = .error e) ∧ b'.tensors = b.tensors := by
  unfold Nvcv.TensorBatch.clear at h
  rcases hd : coreObjectDecRefs b.tensors o with ⟨⟨e⟩ | ⟨u⟩, o₁⟩
  · simp only [hd] at h
    cases h
    exact .inr ⟨⟨_, rfl⟩, rfl⟩
  · simp only [hd] at h
    cases h
    exact .inl ⟨rfl, rfl⟩

/-- Setting one tensor stores it, or nothing. -/
theorem setTensors_cases {index : Int32} {h : Addr} {tensors : Option (Nat → Addr)}
    (ht : tensors = some fun _ => h)
    (hs : nvcvTensorBatchSetTensors index tensors 1 b o = some (r, b', o')) :
    (r = .ok () ∧ b'.tensors = b.tensors.set index.toInt.toNat h) ∨
      (∃ e, r = .error e) ∧ b'.tensors = b.tensors := by
  subst ht
  unfold nvcvTensorBatchSetTensors at hs
  cases hc : checkRange index 1 with
  | error e =>
    simp only [hc] at hs
    cases hs
    exact .inr ⟨⟨_, rfl⟩, rfl⟩
  | ok u =>
    simp only [hc] at hs
    unfold setTensors at hs
    split_ifs at hs
    · cases hs
      exact .inr ⟨⟨_, rfl⟩, rfl⟩
    · cases hs
      exact .inr ⟨⟨_, rfl⟩, rfl⟩
    · have hone : handles (fun _ => h) 1 = [h] := rfl
      rw [hone] at hs
      cases hv : b.validateTensors o [h] with
      | error e =>
        simp only [hv] at hs
        cases hs
        exact .inr ⟨⟨_, rfl⟩, rfl⟩
      | ok u =>
        simp only [hv, setLoop] at hs
        cases hold : b.tensors[index.toInt.toNat]? with
        | none =>
          simp only [hold] at hs
          cases hs
        | some old =>
          simp only [hold] at hs
          rcases hd : Nvcv.coreObjectDecRef old o with ⟨⟨e⟩ | ⟨u⟩, o₁⟩
          · simp only [hd] at hs
            cases hs
            exact .inr ⟨⟨_, rfl⟩, rfl⟩
          · simp only [hd] at hs
            rcases hi : Nvcv.coreObjectIncRef h o₁ with ⟨⟨e⟩ | ⟨u⟩, o₂⟩
            · simp only [hi] at hs
              cases hs
              exact .inr ⟨⟨_, rfl⟩, rfl⟩
            · simp only [hi] at hs
              split_ifs at hs <;> cases hs <;> exact .inl ⟨rfl, rfl⟩

end

/-- The list of a batch mirrors the native batch, which is not too large. -/
structure Mirrored (s : Sys) : Prop where
  list : Mirrors (s.batch.impl.tensors.map some) s.batch.list
  length : s.batch.impl.tensors.length < 2 ^ 31

section
variable {s s' : Sys} {raised : Except Raised Unit}

theorem pushBack_mirrored {h : Addr} (hm : Mirrored s)
    (he : exec s.batch s.objs (.pushBack h) = some (raised, s'.batch, s'.objs)) : Mirrored s' := by
  have hone : handles (fun _ => h) 1 = [h] := rfl
  obtain ⟨e, -, hr, hl⟩ | ⟨-, hr, hl⟩ := Batch.afterImpl_eq he
  · obtain ⟨hok, -⟩ | ⟨-, ht, -⟩ := pushTensors_cases hm.length hr
    · cases hok
    · refine ⟨?_, by rw [ht]; exact hm.length⟩
      rw [Mirrors, hl, ht]
      exact hm.list
  · obtain ⟨-, ht, hlt, -⟩ | ⟨⟨e, hok⟩, -⟩ := pushTensors_cases hm.length hr
    · refine ⟨?_, hlt⟩
      rw [Mirrors, ← Option.some.inj hl, ht, hone, hm.list, List.map_append]
      rfl
    · cases hok

theorem popBack_mirrored {n : Int32} (hm : Mirrored s)
    (he : exec s.batch s.objs (.popBack n) = some (raised, s'.batch, s'.objs)) : Mirrored s' := by
  obtain ⟨e, -, hr, hl⟩ | ⟨-, hr, hl⟩ := Batch.afterImpl_eq he
  · obtain ⟨hok, -⟩ | ⟨-, ht⟩ := popTensors_cases (Option.some.inj hr)
    · cases hok
    · refine ⟨?_, by rw [ht]; exact hm.length⟩
      rw [Mirrors, hl, ht]
      exact hm.list
  · obtain ⟨-, ht⟩ | ⟨⟨e, hok⟩, -⟩ := popTensors_cases (Option.some.inj hr)
    · unfold eraseBack at hl
      split_ifs at hl
      have hlen := hm.length
      refine ⟨?_, by rw [ht, List.length_take]; omega⟩
      rw [Mirrors, ← Option.some.inj hl, ht, hm.list, List.length_map, List.map_take]
    · cases hok

theorem clear_mirrored (hm : Mirrored s)
    (he : exec s.batch s.objs .clear = some (raised, s'.batch, s'.objs)) : Mirrored s' := by
  obtain ⟨e, -, hr, hl⟩ | ⟨-, hr, hl⟩ := Batch.afterImpl_eq he
  · obtain ⟨hok, -⟩ | ⟨-, ht⟩ := clear_cases (Option.some.inj hr)
    · cases hok
    · refine ⟨?_, by rw [ht]; exact hm.length⟩
      rw [Mirrors, hl, ht]
      exact hm.list
  · obtain ⟨-, ht⟩ | ⟨⟨e, hok⟩, -⟩ := clear_cases (Option.some.inj hr)
    · refine ⟨?_, by rw [ht]; decide⟩
      rw [Mirrors, ← Option.some.inj hl, ht]
      rfl
    · cases hok

theorem setAt_mirrored {idx : Int64} {tensor : Option Addr} (hm : Mirrored s)
    (he : exec s.batch s.objs (.setAt idx tensor) = some (raised, s'.batch, s'.objs)) :
    Mirrored s' := by
  have hsame : s'.batch = s.batch → Mirrored s' := fun hb =>
    ⟨hb ▸ hm.list, hb ▸ hm.length⟩
  change setAt idx tensor s.batch s.objs = _ at he
  unfold setAt at he
  by_cases h0 : idx < 0
  · rw [if_pos h0, Option.some.injEq, Prod.mk.injEq, Prod.mk.injEq] at he
    exact hsame he.2.1.symm
  by_cases hlen : s.batch.list.length ≤ idx.toInt
  · rw [if_neg h0, if_pos hlen, Option.some.injEq, Prod.mk.injEq, Prod.mk.injEq] at he
    exact hsame he.2.1.symm
  rw [if_neg h0, if_neg hlen] at he
  cases tensor with
  | none => cases he
  | some h =>
    have hz : (0 : Int64).toInt = 0 := rfl
    have hidx : idx.toInt32.toInt = idx.toInt := by
      have hlt := hm.length
      have hl := congrArg List.length hm.list
      rw [List.length_map] at hl
      rw [Int64.lt_iff_toInt_lt] at h0
      rw [Int64.toInt_toInt32, Int.bmod_def]
      split <;> omega
    obtain ⟨e, -, hr, hl⟩ | ⟨-, hr, hl⟩ := Batch.afterImpl_eq he
    · obtain ⟨hok, -⟩ | ⟨-, ht⟩ := setTensors_cases rfl hr
      · cases hok
      · refine ⟨?_, by rw [ht]; exact hm.length⟩
        rw [Mirrors, hl, ht]
        exact hm.list
    · obtain ⟨-, ht⟩ | ⟨⟨e, hok⟩, -⟩ := setTensors_cases rfl hr
      · refine ⟨?_, by rw [ht, List.length_set]; exact hm.length⟩
        rw [Mirrors, ← Option.some.inj hl, ht, hm.list, hidx, List.map_set]
      · cases hok

/-- A list that is pushed, against what the native batch has then. -/
theorem pushBackMany_mirrors_iff {l : List (Option Addr)} (hm : Mirrored s)
    (he : exec s.batch s.objs (.pushBackMany l) = some (raised, s'.batch, s'.objs)) :
    (Mirrors (s'.batch.impl.tensors.map some) s'.batch.list ↔ Fits s (.pushBackMany l)) ∧
      s'.batch.impl.tensors.length < 2 ^ 31 := by
  have hlist : s.batch.list = s.batch.impl.tensors.map some := hm.list
  obtain ⟨r, hr, hl⟩ : ∃ r, nvcvTensorBatchPushTensors (data (handlesOf l)
      (l ≠ [] ∨ s.batch.impl.capacity ≠ s.batch.impl.numTensors))
      (Int32.ofNat (handlesOf l).length) s.batch.impl s.objs =
        some (r, s'.batch.impl, s'.objs) ∧ s'.batch.list = s.batch.list ++ l := by
    obtain ⟨e, -, hr, hl⟩ | ⟨-, hr, hl⟩ := Batch.afterImpl_eq he
    · exact ⟨_, hr, hl⟩
    · exact ⟨_, hr, (Option.some.inj hl).symm⟩
  rw [hl, hlist]
  by_cases hd : l ≠ [] ∨ s.batch.impl.capacity ≠ s.batch.impl.numTensors
  · rw [data, if_pos (decide_eq_true hd), length_handlesOf] at hr
    have hle := toInt_ofNat_le l.length
    have hhs : handles (fun i => (handlesOf l).getD i 0) (Int32.ofNat l.length) =
        (handlesOf l).take (Int32.ofNat l.length).toInt.toNat :=
      map_data _ (by rw [length_handlesOf]; exact hle)
    have hshort : Accepts s.batch.impl s.objs (handlesOf l) → l.length < 2 ^ 31 := fun hacc => by
      have hroom := hacc.1
      have hlt := Int32.toInt_lt s.batch.impl.capacity
      rw [length_handlesOf] at hroom
      omega
    rcases pushTensors_cases hm.length hr with ⟨-, ht, hlt, hacc⟩ | ⟨-, ht, hacc⟩
    · rw [hhs] at ht hacc
      exact ⟨mirrors_push_iff rfl hshort (.inl ⟨ht, hacc⟩), hlt⟩
    · rw [hhs] at hacc
      exact ⟨mirrors_push_iff rfl hshort (.inr ⟨ht, hacc⟩), by rw [ht]; exact hm.length⟩
  · obtain ⟨hnil, -⟩ := not_or.1 hd
    obtain rfl := not_not.1 hnil
    rw [data, if_neg (by rw [decide_eq_true_iff]; exact hd)] at hr
    have himpl := congrArg (fun x => x.2.1) (Option.some.inj hr)
    simp only at himpl
    rw [← himpl, List.append_nil]
    exact ⟨iff_of_true rfl (.inl rfl), hm.length⟩

end

/-- **A call** that is made where the list mirrors the native batch. -/
theorem mirrors_iff {s s' : Sys} {op : Op} {raised : Except Raised Unit} (hm : Mirrored s)
    (he : exec s.batch s.objs op = some (raised, s'.batch, s'.objs)) :
    (Mirrors (s'.batch.impl.tensors.map some) s'.batch.list ↔ Fits s op) ∧
      s'.batch.impl.tensors.length < 2 ^ 31 := by
  have hkept : Mirrored s' → ((Mirrors (s'.batch.impl.tensors.map some) s'.batch.list ↔ True) ∧
      s'.batch.impl.tensors.length < 2 ^ 31) := fun h => ⟨iff_of_true h.list trivial, h.length⟩
  cases op with
  | pushBack h => exact hkept (pushBack_mirrored hm he)
  | pushBackMany l => exact pushBackMany_mirrors_iff hm he
  | popBack n => exact hkept (popBack_mirrored hm he)
  | setAt idx tensor => exact hkept (setAt_mirrored hm he)
  | clear => exact hkept (clear_mirrored hm he)

/-- A step of which the call, if it is one, fits. -/
def FitStep (s : Sys) (e : Event) (s' : Sys) : Prop :=
  (∀ op raised, e = .call op raised → Fits s op) ∧ Step s e s'

theorem New.mirrored {s : Sys} (h : New s) : Mirrored s where
  list := by rw [Mirrors, h.list, h.impl]; rfl
  length := by rw [h.impl]; decide

theorem step_mirrored {s s' : Sys} {e : Event} (hm : Mirrored s) (hs : FitStep s e s') :
    Mirrored s' := by
  obtain ⟨hfit, hs⟩ := hs
  cases e with
  | call op raised =>
    obtain ⟨hiff, hlt⟩ := mirrors_iff hm hs
    exact ⟨hiff.2 (hfit op raised rfl), hlt⟩
  | others objs =>
    subst hs
    exact ⟨hm.list, hm.length⟩

theorem run_mirrored {s s' : Sys} {es : List Event} (hs : New s) (hr : Run FitStep s es s') :
    Mirrored s' :=
  hr.inv (fun _ _ _ hm hs => step_mirrored hm hs) hs.mirrored

end TensorBatch

/-! ## Batches of images -/

namespace ImageBatchVarShape

open Nvcv.ImageBatchVarShape

/-- A native push has room for images, gets to its buffers and can add all of them. -/
def Accepts (sync : Except Nvcv.Exception Unit) (b : Nvcv.ImageBatchVarShape) (o : Objects Image)
    (hs : List Addr) : Prop :=
  sync = .ok () ∧ b.images.length + hs.length ≤ b.capacity.toInt ∧ ∀ h ∈ hs, pushable h o ≠ none

/-- **The condition** on a call: a list to push has no `None` and is accepted. -/
def Fits (s : Sys) : Op → Prop
  | .pushBackMany sync l =>
    l = [] ∨ none ∉ l ∧ Accepts sync s.batch.impl s.objs (handlesOf l)
  | _ => True

section
variable {print : ImageFormat → String} {b b' : Nvcv.ImageBatchVarShape} {o o' : Objects Image}
  {r : Except Nvcv.Exception Unit}

theorem pushed_all {hs : List Addr} : (pushed o hs).2 = true ↔ ∀ h ∈ hs, pushable h o ≠ none := by
  induction hs with
  | nil => simp [pushed]
  | cons h hs ih =>
    rw [pushed, List.forall_mem_cons]
    cases hp : pushable h o with
    | none => simp
    | some img => simpa using ih

theorem length_imgHandles (b : Nvcv.ImageBatchVarShape) : b.imgHandles.length = b.images.length :=
  List.length_map _

/-- What a push stores, it takes a reference on. -/
theorem Held.stored {l : List (Addr × Image)} (h : Held b o)
    (hobj : ∀ p ∈ l, o.obj p.1 = some p.2)
    (hm : o.Moved o' [] ((l.map Prod.fst).filter (· ≠ 0))) :
    (∀ x, b.imgHandles.count x + (l.map Prod.fst).count x ≤ o'.refs x) ∧ o'.refs 0 = 0 := by
  have hne : ∀ x ∈ l.map Prod.fst, x ≠ 0 := by
    rintro x hx rfl
    obtain ⟨p, hp, hp0⟩ := List.mem_map.1 hx
    have hpos := RefStore.refs_pos.2 (hobj p hp ▸ Option.some_ne_none p.2)
    rw [hp0, h.null] at hpos
    exact absurd hpos (Nat.lt_irrefl 0)
  rw [List.filter_eq_self.2 fun x hx => by simpa using hne x hx] at hm
  constructor
  · intro x
    have hx := hm.refs x
    have hle := h.refs x
    rw [List.count_nil] at hx
    omega
  · have h0 := hm.refs 0
    rw [List.count_eq_zero.2 fun h0 => hne 0 h0 rfl, List.count_nil, h.null] at h0
    omega

/-- A native push appends all images, which it accepts, or none. -/
theorem pushImages_cases (hb : b.images.length < 2 ^ 31) (hh : Held b o)
    {sync : Except Nvcv.Exception Unit} {images : Nat → Addr} {n : Int32}
    (h : pushImages print sync (some images) n b o = some (r, b', o')) :
    ((r = .ok () ∧ b'.imgHandles = b.imgHandles ++ Nvcv.ImageBatchVarShape.handles images n ∧
        (0 < n.toInt → Accepts sync b o (Nvcv.ImageBatchVarShape.handles images n))) ∨
      (∃ e, r = .error e) ∧ b'.imgHandles = b.imgHandles ∧
        (0 < n.toInt → ¬Accepts sync b o (Nvcv.ImageBatchVarShape.handles images n))) ∧
      b'.images.length < 2 ^ 31 ∧ Held b' o' := by
  have hlen : (Nvcv.ImageBatchVarShape.handles images n).length = n.toInt.toNat := by
    simp [Nvcv.ImageBatchVarShape.handles]
  have hlt := Int32.toInt_lt b.capacity
  have hnum : b.numImages.toInt = b.images.length := Int32.toInt_ofNat_of_lt hb
  unfold pushImages at h
  by_cases hcap : n + b.numImages > b.capacity
  · simp only [if_pos hcap] at h
    cases h
    refine ⟨.inr ⟨⟨_, rfl⟩, rfl, fun hpos hacc => ?_⟩, hb, hh⟩
    have hroom := hacc.2.1
    rw [hlen] at hroom
    rw [gt_iff_lt, Int32.lt_iff_toInt_lt, Int32.toInt_add_of_range (by omega) (by omega),
      hnum] at hcap
    omega
  simp only [if_neg hcap] at h
  cases sync with
  | error e =>
    cases h
    exact ⟨.inr ⟨⟨_, rfl⟩, rfl, fun hpos hacc => by cases hacc.1⟩, hb, hh⟩
  | ok u =>
    cases hp : pushLoop print (Nvcv.ImageBatchVarShape.handles images n) b o with
    | none =>
      simp only [hp] at h
      cases h
    | some q =>
      obtain ⟨q, b₁, o₁⟩ := q
      obtain ⟨l, rest, hst, hhs, himg, hobj, hm, hrest, hok⟩ := pushLoop_spec hp
      obtain ⟨hcount, hnull⟩ := hh.stored hobj hm
      have hstored := imgHandles_stored hst
      simp only [hp, Option.map_some, Option.some.injEq] at h
      cases q with
      | error e =>
        simp only [restoreNumImages, Prod.mk.injEq] at h
        obtain ⟨rfl, rfl, rfl⟩ := h
        have hsame : (b₁.images.take b.images.length).map Nvcv.BatchImage.handle =
            b.imgHandles := by rw [hst.take.1, imgHandles]
        refine ⟨.inr ⟨⟨_, rfl⟩, hsame, fun _ hacc => ?_⟩, ?_, ⟨fun x => ?_, hnull⟩⟩
        · have hall := hok.2 (pushed_all.2 hacc.2.2)
          cases hall
        · show (b₁.images.take b.images.length).length < _
          rw [hst.take.1]
          exact hb
        · have hx := hcount x
          show ((b₁.images.take b.images.length).map Nvcv.BatchImage.handle).count x ≤ _
          rw [hsame]
          omega
      | ok u =>
        simp only [restoreNumImages, Prod.mk.injEq] at h
        obtain ⟨rfl, rfl, rfl⟩ := h
        rw [hrest rfl, List.append_nil] at hhs
        have himages : b₁.images.length = b.images.length + l.length := by
          rw [← length_imgHandles, hstored, List.length_append, length_imgHandles,
            List.length_map]
        have hfit : (b₁.images.length : Int) ≤ b.capacity.toInt ∨ l = [] := by
          by_cases hl : l = []
          · exact .inr hl
          · exact .inl (by rw [← hst.take.2]; exact hst.room hl)
        refine ⟨.inl ⟨rfl, by rw [hstored, hhs], fun hpos => ⟨rfl, ?_, ?_⟩⟩, ?_, ⟨fun x => ?_, hnull⟩⟩
        · rcases hfit with hfit | rfl
          · rw [hhs, List.length_map]
            omega
          · rw [hhs] at hlen
            simp only [List.map_nil, List.length_nil] at hlen
            omega
        · exact pushed_all.1 (hok.1 rfl)
        · rcases hfit with hfit | rfl
          · omega
          · rw [himages, List.length_nil]
            exact hb
        · have hx := hcount x
          rw [hstored, List.count_append]
          exact hx

theorem popImages_cases (hb : b.images.length < 2 ^ 31) (hh : Held b o) {n : Int32}
    (h : b.popImages n o = (r, b', o')) :
    ((r = .ok () ∧ b'.imgHandles = b.imgHandles.take (b.images.length - n.toInt.toNat)) ∨
      (∃ e, r = .error e) ∧ b'.imgHandles = b.imgHandles) ∧
      b'.images.length < 2 ^ 31 ∧ Held b' o' := by
  unfold popImages at h
  split_ifs at h
  · cases h
    exact ⟨.inr ⟨⟨_, rfl⟩, rfl⟩, hb, hh⟩
  · cases h
    exact ⟨.inr ⟨⟨_, rfl⟩, rfl⟩, hb, hh⟩
  · generalize b.images.length - n.toInt.toNat = k at h ⊢
    have hne : ∀ x ∈ ((b.images.drop k).map Nvcv.BatchImage.handle).reverse, x ≠ 0 := by
      rintro x hx rfl
      have hle := (count_drop_le b k 0).trans (hh.refs 0)
      rw [hh.null] at hle
      have hpos := List.count_pos_iff.2 hx
      omega
    obtain ⟨o₁, ho, hm⟩ := coreObjectDecRefs_spec hne
      fun x => (count_drop_le b k x).trans (hh.refs x)
    simp only [ho, Prod.mk.injEq] at h
    obtain ⟨rfl, rfl, rfl⟩ := h
    have himg : ∀ c : Nvcv.ImageBatchVarShape, c.images = b.images.take k →
        c.imgHandles = b.imgHandles.take k := fun c hc => by
      rw [imgHandles, hc, List.map_take, imgHandles]
    have hrefs : ∀ x, (b.imgHandles.take k).count x ≤ o₁.refs x := by
      intro x
      have hx := hm.refs x
      have hle := hh.refs x
      have hsplit : b.imgHandles.count x = (b.imgHandles.take k).count x +
          (b.imgHandles.drop k).count x := by
        rw [← List.count_append, List.take_append_drop]
      rw [List.count_reverse, List.map_drop, List.count_nil] at hx
      rw [imgHandles] at hsplit hle ⊢
      omega
    have hnull : o₁.refs 0 = 0 := by
      have h0 := hm.refs 0
      rw [hh.null, List.count_nil] at h0
      omega
    have hlen : (b.images.take k).length < 2 ^ 31 := by
      rw [List.length_take]
      omega
    split_ifs
    · exact ⟨.inl ⟨rfl, himg _ rfl⟩, hlen, ⟨fun x => by rw [himg _ rfl]; exact hrefs x, hnull⟩⟩
    · exact ⟨.inl ⟨rfl, himg _ rfl⟩, hlen, ⟨fun x => by rw [himg _ rfl]; exact hrefs x, hnull⟩⟩

theorem clear_cases (hh : Held b o) (h : b.clear o = (r, b', o')) :
    r = .ok () ∧ b'.imgHandles = [] ∧ Held b' o' := by
  have hne : ∀ e ∈ b.images, e.handle ≠ 0 := by
    intro e he h0
    have hpos := List.count_pos_iff.2 (List.mem_map_of_mem he : e.handle ∈ b.imgHandles)
    have hle := hh.refs e.handle
    rw [h0, hh.null, imgHandles] at hle
    rw [h0] at hpos
    omega
  obtain ⟨es, o₁, ho, hm⟩ := clearLoop_spec hne hh.refs
  unfold Nvcv.ImageBatchVarShape.clear at h
  simp only [ho, Prod.mk.injEq] at h
  obtain ⟨rfl, rfl, rfl⟩ := h
  refine ⟨rfl, rfl, ⟨fun x => Nat.zero_le _, ?_⟩⟩
  have h0 := hm.refs 0
  rw [hh.null, List.count_nil] at h0
  omega

end

/-- The list of a batch mirrors the native batch, which is not too large and has its references. -/
structure Mirrored (s : Sys) : Prop where
  list : Mirrors (s.batch.impl.imgHandles.map some) s.batch.list
  length : s.batch.impl.images.length < 2 ^ 31
  held : Held s.batch.impl s.objs

section
variable {print : ImageFormat → String} {s s' : Sys} {raised : Except Raised Unit}
  {sync : Except Nvcv.Exception Unit}

theorem pushBack_mirrors {h : Addr} (hm : Mirrored s)
    (he : exec print s.batch s.objs (.pushBack sync h) = some (raised, s'.batch, s'.objs)) :
    (Mirrors (s'.batch.impl.imgHandles.map some) s'.batch.list ↔ True) ∧
      s'.batch.impl.images.length < 2 ^ 31 ∧ Held s'.batch.impl s'.objs := by
  have hone : Nvcv.ImageBatchVarShape.handles (fun _ => h) 1 = [h] := rfl
  obtain ⟨e, -, hr, hl⟩ | ⟨-, hr, hl⟩ := Batch.afterImpl_eq he
  · obtain ⟨⟨hok, -⟩ | ⟨-, ht, -⟩, hkept⟩ := pushImages_cases hm.length hm.held hr
    · cases hok
    · refine ⟨iff_of_true ?_ trivial, hkept⟩
      rw [Mirrors, hl, ht]
      exact hm.list
  · obtain ⟨⟨-, ht, -⟩ | ⟨⟨e, hok⟩, -⟩, hkept⟩ := pushImages_cases hm.length hm.held hr
    · refine ⟨iff_of_true ?_ trivial, hkept⟩
      rw [Mirrors, ← Option.some.inj hl, ht, hone, hm.list, List.map_append]
      rfl
    · cases hok

theorem popBack_mirrors {n : Int32} (hm : Mirrored s)
    (he : exec print s.batch s.objs (.popBack n) = some (raised, s'.batch, s'.objs)) :
    (Mirrors (s'.batch.impl.imgHandles.map some) s'.batch.list ↔ True) ∧
      s'.batch.impl.images.length < 2 ^ 31 ∧ Held s'.batch.impl s'.objs := by
  obtain ⟨e, -, hr, hl⟩ | ⟨-, hr, hl⟩ := Batch.afterImpl_eq he
  · obtain ⟨⟨hok, -⟩ | ⟨-, ht⟩, hkept⟩ := popImages_cases hm.length hm.held (Option.some.inj hr)
    · cases hok
    · refine ⟨iff_of_true ?_ trivial, hkept⟩
      rw [Mirrors, hl, ht]
      exact hm.list
  · obtain ⟨⟨-, ht⟩ | ⟨⟨e, hok⟩, -⟩, hkept⟩ :=
      popImages_cases hm.length hm.held (Option.some.inj hr)
    · unfold eraseBack at hl
      split_ifs at hl
      refine ⟨iff_of_true ?_ trivial, hkept⟩
      rw [Mirrors, ← Option.some.inj hl, ht, hm.list, List.length_map, length_imgHandles,
        List.map_take]
    · cases hok

theorem clear_mirrors (hm : Mirrored s)
    (he : exec print s.batch s.objs .clear = some (raised, s'.batch, s'.objs)) :
    (Mirrors (s'.batch.impl.imgHandles.map some) s'.batch.list ↔ True) ∧
      s'.batch.impl.images.length < 2 ^ 31 ∧ Held s'.batch.impl s'.objs := by
  obtain ⟨e, -, hr, -⟩ | ⟨-, hr, hl⟩ := Batch.afterImpl_eq he
  · obtain ⟨hok, -⟩ := clear_cases hm.held (Option.some.inj hr)
    cases hok
  · obtain ⟨-, ht, hheld⟩ := clear_cases hm.held (Option.some.inj hr)
    refine ⟨iff_of_true ?_ trivial, ?_, hheld⟩
    · rw [Mirrors, ← Option.some.inj hl, ht]
      rfl
    · rw [← length_imgHandles, ht]
      decide

/-- A list that is pushed, against what the native batch has then. -/
theorem pushBackMany_mirrors_iff {l : List (Option Addr)} (hm : Mirrored s)
    (he : exec print s.batch s.objs (.pushBackMany sync l) =
      some (raised, s'.batch, s'.objs)) :
    (Mirrors (s'.batch.impl.imgHandles.map some) s'.batch.list ↔ Fits s (.pushBackMany sync l)) ∧
      s'.batch.impl.images.length < 2 ^ 31 ∧ Held s'.batch.impl s'.objs := by
  have hlist : s.batch.list = s.batch.impl.imgHandles.map some := hm.list
  obtain ⟨r, hr, hl⟩ : ∃ r, pushImages print sync (data (handlesOf l) (l ≠ []))
      (Int32.ofNat (handlesOf l).length) s.batch.impl s.objs =
        some (r, s'.batch.impl, s'.objs) ∧ s'.batch.list = s.batch.list ++ l := by
    obtain ⟨e, -, hr, hl⟩ | ⟨-, hr, hl⟩ := Batch.afterImpl_eq he
    · exact ⟨_, hr, hl⟩
    · exact ⟨_, hr, (Option.some.inj hl).symm⟩
  rw [hl, hlist]
  by_cases hd : l ≠ []
  · rw [data, if_pos (decide_eq_true hd), length_handlesOf] at hr
    have hle := toInt_ofNat_le l.length
    have hhs : Nvcv.ImageBatchVarShape.handles (fun i => (handlesOf l).getD i 0)
        (Int32.ofNat l.length) = (handlesOf l).take (Int32.ofNat l.length).toInt.toNat :=
      map_data _ (by rw [length_handlesOf]; exact hle)
    have hshort : Accepts sync s.batch.impl s.objs (handlesOf l) → l.length < 2 ^ 31 :=
      fun hacc => by
        have hroom := hacc.2.1
        have hlt := Int32.toInt_lt s.batch.impl.capacity
        rw [length_handlesOf] at hroom
        omega
    obtain ⟨hcase, hkept⟩ := pushImages_cases hm.length hm.held hr
    rw [hhs] at hcase
    refine ⟨mirrors_push_iff rfl hshort ?_, hkept⟩
    exact hcase.imp And.right And.right
  · obtain rfl := not_not.1 hd
    rw [data, if_neg (by rw [decide_eq_true_iff]; exact hd)] at hr
    have himpl := congrArg (fun x => x.2) (Option.some.inj hr)
    simp only [Prod.mk.injEq] at himpl
    rw [← himpl.1, ← himpl.2, List.append_nil]
    exact ⟨iff_of_true rfl (.inl rfl), hm.length, hm.held⟩

end

/-- **A call** that is made where the list mirrors the native batch. -/
theorem mirrors_iff {print : ImageFormat → String} {s s' : Sys} {op : Op}
    {raised : Except Raised Unit} (hm : Mirrored s)
    (he : exec print s.batch s.objs op = some (raised, s'.batch, s'.objs)) :
    (Mirrors (s'.batch.impl.imgHandles.map some) s'.batch.list ↔ Fits s op) ∧
      s'.batch.impl.images.length < 2 ^ 31 ∧ Held s'.batch.impl s'.objs := by
  cases op with
  | pushBack sync h => exact pushBack_mirrors hm he
  | pushBackMany sync l => exact pushBackMany_mirrors_iff hm he
  | popBack n => exact popBack_mirrors hm he
  | clear => exact clear_mirrors hm he

/-- A step of which the call, if it is one, fits. -/
def FitStep (print : ImageFormat → String) (s : Sys) (e : Event) (s' : Sys) : Prop :=
  (∀ op raised, e = .call op raised → Fits s op) ∧ Step print s e s'

theorem New.mirrored {s : Sys} (h : New s) : Mirrored s where
  list := by rw [Mirrors, h.list, imgHandles, h.impl]; rfl
  length := by rw [h.impl]; decide
  held := by
    refine ⟨fun x => ?_, h.null⟩
    rw [imgHandles, h.impl]
    exact Nat.zero_le _

theorem step_mirrored {print : ImageFormat → String} {s s' : Sys} {e : Event} (hm : Mirrored s)
    (hs : FitStep print s e s') : Mirrored s' := by
  obtain ⟨hfit, hs⟩ := hs
  cases e with
  | call op raised =>
    obtain ⟨hiff, hlt, hheld⟩ := mirrors_iff hm hs
    exact ⟨hiff.2 (hfit op raised rfl), hlt, hheld⟩
  | others objs =>
    obtain ⟨rfl, hheld⟩ := hs
    exact ⟨hm.list, hm.length, hheld⟩

theorem run_mirrored {print : ImageFormat → String} {s s' : Sys} {es : List Event} (hs : New s)
    (hr : Run (FitStep print) s es s') : Mirrored s' :=
  hr.inv (fun _ _ _ hm hs => step_mirrored hm hs) hs.mirrored

end ImageBatchVarShape

/-! ## Runs -/

/-- **The lists mirror the native batches** after every run in which each list that is pushed
fits, and a call after it leaves them so exactly when it fits. -/
theorem batches_mirror (print : ImageFormat → String) :
    (∀ s es s', TensorBatch.New s → Run TensorBatch.FitStep s es s' →
      Mirrors (s'.batch.impl.tensors.map some) s'.batch.list ∧
        ∀ op raised s'', TensorBatch.Step s' (.call op raised) s'' →
          (Mirrors (s''.batch.impl.tensors.map some) s''.batch.list ↔ TensorBatch.Fits s' op)) ∧
    ∀ s es s', ImageBatchVarShape.New s → Run (ImageBatchVarShape.FitStep print) s es s' →
      Mirrors (s'.batch.impl.imgHandles.map some) s'.batch.list ∧
        ∀ op raised s'', ImageBatchVarShape.Step print s' (.call op raised) s'' →
          (Mirrors (s''.batch.impl.imgHandles.map some) s''.batch.list ↔
            ImageBatchVarShape.Fits s' op) := by
  constructor
  · intro s es s' hs hr
    have hm := TensorBatch.run_mirrored hs hr
    exact ⟨hm.list, fun op raised s'' h => (TensorBatch.mirrors_iff hm h).1⟩
  · intro s es s' hs hr
    have hm := ImageBatchVarShape.run_mirrored hs hr
    exact ⟨hm.list, fun op raised s'' h => (ImageBatchVarShape.mirrors_iff hm h).1⟩

/-- A new batch of tensors and the native ones. -/
def newTensors : TensorBatch.Sys :=
  ⟨⟨Nvcv.TensorBatch.threeTensors.batch, []⟩, Nvcv.TensorBatch.threeTensors.objs⟩

/-- A new batch of images and the native ones. -/
def newImages : ImageBatchVarShape.Sys :=
  ⟨⟨Nvcv.ImageBatchVarShape.emptyBatch.batch, []⟩, Nvcv.ImageBatchVarShape.twoImages⟩

/-- Two objects, as a list. -/
def twoObjects : List (Option Addr) := [some 16#64, some 32#64]

/-- Two tensors and two images, pushed to new batches. -/
theorem batches_mirror_two :
    (∃ s : TensorBatch.Sys, s.batch.list = twoObjects ∧
      Mirrors (s.batch.impl.tensors.map some) s.batch.list) ∧
    ∃ s : ImageBatchVarShape.Sys, s.batch.list = twoObjects ∧
      Mirrors (s.batch.impl.imgHandles.map some) s.batch.list := by
  constructor
  · have hfit : TensorBatch.Fits newTensors (.pushBackMany twoObjects) :=
      .inr ⟨by decide, by decide, _, rfl, rfl⟩
    have hs : TensorBatch.Step newTensors (.call (.pushBackMany twoObjects) (.ok ())) ⟨_, _⟩ := rfl
    have hm := (batches_mirror fun _ => "").1 _ _ _ ⟨rfl, rfl⟩
      (.cons ⟨fun op raised h => by cases h; exact hfit, hs⟩ (.nil _))
    exact ⟨_, rfl, hm.1⟩
  · have hpush : ∀ h ∈ handlesOf twoObjects,
        Nvcv.ImageBatchVarShape.pushable h Nvcv.ImageBatchVarShape.twoImages ≠ none := by
      rw [← ImageBatchVarShape.pushed_all]
      decide
    have hfit : ImageBatchVarShape.Fits newImages (.pushBackMany (.ok ()) twoObjects) :=
      .inr ⟨by decide, rfl, by decide, hpush⟩
    have hs : ImageBatchVarShape.Step (fun _ => "") newImages
        (.call (.pushBackMany (.ok ()) twoObjects) (.ok ())) ⟨_, _⟩ := rfl
    have hm := (batches_mirror _).2 _ _ _ ⟨rfl, rfl, rfl⟩
      (.cons ⟨fun op raised h => by cases h; exact hfit, hs⟩ (.nil _))
    exact ⟨_, rfl, hm.1⟩

/-- Five tensors pushed to a batch with room for four: they are in the list only. -/
theorem pushback_overflows : ¬∀ s es s', TensorBatch.New s → Run TensorBatch.Step s es s' →
    Mirrors (s'.batch.impl.tensors.map some) s'.batch.list := by
  intro h
  have hs : TensorBatch.Step newTensors
      (.call (.pushBackMany (List.replicate 5 (some 16#64))) _)
      ⟨⟨newTensors.batch.impl, List.replicate 5 (some 16#64)⟩, newTensors.objs⟩ := rfl
  have hm := h _ _ _ ⟨rfl, rfl⟩ (.cons hs (.nil _))
  cases hm

end Nvcvpy
