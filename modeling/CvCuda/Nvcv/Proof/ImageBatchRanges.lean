import CvCuda.Nvcv.Proof.ImageBatchCalls
import CvCuda.Nvcv.Proof.ImageBatchVarShape

/-! # The positions calls on batches of images work on

`Op.Inside` and `RangeFits` are as for batches of tensors.

* `pushLoop_none`: exactly when the loop of `pushImages` leaves the buffers.
* `safe_iff`: exactly when a call throws or stays inside.
-/

namespace Nvcv.ImageBatchVarShape

variable {b b' : ImageBatchVarShape} {o o' : Objects Image} {print : ImageFormat → String}

/-! ## The loops -/

theorem pushable_congr {h : Addr} (ho : o'.obj = o.obj) : pushable h o' = pushable h o := by
  unfold pushable
  rw [ho]

/-- **The loop of `pushImages` leaves the buffers** if it gets behind the last free position. -/
theorem pushLoop_none {hs : List Addr} (hf : (b.images.length : Int) ≤ b.capacity.toInt) :
    pushLoop print hs b o = none ↔
      b.room < hs.length ∧ ∀ x ∈ hs.take b.room, pushable x o ≠ none := by
  induction hs generalizing b o with
  | nil => simp [pushLoop]
  | cons x xs ih =>
    rw [pushLoop]
    by_cases hr : (b.images.length : Int) < b.capacity.toInt
    swap
    · have h0 : b.room = 0 := by
        rw [room]
        omega
      have hn : doPushImage print x b o = none := if_pos (by omega)
      rw [hn, h0]
      simp
    obtain ⟨k, hk⟩ : ∃ k, b.room = k + 1 := ⟨b.room - 1, by rw [room]; omega⟩
    rw [hk, List.take_succ_cons, List.length_cons]
    cases hp : pushable x o with
    | none =>
      obtain ⟨e, he⟩ := doPushImage_refused print hp hr
      rw [he]
      refine iff_of_false (by simp) fun h => h.2 x (List.mem_cons_self ..) hp
    | some img =>
      obtain ⟨he, -, ho⟩ := doPushImage_pushable print hp hr
      rw [he]
      have hinc : ∃ n o₁, (if x = 0 then (.ok 0, o) else coreObjectIncRef x o) =
          ((.ok n : Except Exception Nat), o₁) ∧ o₁.obj = o.obj := by
        by_cases hx : x = 0
        · exact ⟨0, o, if_pos hx, rfl⟩
        · obtain ⟨o₁, e₁, m₁⟩ := coreObjectIncRef_spec (RefStore.refs_pos.2 ho)
          exact ⟨_, o₁, by rw [if_neg hx, e₁], m₁.obj_eq⟩
      obtain ⟨n, o₁, e₁, ho₁⟩ := hinc
      obtain ⟨hi, hc, -⟩ := storeImage_fields (b := b) x img
      have hroom : (b.storeImage x img).room = k := by
        rw [room] at hk ⊢
        rw [hi, hc, List.length_append, List.length_singleton]
        omega
      simp only [e₁]
      rw [ih (by rw [hi, hc, List.length_append, List.length_singleton]; omega), hroom,
        Nat.succ_lt_succ_iff]
      refine and_congr_right fun _ => ⟨fun h y hy => ?_, fun h y hy => ?_⟩
      · rcases List.mem_cons.1 hy with rfl | hy
        · rw [hp]
          exact Option.some_ne_none _
        · rw [← pushable_congr ho₁]
          exact h y hy
      · rw [pushable_congr ho₁]
        exact h y (List.mem_cons_of_mem _ hy)

theorem coreObjectIncRefs_error {hs : List Addr} {x : Addr} (hx : x ∈ hs) (h0 : o.refs x = 0) :
    ∃ e o', coreObjectIncRefs hs o = (.error e, o') := by
  induction hs generalizing o with
  | nil => cases hx
  | cons h hs ih =>
    have hd := @coreObjectIncRef_dead _ h _ _ h0
    rw [coreObjectIncRefs]
    rcases hr : coreObjectIncRef h o with ⟨e | n, o₁⟩
    · exact ⟨e, o₁, rfl⟩
    · rw [hr] at hd
      rcases List.mem_cons.1 hx with rfl | hx
      · rw [coreObjectIncRef, RefStore.acquire, RefStore.refs_eq_zero_iff.1 h0] at hr
        cases hr
      · exact ih hx hd

/-! ## The calls -/

/-- The positions the range of a call has are in the batch, those of a push in its buffers. -/
def Op.Inside (b : ImageBatchVarShape) : Op → Prop
  | .pushImages _ _ numImages => ∀ i : Int, b.images.length ≤ i →
      i < b.images.length + numImages.toInt → i < b.capacity.toInt
  | .getImages begIndex _ numImages => ∀ i : Int, begIndex.toInt ≤ i →
      i < begIndex.toInt + numImages.toInt → 0 ≤ i ∧ i < b.images.length
  | _ => True

/-- The calls that take a range, less the pops. -/
def Op.Ranged : Op → Prop
  | .pushImages .. | .getImages .. => True
  | _ => False

/-- The call has an outcome, and it throws or its positions are inside. -/
def Safe (print : ImageFormat → String) (b : ImageBatchVarShape) (o : Objects Image) (op : Op) :
    Prop :=
  ∃ r b' o', exec print b o op = some (r, b', o') ∧ ((∃ e, r = .threw e) ∨ op.Inside b)

/-- **The condition**: the sum of 32 bits does not wrap, or what it lets through throws before the
positions are used up. -/
def RangeFits (b : ImageBatchVarShape) (o : Objects Image) : Op → Prop
  | .pushImages (.ok ()) (some images) numImages =>
      2 ^ 31 ≤ b.images.length + numImages.toInt →
        ∃ x ∈ (handles images numImages).take b.room, pushable x o = none
  | .getImages begIndex true numImages => 0 ≤ begIndex.toInt →
      2 ^ 31 ≤ begIndex.toInt + numImages.toInt →
        ∃ e ∈ b.images.drop begIndex.toInt.toNat, e.handle ≠ 0 ∧ o.refs e.handle = 0
  | _ => True

section
variable (hf : (b.images.length : Int) ≤ b.capacity.toInt)
include hf

theorem push_checked {n : Int32} : ¬n + b.numImages > b.capacity ↔
    b.images.length + n.toInt ≤ b.capacity.toInt ∨ 2 ^ 31 ≤ b.images.length + n.toInt := by
  have hN := toInt_numImages hf
  have := b.capacity.toInt_lt
  have := n.toInt_lt
  have := n.le_toInt
  by_cases hw : 2 ^ 31 ≤ b.images.length + n.toInt
  · have hsum := @Int32.toInt_add_wraps n b.numImages (by omega)
    rw [gt_iff_lt, Int32.lt_iff_toInt_lt, hsum, hN]
    omega
  · rw [gt_iff_lt, Int32.lt_iff_toInt_lt, Int32.toInt_add_of_range (by omega) (by omega), hN]
    omega

theorem push_safe_iff {sync : Except Exception Unit} {images : Nat → Addr} {n : Int32} :
    Safe print b o (.pushImages sync (some images) n) ↔
      RangeFits b o (.pushImages sync (some images) n) := by
  have hexec : exec print b o (.pushImages sync (some images) n) =
      (pushImages print sync (some images) n b o).map fun r => (.ofUnit r.1, r.2) := rfl
  unfold Safe
  rw [hexec]
  unfold pushImages
  have hcap := b.capacity.toInt_lt
  have hlen : (handles images n).length = n.toInt.toNat := by
    rw [handles, List.length_map, List.length_range]
  by_cases hc : n + b.numImages > b.capacity
  · simp only [if_pos hc]
    have hw := (not_congr (push_checked hf)).1 (not_not_intro hc)
    refine iff_of_true ⟨_, _, _, rfl, .inl ⟨_, rfl⟩⟩ ?_
    cases sync with
    | error e => trivial
    | ok u => exact fun h => absurd (.inr h) hw
  simp only [if_neg hc]
  cases sync with
  | error e => exact iff_of_true ⟨_, _, _, rfl, .inl ⟨_, rfl⟩⟩ trivial
  | ok u =>
    have hchk := (push_checked hf).1 hc
    have hloop := @pushLoop_none b o print (handles images n) hf
    cases hl : pushLoop print (handles images n) b o with
    | none =>
      obtain ⟨hroom, hall⟩ := hloop.1 hl
      have hw : 2 ^ 31 ≤ b.images.length + n.toInt := by
        refine hchk.resolve_left fun hfit => ?_
        rw [room, hlen] at hroom
        omega
      simp only
      refine iff_of_false ?_ fun h => ?_
      · rintro ⟨r, b', o', hnone, -⟩
        cases hnone
      · obtain ⟨x, hx, hp⟩ := h hw
        exact hall x hx hp
    | some q =>
      obtain ⟨r, b₁, o₁⟩ := q
      have hR : RangeFits b o (.pushImages (.ok u) (some images) n) := by
        intro hw
        by_contra hno
        rw [hloop.2 ⟨by rw [room, hlen]; omega, fun x hx hp => hno ⟨x, hx, hp⟩⟩] at hl
        cases hl
      refine iff_of_true ?_ hR
      cases r with
      | error e => exact ⟨_, _, _, rfl, .inl ⟨_, rfl⟩⟩
      | ok u =>
        refine ⟨_, _, _, rfl, .inr fun i h₁ h₂ => ?_⟩
        obtain ⟨l, rest, hst, hhs, -, -, -, hrest, -⟩ := pushLoop_spec hl
        rw [hrest rfl, List.append_nil] at hhs
        have hll := congrArg List.length hhs
        rw [hlen, List.length_map] at hll
        have hl0 : l ≠ [] := by
          rintro rfl
          rw [List.length_nil] at hll
          omega
        have hroom := hst.room hl0
        obtain ⟨hi, hcp, -⟩ := storeImages_fields (b := b) l
        rw [hst.eq, hi, hcp, List.length_append, entries, List.length_map] at hroom
        omega

theorem get_safe_iff {beg n : Int32} :
    Safe print b o (.getImages beg true n) ↔ RangeFits b o (.getImages beg true n) := by
  have hN := toInt_numImages hf
  have hcap := b.capacity.toInt_lt
  have hz : (0 : Int32).toInt = 0 := rfl
  simp only [Safe, exec, nvcvImageBatchVarShapeGetImages, reduceCtorEq, if_false]
  unfold getImages
  by_cases hneg : beg < 0
  · rw [if_pos hneg]
    rw [Int32.lt_iff_toInt_lt] at hneg
    exact iff_of_true ⟨_, _, _, rfl, .inl ⟨_, rfl⟩⟩ fun h => by omega
  rw [if_neg hneg]
  rw [Int32.lt_iff_toInt_lt] at hneg
  have hchk : ¬beg + n > b.numImages ↔ beg.toInt + n.toInt ≤ b.images.length ∨
      2 ^ 31 ≤ beg.toInt + n.toInt := by
    have := beg.toInt_lt
    have := n.toInt_lt
    have := n.le_toInt
    by_cases hw : 2 ^ 31 ≤ beg.toInt + n.toInt
    · have hsum := Int32.toInt_add_wraps hw
      rw [gt_iff_lt, Int32.lt_iff_toInt_lt, hsum, hN]
      omega
    · rw [gt_iff_lt, Int32.lt_iff_toInt_lt, Int32.toInt_add_of_range (by omega) (by omega), hN]
      omega
  by_cases hc : beg + n > b.numImages
  · rw [if_pos hc]
    have hw := (not_congr hchk).1 (not_not_intro hc)
    exact iff_of_true ⟨_, _, _, rfl, .inl ⟨_, rfl⟩⟩ fun _ h => absurd (.inr h) hw
  rw [if_neg hc]
  have hfit := hchk.1 hc
  -- a range whose end wraps has every image from its beginning on
  have htake (hw : 2 ^ 31 ≤ beg.toInt + n.toInt) :
      (b.images.drop beg.toInt.toNat).take n.toInt.toNat = b.images.drop beg.toInt.toNat := by
    refine List.take_of_length_le ?_
    rw [List.length_drop]
    omega
  rcases hr : coreObjectIncRefs ((((b.images.drop beg.toInt.toNat).take n.toInt.toNat).map
    BatchImage.handle).filter (· ≠ 0)) o with ⟨e | u, o₁⟩
  · simp only [hr]
    refine iff_of_true ⟨_, _, _, rfl, .inl ⟨_, rfl⟩⟩ fun _ hw => ?_
    rw [htake hw] at hr
    by_contra hno
    have hlive : ∀ x ∈ ((b.images.drop beg.toInt.toNat).map BatchImage.handle).filter (· ≠ 0),
        0 < o.refs x := by
      intro x hx
      obtain ⟨hx, h0⟩ := List.mem_filter.1 hx
      obtain ⟨e, he, rfl⟩ := List.mem_map.1 hx
      exact Nat.pos_of_ne_zero fun hz => hno ⟨e, he, by simpa using h0, hz⟩
    obtain ⟨o', ho, -⟩ := coreObjectIncRefs_spec hlive
    rw [ho] at hr
    cases hr
  · simp only [hr]
    rcases hfit with hfit | hw
    · have hin : ¬(0 < n ∧ b.images.length < beg.toInt.toNat + n.toInt.toNat) := by
        rw [Int32.lt_iff_toInt_lt]
        omega
      rw [if_neg hin]
      refine iff_of_true ⟨_, _, _, rfl, .inr fun i h₁ h₂ => ?_⟩ fun _ hw => ?_
      · omega
      · omega
    · have := beg.toInt_lt
      have hout : 0 < n ∧ b.images.length < beg.toInt.toNat + n.toInt.toNat := by
        rw [Int32.lt_iff_toInt_lt]
        omega
      rw [if_pos hout]
      refine iff_of_false ?_ fun h => ?_
      · rintro ⟨r, b', o', hnone, -⟩
        cases hnone
      · obtain ⟨e, he, h0, hd⟩ := h (by omega) hw
        rw [htake hw] at hr
        have hmem : e.handle ∈
            ((b.images.drop beg.toInt.toNat).map BatchImage.handle).filter (· ≠ 0) :=
          List.mem_filter.2 ⟨List.mem_map_of_mem he, by simpa using h0⟩
        obtain ⟨e', o', ho⟩ := coreObjectIncRefs_error hmem hd
        rw [ho] at hr
        cases hr

/-- The calls that take a range, in any state that keeps the images in the buffers. -/
theorem safe_iff {op : Op} (hr : op.Ranged) : Safe print b o op ↔ RangeFits b o op := by
  cases op with
  | pushImages sync images n =>
    cases images with
    | none =>
      refine iff_of_true ⟨_, _, _, rfl, .inl ⟨_, rfl⟩⟩ ?_
      cases sync <;> trivial
    | some images => exact push_safe_iff hf
  | getImages beg out n =>
    cases out with
    | false => exact iff_of_true ⟨_, _, _, rfl, .inl ⟨_, rfl⟩⟩ trivial
    | true => exact get_safe_iff hf
  | pushImagesCallback sync cb => exact hr.elim
  | popImages n => exact hr.elim
  | clear => exact hr.elim
  | maxSize => exact hr.elim
  | uniqueFormat => exact hr.elim
  | exportData calls => exact hr.elim

end

end Nvcv.ImageBatchVarShape
