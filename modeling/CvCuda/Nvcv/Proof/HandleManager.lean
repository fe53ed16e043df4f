import CvCuda.Lib.Run
import CvCuda.Nvcv.HandleManager

/-! # Handles are safe

`Inv m L` relates a manager to the ledger of its calls: the free resources and the resources of
the live handles are all the resources, each once; a live handle has its slot's generation and
its references are the slot's count; a destroyed handle is behind its slot's generation by the
objects created in the slot since.

* `getValid_spec`: a handle is valid exactly when it is live.
* `exec_inv`: every call keeps `Inv`, as long as the counts fit in an `int` (`Ledger.Small`).
* `runs_safe`: what holds after every sequence of calls.
* `incRefs_wrap`: `2 ^ 31 - 1` calls of `incRef` wrap the count of an object.
-/

namespace Nvcv.HandleManager

open Rounding

/-! ## Handles and addresses -/

theorem getLsbD_fifteen (i : Nat) : (15#64).getLsbD i = decide (i < 4) := by
  rw [show (15#64 : Addr) = BitVec.ofNat 64 (2 ^ 4 - 1) by rfl, BitVec.getLsbD_ofNat,
    Nat.testBit_two_pow_sub_one]
  by_cases hi : i < 4
  · simp [hi, show i < 64 by omega]
  · simp [hi]

theorem getLsbD_resource (h : Addr) (i : Nat) :
    (doGetResourceFromHandle h).getLsbD i = (h.getLsbD i && !decide (i < 4)) := by
  by_cases hi : i < 64
  · rw [doGetResourceFromHandle, show (-kResourceAlignment : Addr) = ~~~15#64 by rfl,
      BitVec.getLsbD_and, BitVec.getLsbD_not, getLsbD_fifteen, decide_eq_true hi, Bool.true_and]
  · rw [BitVec.getLsbD_of_ge _ _ (by omega), BitVec.getLsbD_of_ge h _ (by omega), Bool.false_and]

theorem getLsbD_generation (h : Addr) (i : Nat) :
    (doGetHandleGeneration h).getLsbD i = (h.getLsbD i && decide (i < 4)) := by
  rw [doGetHandleGeneration, show (kResourceAlignment - 1#64 : Addr) = 15#64 by rfl,
    BitVec.getLsbD_setWidth, BitVec.getLsbD_and, getLsbD_fifteen]
  cases h.getLsbD i <;> simp

/-- A handle is its resource's address and its generation. -/
theorem handle_eq (h : Addr) :
    doGetHandleFromResource (doGetResourceFromHandle h) (doGetHandleGeneration h) = h := by
  apply BitVec.eq_of_getLsbD_eq
  intro i hi
  rw [doGetHandleFromResource, BitVec.getLsbD_or, BitVec.getLsbD_setWidth, getLsbD_resource,
    getLsbD_generation, decide_eq_true hi]
  cases h.getLsbD i <;> cases decide (i < 4) <;> rfl

theorem getLsbD_of_aligned {r : Addr} (hr : 16 ∣ r.toNat) {i : Nat} (hi : i < 4) :
    r.getLsbD i = false := by
  have h0 : r &&& 15#64 = 0#64 :=
    (and_sub_one_eq_zero (a := kResourceAlignment) r ⟨4, by decide, rfl⟩).2 hr
  have := congrArg (BitVec.getLsbD · i) h0
  simpa only [BitVec.getLsbD_and, getLsbD_fifteen, decide_eq_true hi, Bool.and_true,
    BitVec.getLsbD_zero] using this

@[simp] theorem resource_handle {r : Addr} (hr : 16 ∣ r.toNat) (g : BitVec 4) :
    doGetResourceFromHandle (doGetHandleFromResource r g) = r := by
  apply BitVec.eq_of_getLsbD_eq
  intro i hi
  rw [getLsbD_resource, doGetHandleFromResource, BitVec.getLsbD_or, BitVec.getLsbD_setWidth]
  by_cases h4 : i < 4
  · rw [getLsbD_of_aligned hr h4, decide_eq_true h4, Bool.not_true, Bool.and_false]
  · rw [BitVec.getLsbD_of_ge g i (by omega), decide_eq_false h4, Bool.not_false, Bool.and_true,
      Bool.and_false, Bool.or_false]

@[simp] theorem generation_handle {r : Addr} (hr : 16 ∣ r.toNat) (g : BitVec 4) :
    doGetHandleGeneration (doGetHandleFromResource r g) = g := by
  apply BitVec.eq_of_getLsbD_eq
  intro i hi
  rw [getLsbD_generation, doGetHandleFromResource, BitVec.getLsbD_or, BitVec.getLsbD_setWidth,
    getLsbD_of_aligned hr hi, decide_eq_true hi, decide_eq_true (by omega : i < 64),
    Bool.true_and, Bool.and_true, Bool.false_or]

/-! ## Pools -/

/-- The resources of all pools. -/
def allSlots {Obj : Type} (m : HandleManager Obj) : List Addr :=
  m.resourceStack.flatMap (slots m.sizeofResource)

section
variable {Obj : Type} {m : HandleManager Obj}

theorem mem_allSlots {r : Addr} :
    r ∈ m.allSlots ↔ ∃ p ∈ m.resourceStack, r ∈ slots m.sizeofResource p := List.mem_flatMap

theorem FreshPool.toNat_slot {data : Addr} {count : Nat} (h : FreshPool m data count) {i : Nat}
    (hi : i < count) :
    (data + BitVec.ofNat 64 (i * m.sizeofResource.bytes)).toNat =
      data.toNat + i * m.sizeofResource.bytes := by
  have hle := Nat.mul_le_mul_right m.sizeofResource.bytes hi.le
  have hs := h.in_space
  rw [BitVec.toNat_add, BitVec.toNat_ofNat, Nat.mod_eq_of_lt (by omega : i * _ < 2 ^ 64),
    Nat.mod_eq_of_lt (by omega)]

/-- A resource of a new pool: aligned, and in the range of the pool. -/
theorem FreshPool.mem_slots {data : Addr} {count : Nat} (h : FreshPool m data count) {r : Addr}
    (hr : r ∈ slots m.sizeofResource ⟨data, count⟩) :
    r ≠ 0 ∧ 16 ∣ r.toNat ∧ data.toNat ≤ r.toNat ∧
      r.toNat < data.toNat + count * m.sizeofResource.bytes := by
  obtain ⟨i, hi, rfl⟩ := List.mem_map.1 hr
  have hi : i < count := List.mem_range.1 hi
  have htn : (ResourcePool.data ⟨data, count⟩ + _).toNat = _ := h.toNat_slot hi
  have hle := Nat.mul_le_mul_right m.sizeofResource.bytes (Nat.succ_le_of_lt hi)
  rw [Nat.succ_mul] at hle
  have hb := m.sizeofResource.pos
  have hd : 0 < data.toNat := Nat.pos_of_ne_zero fun h0 => h.nonnull (BitVec.eq_of_toNat_eq h0)
  refine ⟨fun h0 => ?_, ?_, by omega, by omega⟩
  · rw [h0] at htn
    have : (0 : Addr).toNat = 0 := rfl
    omega
  · rw [htn]
    exact h.aligned.add (m.sizeofResource.aligned.mul_left i)

theorem FreshPool.nodup_slots {data : Addr} {count : Nat} (h : FreshPool m data count) :
    (slots m.sizeofResource ⟨data, count⟩).Nodup := by
  refine List.Nodup.map_on (fun i hi j hj hij => ?_) List.nodup_range
  have hi : i < count := List.mem_range.1 hi
  have hj : j < count := List.mem_range.1 hj
  have hij := congrArg BitVec.toNat hij
  rw [h.toNat_slot hi, h.toNat_slot hj] at hij
  exact Nat.eq_of_mul_eq_mul_right m.sizeofResource.pos (Nat.add_left_cancel hij)

theorem isManaged_iff {r : Addr} : m.isManagedResource r = true ↔
    ∃ p ∈ m.resourceStack, p.data.toNat ≤ r.toNat ∧
      r.toNat < p.data.toNat + p.size * m.sizeofResource.bytes := by
  simp [isManagedResource, List.any_eq_true]

/-! ## The invariant -/

/-- A live handle with its references, and its slot. -/
structure LiveOk (m : HandleManager Obj) (e : Addr × Nat) : Prop where
  alive : (m.res (doGetResourceFromHandle e.1)).ptrObj.isSome = true
  generation : (m.res (doGetResourceFromHandle e.1)).generation = doGetHandleGeneration e.1
  refs : (m.res (doGetResourceFromHandle e.1)).refCount.toInt = e.2
  refs_pos : 0 < e.2

/-- A destroyed handle, and its slot, in which `d.2` objects have been created since. -/
structure DeadOk (m : HandleManager Obj) (L : Ledger) (d : Addr × Nat) : Prop where
  slot : doGetResourceFromHandle d.1 ∈ m.allSlots
  generation : (m.res (doGetResourceFromHandle d.1)).generation =
    doGetHandleGeneration d.1 + BitVec.ofNat 4 d.2
  free : d.2 = 0 → ∀ e ∈ L.live, doGetResourceFromHandle e.1 ≠ doGetResourceFromHandle d.1

structure Inv (m : HandleManager Obj) (L : Ledger) : Prop where
  capacity : m.totalCapacity = 0
  slots_ok : ∀ r ∈ m.allSlots, r ≠ 0 ∧ 16 ∣ r.toNat ∧ m.isManagedResource r = true
  slots_nodup : m.allSlots.Nodup
  places : (m.freeResources ++ L.live.map fun e => doGetResourceFromHandle e.1).Perm m.allSlots
  free : ∀ r ∈ m.freeResources, (m.res r).ptrObj = none ∧ (m.res r).refCount = 0
  live : ∀ e ∈ L.live, LiveOk m e
  dead : ∀ d ∈ L.dead, DeadOk m L d
  used : m.usedCount.toInt = L.live.length

namespace Inv

variable {L : Ledger} (h : Inv m L)
include h

theorem places_nodup :
    (m.freeResources ++ L.live.map fun e => doGetResourceFromHandle e.1).Nodup :=
  h.places.nodup_iff.2 h.slots_nodup

theorem live_slot {e : Addr × Nat} (he : e ∈ L.live) : doGetResourceFromHandle e.1 ∈ m.allSlots :=
  h.places.mem_iff.1 (List.mem_append_right _ (List.mem_map_of_mem he))

theorem free_slot {r : Addr} (hr : r ∈ m.freeResources) : r ∈ m.allSlots :=
  h.places.mem_iff.1 (List.mem_append_left _ hr)

theorem free_not_live {r : Addr} (hr : r ∈ m.freeResources) {e : Addr × Nat} (he : e ∈ L.live) :
    doGetResourceFromHandle e.1 ≠ r := fun heq =>
  (List.nodup_append.1 h.places_nodup).2.2 r hr _ (List.mem_map_of_mem he) heq.symm

/-- Two live handles of one slot are the same entry of the ledger. -/
theorem live_inj {e e' : Addr × Nat} (he : e ∈ L.live) (he' : e' ∈ L.live)
    (heq : doGetResourceFromHandle e.1 = doGetResourceFromHandle e'.1) : e = e' :=
  List.inj_on_of_nodup_map (List.nodup_append.1 h.places_nodup).2.1 he he' heq

/-- **The handles of live objects are distinct.** -/
theorem handles_nodup : (L.live.map Prod.fst).Nodup := by
  refine List.Nodup.of_map doGetResourceFromHandle ?_
  rw [List.map_map]
  exact (List.nodup_append.1 h.places_nodup).2.1

/-- A resource has a live object exactly when it is the slot of a live handle. -/
theorem alive_iff {r : Addr} (hr : r ∈ m.allSlots) :
    (m.res r).ptrObj.isSome = true ↔ ∃ e ∈ L.live, doGetResourceFromHandle e.1 = r := by
  constructor
  · intro ha
    rcases List.mem_append.1 (h.places.mem_iff.2 hr) with hf | hl
    · rw [(h.free r hf).1] at ha
      exact Bool.noConfusion ha
    · exact List.mem_map.1 hl
  · rintro ⟨e, he, rfl⟩
    exact (h.live e he).alive

end Inv

/-- The handles that were issued point to resources. -/
theorem Inv.pointsToStart {L : Ledger} (h : Inv m L) {handle : Addr}
    (hp : L.Issued handle ∨ handle = 0 ∨
      m.isManagedResource (doGetResourceFromHandle handle) = false) : PointsToStart m handle := by
  rcases hp with (⟨n, hn⟩ | ⟨k, hk⟩) | h0 | hout
  · exact .inl (mem_allSlots.1 (h.live_slot hn))
  · exact .inl (mem_allSlots.1 (h.dead _ hk).slot)
  · exact .inr (.inl h0)
  · exact .inr (.inr hout)

/-- **Validity.** A handle that points to no middle of a resource is valid exactly when it is the
handle of a live object. -/
theorem getValid_spec {L : Ledger} (h : Inv m L) {handle : Addr} (hp : PointsToStart m handle) :
    (∃ n, (handle, n) ∈ L.live ∧
        m.getValidResource handle = some (doGetResourceFromHandle handle)) ∨
      ((∀ n, (handle, n) ∉ L.live) ∧ m.getValidResource handle = none) := by
  by_cases hlive : ∃ n, (handle, n) ∈ L.live
  · obtain ⟨n, hn⟩ := hlive
    obtain ⟨hnz, -, hm⟩ := h.slots_ok _ (h.live_slot hn)
    have h0 : handle ≠ 0 := by
      rintro rfl
      exact hnz (show doGetResourceFromHandle 0 = 0 by decide)
    obtain ⟨ha, hg, -, -⟩ := h.live _ hn
    refine .inl ⟨n, hn, ?_⟩
    unfold getValidResource
    rw [if_neg h0]
    exact if_pos ⟨hnz, hm, ha, hg⟩
  · refine .inr ⟨fun n hn => hlive ⟨n, hn⟩, ?_⟩
    unfold getValidResource
    by_cases h0 : handle = 0
    · exact if_pos h0
    rw [if_neg h0]
    refine if_neg fun ⟨_, hm, ha, hg⟩ => ?_
    rcases hp with hslot | h0' | hout
    · -- the slot's live object has the generation of the handle, so it is the handle's
      obtain ⟨e, he, hes⟩ := (h.alive_iff (mem_allSlots.2 hslot)).1 ha
      have hge := (h.live e he).generation
      rw [hes, hg] at hge
      have : e.1 = handle := by
        rw [← handle_eq e.1, ← handle_eq handle, hes, hge]
      exact hlive ⟨e.2, this ▸ he⟩
    · exact h0 h0'
    · rw [hout] at hm
      exact Bool.noConfusion hm

/-! ## What the parts of a call keep -/

@[simp] theorem modify_res_self (m : HandleManager Obj) (r : Addr) (f : Resource Obj → Resource Obj) :
    (m.modify r f).res r = f (m.res r) := Function.update_self ..

theorem modify_res_of_ne {r r' : Addr} (f : Resource Obj → Resource Obj) (h : r' ≠ r) :
    (m.modify r f).res r' = m.res r' := Function.update_of_ne h ..

/-- A change of a resource that keeps its generation keeps every generation. -/
theorem modify_generation {r : Addr} {f : Resource Obj → Resource Obj}
    (hf : ∀ x, (f x).generation = x.generation) (r' : Addr) :
    ((m.modify r f).res r').generation = (m.res r').generation := by
  by_cases e : r' = r
  · subst e
    rw [modify_res_self, hf]
  · rw [modify_res_of_ne f e]

theorem toInt_add_one {n : Int32} {k : Nat} (h : n.toInt = k) (hk : k + 1 < 2 ^ 31) :
    (n + 1).toInt = (k + 1 : Nat) := by
  rw [Int32.toInt_add, h]
  exact Int.bmod_eq_of_le (by simp; omega) (by simp; omega)

theorem toInt_sub_one {n : Int32} {k : Nat} (h : n.toInt = k) (hk : 0 < k) :
    (n - 1).toInt = (k - 1 : Nat) := by
  have hlt := n.toInt_lt
  rw [Int32.toInt_sub, h]
  rw [Int.bmod_eq_of_le (by simp; omega) (by simp; omega)]
  simp
  omega

variable {L : Ledger}

/-- **A new pool** adds its resources to the free ones. -/
theorem Inv.allocate (h : Inv m L) {data : Addr} {count : Nat} (hf : FreshPool m data count) :
    Inv (doAllocate (some data) count m).2 L := by
  have hnew : ∀ r ∈ m.allSlots, r ∉ slots m.sizeofResource ⟨data, count⟩ := by
    intro r hr hn
    obtain ⟨-, -, hlo, hhi⟩ := hf.mem_slots hn
    obtain ⟨p, hp, hplo, hphi⟩ := isManaged_iff.1 (h.slots_ok r hr).2.2
    rcases hf.apart p hp with hap | hap <;> omega
  have hres : ∀ r ∈ m.allSlots, (doAllocate (some data) count m).2.res r = m.res r :=
    fun r hr => if_neg (hnew r hr)
  have hall : (doAllocate (some data) count m).2.allSlots =
    slots m.sizeofResource ⟨data, count⟩ ++ m.allSlots := rfl
  refine ⟨h.capacity, fun r hr => ?_, ?_, ?_, fun r hr => ?_, fun e he => ?_, fun d hd => ?_,
    h.used⟩
  · rw [isManaged_iff]
    rcases List.mem_append.1 (hall ▸ hr) with hr | hr
    · obtain ⟨h1, h2, h3, h4⟩ := hf.mem_slots hr
      exact ⟨h1, h2, _, .head _, h3, h4⟩
    · obtain ⟨h1, h2, h3⟩ := h.slots_ok r hr
      obtain ⟨p, hp, hpr⟩ := isManaged_iff.1 h3
      exact ⟨h1, h2, p, .tail _ hp, hpr⟩
  · rw [hall]
    exact List.nodup_append.2 ⟨hf.nodup_slots, h.slots_nodup, fun a ha b hb e =>
      hnew b hb (e ▸ ha)⟩
  · rw [hall]
    show ((slots _ _ ++ m.freeResources) ++ _).Perm _
    rw [List.append_assoc]
    exact h.places.append_left _
  · rcases List.mem_append.1 (show r ∈ slots _ _ ++ m.freeResources from hr) with hr | hr
    · rw [show (doAllocate (some data) count m).2.res r = {} from if_pos hr]
      exact ⟨rfl, rfl⟩
    · rw [hres r (h.free_slot hr)]
      exact h.free r hr
  · have hslot := hres _ (h.live_slot he)
    obtain ⟨h1, h2, h3, h4⟩ := h.live e he
    exact ⟨hslot ▸ h1, hslot ▸ h2, hslot ▸ h3, h4⟩
  · obtain ⟨h1, h2, h3⟩ := h.dead d hd
    exact ⟨hall ▸ List.mem_append_right _ h1, hres _ h1 ▸ h2, h3⟩

/-- A live handle's count changes. -/
theorem Inv.setRefs (h : Inv m L) {handle : Addr} {n : Nat} (hn : (handle, n) ∈ L.live)
    (c : Int32) (f : Nat → Nat) (hc : c.toInt = f n) (hpos : 0 < f n) :
    Inv (m.modify (doGetResourceFromHandle handle) fun res => { res with refCount := c })
      { L with live := L.live.map fun e => if e.1 = handle then (e.1, f e.2) else e } := by
  have hfst : ∀ e : Addr × Nat, (if e.1 = handle then (e.1, f e.2) else e).1 = e.1 := by
    intro e
    split <;> rfl
  refine ⟨h.capacity, h.slots_ok, h.slots_nodup, ?_, fun r hr => ?_, fun e' he' => ?_,
    fun d hd => ?_, ?_⟩
  · rw [List.map_map]
    simp only [Function.comp_def, hfst]
    exact h.places
  · rw [modify_res_of_ne _ (h.free_not_live hr hn).symm]
    exact h.free r hr
  · obtain ⟨e, he, rfl⟩ := List.mem_map.1 he'
    by_cases heh : e.1 = handle
    · have hen : e = (handle, n) := h.live_inj he hn (by rw [heh])
      subst hen
      obtain ⟨h1, h2, -, -⟩ := h.live _ he
      rw [if_pos rfl]
      exact ⟨by rwa [modify_res_self], by rwa [modify_res_self], by rwa [modify_res_self], hpos⟩
    · rw [if_neg heh]
      have hne : doGetResourceFromHandle e.1 ≠ doGetResourceFromHandle handle := fun heq =>
        heh (congrArg Prod.fst (h.live_inj he hn heq))
      obtain ⟨h1, h2, h3, h4⟩ := h.live e he
      refine ⟨?_, ?_, ?_, h4⟩ <;> rwa [modify_res_of_ne _ hne]
  · obtain ⟨h1, h2, h3⟩ := h.dead d hd
    have hgen : ∀ x : Resource Obj, ({ x with refCount := c } : Resource Obj).generation =
      x.generation := fun _ => rfl
    refine ⟨h1, (modify_generation hgen _).trans h2, fun h0 e' he' => ?_⟩
    obtain ⟨e, he, rfl⟩ := List.mem_map.1 he'
    rw [hfst]
    exact h3 h0 e he
  · rw [List.length_map]
    exact h.used

/-- The last reference goes: the object is destroyed and its resource is free. -/
theorem Inv.destroy (h : Inv m L) {handle : Addr} {n : Nat} (hn : (handle, n) ∈ L.live)
    (f : Resource Obj → Resource Obj) (hf : ∀ x, (f x).generation = x.generation)
    (hobj : ∀ x, (f x).ptrObj = none) (href : (f (m.res (doGetResourceFromHandle handle))).refCount = 0) :
    Inv (doReturnResource (doGetResourceFromHandle handle)
        (m.modify (doGetResourceFromHandle handle) f))
      { live := L.live.filter fun e => e.1 ≠ handle, dead := (handle, 0) :: L.dead } := by
  have hmem : ∀ e ∈ L.live.filter (fun e => e.1 ≠ handle),
      e ∈ L.live ∧ doGetResourceFromHandle e.1 ≠ doGetResourceFromHandle handle := by
    intro e he
    obtain ⟨he, hne⟩ := List.mem_filter.1 he
    refine ⟨he, fun heq => ?_⟩
    rw [h.live_inj he hn heq] at hne
    simp at hne
  have hperm : L.live.Perm ((handle, n) :: L.live.filter fun e => e.1 ≠ handle) := by
    have hnd : L.live.Nodup := List.Nodup.of_map _ h.handles_nodup
    refine (List.perm_ext_iff_of_nodup hnd (List.nodup_cons.2 ⟨?_, hnd.filter _⟩)).2 fun e => ?_
    · simp
    · by_cases heh : e.1 = handle
      · constructor
        · intro he
          exact h.live_inj he hn (by rw [heh]) ▸ .head _
        · intro he
          rcases List.mem_cons.1 he with rfl | he
          · exact hn
          · exact (hmem e he).1
      · simp [heh, Prod.ext_iff]
  have hne : ∀ r ∈ m.freeResources, r ≠ doGetResourceFromHandle handle := fun r hr =>
    (h.free_not_live hr hn).symm
  refine ⟨h.capacity, h.slots_ok, h.slots_nodup, ?_, fun r hr => ?_, fun e he => ?_,
    fun d hd => ?_, ?_⟩
  · have hp := (hperm.map fun e => doGetResourceFromHandle e.1).append_left m.freeResources
    rw [List.map_cons] at hp
    exact (List.perm_middle.symm.trans hp.symm).trans h.places
  · rcases List.mem_cons.1 (show r ∈ doGetResourceFromHandle handle :: m.freeResources from hr)
      with rfl | hr
    · show ((m.modify _ f).res _).ptrObj = none ∧ ((m.modify _ f).res _).refCount = 0
      rw [modify_res_self]
      exact ⟨hobj _, href⟩
    · show ((m.modify _ f).res r).ptrObj = none ∧ ((m.modify _ f).res r).refCount = 0
      rw [modify_res_of_ne f (hne r hr)]
      exact h.free r hr
  · obtain ⟨he, hes⟩ := hmem e he
    have hslot : (m.modify _ f).res (doGetResourceFromHandle e.1) = _ := modify_res_of_ne f hes
    obtain ⟨h1, h2, h3, h4⟩ := h.live e he
    exact ⟨hslot.symm ▸ h1, hslot.symm ▸ h2, hslot.symm ▸ h3, h4⟩
  · rcases List.mem_cons.1 hd with rfl | hd
    · have hslot : doGetResourceFromHandle handle ∈ m.allSlots := h.live_slot hn
      refine ⟨hslot, ?_, fun _ e he => (hmem e he).2⟩
      refine (modify_generation hf _).trans ((h.live _ hn).generation.trans ?_)
      exact (BitVec.add_zero _).symm
    · obtain ⟨h1, h2, h3⟩ := h.dead d hd
      exact ⟨h1, (modify_generation hf _).trans h2, fun h0 e he => h3 h0 e (hmem e he).1⟩
  · have hlen := hperm.length_eq
    rw [List.length_cons] at hlen
    refine (toInt_sub_one h.used (by omega)).trans ?_
    rw [hlen, Nat.add_sub_cancel]

/-- A new object in a free resource. -/
theorem Inv.construct (h : Inv m L) {r : Addr} {fs : List Addr} (hfree : m.freeResources = r :: fs)
    (obj : Obj) (hsmall : L.live.length + 1 < 2 ^ 31) :
    let m' := ({ m with freeResources := fs, usedCount := m.usedCount + 1 }.modify r
      fun res => { res with refCount := res.refCount + 1 }).modify r
        fun res => { res with ptrObj := some obj, generation := res.generation + 1 }
    Inv m' (L.create (doGetHandleFromResource r (m'.res r).generation)) := by
  intro m'
  have hrf : r ∈ m.freeResources := hfree ▸ .head _
  have hr := h.free_slot hrf
  have hal := (h.slots_ok r hr).2.1
  have hself : m'.res r = { m.res r with
      refCount := (m.res r).refCount + 1, ptrObj := some obj,
      generation := (m.res r).generation + 1 } := by
    rw [modify_res_self, modify_res_self]
  have hother : ∀ r', r' ≠ r → m'.res r' = m.res r' := fun r' hne => by
    rw [modify_res_of_ne _ hne, modify_res_of_ne _ hne]
  have hslot : doGetResourceFromHandle (doGetHandleFromResource r (m'.res r).generation) = r :=
    resource_handle hal _
  refine ⟨h.capacity, h.slots_ok, h.slots_nodup, ?_, fun r' hr' => ?_, fun e he => ?_,
    fun d hd => ?_, toInt_add_one h.used hsmall⟩
  · have hp := h.places
    rw [hfree] at hp
    show (fs ++ doGetResourceFromHandle _ :: _).Perm _
    rw [hslot]
    exact List.perm_middle.trans hp
  · have hne : r' ≠ r := by
      rintro rfl
      have hnd := (List.nodup_append.1 h.places_nodup).1
      rw [hfree] at hnd
      exact (List.nodup_cons.1 hnd).1 hr'
    rw [hother r' hne]
    exact h.free r' (hfree ▸ .tail _ hr')
  · rcases List.mem_cons.1 he with rfl | he
    · obtain ⟨h1, h2⟩ := h.free r hrf
      refine ⟨?_, ?_, ?_, Nat.one_pos⟩ <;> simp only [hslot]
      · rw [hself]
        rfl
      · rw [generation_handle hal]
      · rw [hself]
        show ((m.res r).refCount + 1).toInt = _
        rw [h2]
        rfl
    · obtain ⟨h1, h2, h3, h4⟩ := h.live e he
      refine ⟨?_, ?_, ?_, h4⟩ <;> rwa [hother _ (h.free_not_live hrf he)]
  · obtain ⟨d, hd', rfl⟩ := List.mem_map.1 hd
    obtain ⟨h1, h2, h3⟩ := h.dead d hd'
    rw [hslot]
    by_cases hds : doGetResourceFromHandle d.1 = r
    · rw [if_pos hds]
      refine ⟨h1, ?_, fun h0 => absurd h0 (Nat.succ_ne_zero _)⟩
      show (m'.res (doGetResourceFromHandle d.1)).generation = _
      rw [hds] at h2 ⊢
      rw [hself]
      show (m.res r).generation + 1 = _
      rw [h2, BitVec.ofNat_add, ← BitVec.add_assoc]
      rfl
    · rw [if_neg hds]
      refine ⟨h1, by rwa [hother _ hds], fun h0 e he => ?_⟩
      rcases List.mem_cons.1 he with rfl | he
      · rw [hslot]
        exact Ne.symm hds
      · exact h3 h0 e he

/-- A resource fetched and returned leaves the manager as it was. -/
theorem fetch_return {r : Addr} {fs : List Addr} (hfree : m.freeResources = r :: fs) :
    doReturnResource r (({ m with freeResources := fs, usedCount := m.usedCount + 1 }.modify r
      fun res => { res with refCount := res.refCount + 1 }).modify r
        fun res => { res with refCount := res.refCount - 1 }) = m := by
  have hadd : ∀ n : Int32, n + 1 - 1 = n := fun n => by
    rw [Int32.sub_eq_add_neg, Int32.add_assoc, Int32.add_right_neg, Int32.add_zero]
  cases m
  simp only at hfree
  simp only [doReturnResource, modify, Function.update_self, Function.update_idem, hadd, hfree,
    Function.update_eq_self]

/-- **Fetching** a free resource: an error, or the first of the free resources of a manager that
may have grown. -/
theorem fetch_spec (h : Inv m L) {answers : List (Option Addr)}
    (hf : ∀ data, some data ∈ answers → FreshPool m data kMinHandles)
    {x : Except Exception Addr} {m' : HandleManager Obj}
    (hx : m.doFetchFreeResource answers = some (x, m')) :
    (∃ e, x = .error e ∧ Inv m' L) ∨
      ∃ r fs m₁, x = .ok r ∧ Inv m₁ L ∧ m₁.freeResources = r :: fs ∧
        m' = { m₁ with freeResources := fs, usedCount := m₁.usedCount + 1 }.modify r
          fun res => { res with refCount := res.refCount + 1 } := by
  unfold doFetchFreeResource at hx
  cases hfr : m.freeResources with
  | cons r fs =>
    rw [hfr] at hx
    obtain ⟨rfl, rfl⟩ := Prod.mk.inj (Option.some.inj hx)
    exact .inr ⟨r, fs, m, rfl, h, hfr, rfl⟩
  | nil =>
    rw [hfr] at hx
    cases answers with
    | nil => simp at hx
    | cons answer answers =>
      simp only [doGrow] at hx
      by_cases hfix : m.hasFixedSize = true
      · rw [if_pos hfix] at hx
        obtain ⟨rfl, rfl⟩ := Prod.mk.inj (Option.some.inj hx)
        exact .inl ⟨_, rfl, h⟩
      rw [if_neg hfix, if_neg (not_not.2 h.capacity)] at hx
      cases answer with
      | none =>
        obtain ⟨rfl, rfl⟩ := Prod.mk.inj (Option.some.inj hx)
        exact .inl ⟨_, rfl, h⟩
      | some data =>
        -- the new pool is not empty, so the next round of the loop pops from it
        have hg := h.allocate (hf data (.head _))
        obtain ⟨r, fs, hcons⟩ : ∃ r fs,
            (doAllocate (some data) kMinHandles m).2.freeResources = r :: fs := by
          refine List.exists_cons_of_ne_nil fun hnil => ?_
          have hlen := congrArg List.length (List.append_eq_nil_iff.1 hnil).1
          rw [slots, List.length_map, List.length_range] at hlen
          exact absurd hlen (show kMinHandles ≠ 0 by decide)
        change doFetchFreeResource answers (doAllocate (some data) kMinHandles m).2 = _ at hx
        unfold doFetchFreeResource at hx
        rw [hcons] at hx
        obtain ⟨rfl, rfl⟩ := Prod.mk.inj (Option.some.inj hx)
        exact .inr ⟨r, fs, _, rfl, hg, hcons, rfl⟩

/-! ## Calls and runs -/

theorem create_inv (h : Inv m L) {ctor : Except Exception Obj} {answers : List (Option Addr)}
    (hf : ∀ data, some data ∈ answers → FreshPool m data kMinHandles)
    {x : Except Exception Addr} {m' : HandleManager Obj}
    (hx : m.create ctor answers = some (x, m'))
    (hsmall : (L.next (.create ctor answers) (Result.ofCreate x : Result Obj)).Small) :
    Inv m' (L.next (.create ctor answers) (Result.ofCreate x : Result Obj)) := by
  unfold create at hx
  cases hfetch : m.doFetchFreeResource answers with
  | none => simp [hfetch] at hx
  | some y =>
    obtain ⟨y, m₂⟩ := y
    rw [hfetch] at hx
    rcases fetch_spec h hf hfetch with ⟨e, rfl, hinv⟩ | ⟨r, fs, m₁, rfl, hinv, hfree, rfl⟩
    · obtain ⟨rfl, rfl⟩ := Prod.mk.inj (Option.some.inj hx)
      exact hinv
    · cases ctor with
      | ok obj =>
        obtain ⟨rfl, rfl⟩ := Prod.mk.inj (Option.some.inj hx)
        exact hinv.construct hfree obj hsmall.objects
      | error e =>
        obtain ⟨rfl, rfl⟩ := Prod.mk.inj (Option.some.inj hx)
        rw [fetch_return hfree]
        exact hinv

theorem incRef_inv (h : Inv m L) {handle : Addr} (hp : PointsToStart m handle)
    (hsmall : (L.next (.incRef handle) (Result.ofCount (m.incRef handle).1 : Result Obj)).Small) :
    Inv (m.incRef handle).2
      (L.next (.incRef handle) (Result.ofCount (m.incRef handle).1 : Result Obj)) := by
  rcases getValid_spec h hp with ⟨n, hn, hv⟩ | ⟨-, hv⟩
  · simp only [incRef, hv, Result.ofCount] at hsmall ⊢
    have hmem : (handle, n + 1) ∈ (L.incRef handle).live :=
      List.mem_map.2 ⟨(handle, n), hn, if_pos rfl⟩
    exact h.setRefs hn _ (· + 1) (toInt_add_one (h.live _ hn).refs (hsmall.refs _ hmem))
      (Nat.succ_pos n)
  · simp only [incRef, hv, Result.ofCount]
    exact h

theorem decRef_inv (h : Inv m L) {handle : Addr} (hp : PointsToStart m handle) :
    Inv (m.decRef handle).2
      (L.next (.decRef handle) (Result.ofCount (m.decRef handle).1 : Result Obj)) := by
  unfold decRef
  by_cases h0 : handle = 0
  · simp only [if_pos h0, Result.ofCount, Ledger.next]
    exact h
  rcases getValid_spec h hp with ⟨n, hn, hv⟩ | ⟨-, hv⟩
  · obtain ⟨-, -, hrefs, hpos⟩ := h.live _ hn
    have href := toInt_sub_one hrefs hpos
    simp only [if_neg h0, hv]
    by_cases hone : n = 1
    · subst hone
      have hz : (m.res (doGetResourceFromHandle handle)).refCount - 1 = 0 :=
        Int32.toInt_inj.1 href
      simp only [hz, Result.ofCount, Ledger.next, if_neg h0, Ledger.decRef, if_pos hn, if_true]
      have hmod : (m.modify (doGetResourceFromHandle handle) fun res =>
          { res with refCount := 0 }).modify (doGetResourceFromHandle handle)
            (fun res => { res with ptrObj := none }) =
          m.modify (doGetResourceFromHandle handle) fun res =>
            { res with refCount := 0, ptrObj := none } := by
        simp only [modify, Function.update_self, Function.update_idem]
      rw [hmod]
      exact h.destroy hn _ (fun _ => rfl) (fun _ => rfl) rfl
    · have hz : (m.res (doGetResourceFromHandle handle)).refCount - 1 ≠ 0 := by
        intro hz
        rw [hz] at href
        have : (0 : Int32).toInt = 0 := rfl
        omega
      have hnone : (handle, 1) ∉ L.live := fun hm =>
        hone (congrArg Prod.snd (h.live_inj hn hm rfl))
      simp only [if_neg hz, Result.ofCount, Ledger.next, if_neg h0, Ledger.decRef, if_neg hnone]
      exact h.setRefs hn _ (· - 1) href (by omega)
  · simp only [if_neg h0, hv, Result.ofCount]
    exact h

/-- **A call** keeps the invariant, the counts staying in the range of `int`. -/
theorem exec_inv (h : Inv m L) {c : Call Obj} {r : Result Obj} {m' : HandleManager Obj}
    (hp : Callable m c) (hx : exec m c = some (r, m')) (hsmall : (L.next c r).Small) :
    Inv m' (L.next c r) := by
  cases c with
  | create ctor answers =>
    obtain ⟨y, hy, hyr⟩ := Option.map_eq_some_iff.1 hx
    obtain ⟨rfl, rfl⟩ := Prod.mk.inj hyr
    exact create_inv h hp hy hsmall
  | incRef handle =>
    obtain ⟨rfl, rfl⟩ := Prod.mk.inj (Option.some.inj hx)
    exact incRef_inv h hp hsmall
  | decRef handle =>
    obtain ⟨rfl, rfl⟩ := Prod.mk.inj (Option.some.inj hx)
    exact decRef_inv h hp
  | refCount handle =>
    obtain ⟨rfl, rfl⟩ := Prod.mk.inj (Option.some.inj hx)
    exact h
  | validate handle =>
    obtain ⟨rfl, rfl⟩ := Prod.mk.inj (Option.some.inj hx)
    exact h

theorem Inv.callable (h : Inv m L) {c : Call Obj} (hp : Passable m L c) : Callable m c := by
  cases c with
  | create ctor answers => exact hp
  | _ => exact h.pointsToStart hp

theorem step_inv {s s' : HandleManager Obj × Ledger} {l : Call Obj × Result Obj}
    (h : Inv s.1 s.2) (hs : Step s l s' ∧ s'.2.Small) : Inv s'.1 s'.2 := by
  obtain ⟨⟨hp, hx, hL⟩, hsmall⟩ := hs
  rw [hL] at hsmall ⊢
  exact exec_inv h (h.callable hp) hx hsmall

theorem Inv.empty {m : HandleManager Obj} (hcap : m.totalCapacity = 0)
    (hstack : m.resourceStack = []) (hfree : m.freeResources = []) (hused : m.usedCount = 0) :
    Inv m {} := by
  have hall : m.allSlots = [] := by rw [allSlots, hstack, List.flatMap_nil]
  refine ⟨hcap, ?_, ?_, ?_, ?_, fun _ h => (nomatch h), fun _ h => (nomatch h), ?_⟩
  · rw [hall]
    exact fun _ h => nomatch h
  · rw [hall]
    exact .nil
  · rw [hall, hfree]
    exact .nil
  · rw [hfree]
    exact fun _ h => nomatch h
  · rw [hused]
    rfl

/-- A manager before its first `create`, whatever its size policy. -/
theorem Configured.inv {m : HandleManager Obj} (h : Configured m) : Inv m {} := by
  induction h with
  | new name size res => exact .empty rfl rfl rfl rfl
  | @setFixedSize m _ maxSize answer fresh ih =>
    have hused : m.usedCount = 0 := Int32.toInt_inj.1 ih.used
    unfold HandleManager.setFixedSize
    rw [if_neg (by rw [hused]; decide)]
    by_cases hle : m.totalCapacity ≥ maxSize
    · rw [if_pos hle]
      exact ih
    rw [if_neg hle]
    have hclear : Inv { m.clear with hasFixedSize := true } {} :=
      .empty ih.capacity rfl rfl hused
    cases answer with
    | none => exact hclear
    | some data =>
      obtain ⟨f1, f2, f3, f4⟩ := fresh data rfl
      exact hclear.allocate ⟨f1, f2, f3, f4⟩
  | @setDynamicSize m _ minSize answer fresh ih =>
    have hdyn : Inv { m with hasFixedSize := false } {} :=
      ⟨ih.capacity, ih.slots_ok, ih.slots_nodup, ih.places, ih.free, fun _ h => (nomatch h),
        fun _ h => (nomatch h), ih.used⟩
    unfold HandleManager.setDynamicSize
    by_cases hlt : m.totalCapacity < minSize
    · rw [if_pos (show HandleManager.totalCapacity _ < minSize from hlt)]
      cases answer with
      | none => exact hdyn
      | some data =>
        obtain ⟨f1, f2, f3, f4⟩ := fresh data rfl
        exact hdyn.allocate ⟨f1, f2, f3, f4⟩
    · rw [if_neg (show ¬HandleManager.totalCapacity _ < minSize from hlt)]
      exact hdyn

/-- **Handles are safe.** After every sequence of calls during which the number of live objects
and the references of each fit in an `int`: the handles of live objects are distinct and valid,
the reference count of each is 1 plus its `incRef`s minus its `decRef`s, the used count is the
number of live handles, the free resources and the live ones are the allocated resources without
duplicates, and a destroyed handle is rejected while fewer than 16 objects have been created in
its slot since. -/
theorem runs_safe {m₀ m : HandleManager Obj} {L : Ledger} {ls : List (Call Obj × Result Obj)}
    (hc : Configured m₀)
    (hr : Run (fun s l s' => Step s l s' ∧ s'.2.Small) (m₀, {}) ls (m, L)) :
    (L.live.map Prod.fst).Nodup ∧
      (∀ e ∈ L.live, (m.validate e.1).isSome = true ∧
        ∃ c, m.refCount e.1 = .ok c ∧ c.toInt = e.2) ∧
      m.usedCount.toInt = L.live.length ∧
      (m.freeResources ++ L.live.map fun e => doGetResourceFromHandle e.1).Perm m.allSlots ∧
      m.allSlots.Nodup ∧
      (∀ r ∈ m.allSlots, (m.res r).ptrObj.isSome = true ↔
        ∃ e ∈ L.live, doGetResourceFromHandle e.1 = r) ∧
      ∀ d ∈ L.dead, d.2 < 16 → m.validate d.1 = none ∧
        m.incRef d.1 = (.error invalidHandle, m) ∧ m.decRef d.1 = (.error invalidHandle, m) := by
  have h : Inv m L := hr.inv (P := fun s => Inv s.1 s.2) (fun _ _ _ => step_inv) hc.inv
  refine ⟨h.handles_nodup, fun e he => ?_, h.used, h.places, h.slots_nodup,
    fun r hr => h.alive_iff hr, fun d hd hlt => ?_⟩
  · rcases getValid_spec h (.inl (mem_allSlots.1 (h.live_slot he))) with ⟨n, hn, hv⟩ | ⟨hno, -⟩
    · simp only [validate, refCount, hv]
      exact ⟨(h.live e he).alive, _, rfl, (h.live e he).refs⟩
    · exact absurd he (hno e.2)
  · obtain ⟨hslot, hgen, hfree⟩ := h.dead d hd
    have h0 : d.1 ≠ 0 := fun h0 => (h.slots_ok _ hslot).1 (by rw [h0]; rfl)
    rcases getValid_spec h (.inl (mem_allSlots.1 hslot)) with ⟨n, hn, -⟩ | ⟨-, hv⟩
    · -- the slot's live object is at most 15 generations ahead
      have hg := congrArg BitVec.toNat ((h.live _ hn).generation.symm.trans hgen)
      rw [BitVec.toNat_add, BitVec.toNat_ofNat] at hg
      have hlt4 := (doGetHandleGeneration d.1).isLt
      have hzero : d.2 = 0 := by
        simp only at hg
        omega
      exact absurd rfl (hfree hzero (d.1, n) hn)
    · simp only [validate, incRef, decRef, hv, if_neg h0]
      trivial

/-- Any number of calls of `incRef` on a live object: the ledger counts them, the resource counts
them in 32 bits. -/
theorem incRefs_run {handle r : Addr} (k : Nat) : ∀ {m : HandleManager Obj} {L : Ledger} {n : Nat},
    m.getValidResource handle = some r → (handle, n) ∈ L.live →
    ∃ ls m' L', Run Step (m, L) ls (m', L') ∧ (handle, n + k) ∈ L'.live ∧
      m'.refCount handle = .ok ((m.res r).refCount + Int32.ofNat k) := by
  induction k with
  | zero =>
    intro m L n hv hn
    refine ⟨[], m, L, .nil _, hn, ?_⟩
    rw [refCount, hv]
    exact congrArg _ (Int32.add_zero _).symm
  | succ k ih =>
    intro m L n hv hn
    let m₁ := m.modify r fun res => { res with refCount := (m.res r).refCount + 1 }
    have hstep : Step (m, L) (.incRef handle, .count ((m.res r).refCount + 1))
        (m₁, L.incRef handle) := by
      refine ⟨.inl (.inl ⟨n, hn⟩), ?_, rfl⟩
      simp only [exec, incRef, hv, Result.ofCount]
      rfl
    have hv₁ : m₁.getValidResource handle = some r := by
      have hres : ∀ r', (m₁.res r').ptrObj = (m.res r').ptrObj ∧
          (m₁.res r').generation = (m.res r').generation := by
        intro r'
        by_cases e : r' = r
        · subst e
          simp [m₁]
        · simp only [m₁, modify_res_of_ne _ e, and_self]
      unfold getValidResource at hv ⊢
      simp only [(hres _).1, (hres _).2]
      exact hv
    have hn₁ : (handle, n + 1) ∈ (L.incRef handle).live :=
      List.mem_map.2 ⟨(handle, n), hn, if_pos rfl⟩
    obtain ⟨ls, m', L', hrun, hmem, hcount⟩ := ih hv₁ hn₁
    refine ⟨_, m', L', .cons hstep hrun, by rwa [Nat.add_right_comm] at hmem, ?_⟩
    rw [hcount, modify_res_self, Int32.ofNat_add, Int32.add_assoc, Int32.add_comm 1]
    rfl

end

/-! ## A manager of one resource -/

/-- A manager of a single 16-byte resource, at address 4096. -/
def single : HandleManager Unit :=
  (setFixedSize 1 (some 4096)
    { name := "Object", sizeofResource := ⟨16, by decide, by decide⟩, res := fun _ => {} }).2

theorem single_configured : Configured single := by
  refine .setFixedSize (.new _ _ _) 1 (some 4096) fun data h => ?_
  obtain rfl := Option.some.inj h
  exact ⟨by decide, by decide, by decide, fun _ h => nomatch h⟩

/-- The manager after its first `create`. -/
def singleLive : HandleManager Unit := ((single.create (.ok ()) []).getD (.error .badAlloc, single)).2

theorem single_create : Step (single, {}) (.create (.ok ()) [], .created 4097)
    (singleLive, { live := [(4097, 1)] }) :=
  ⟨fun _ h => (nomatch h), rfl, rfl⟩

theorem single_valid : singleLive.getValidResource 4097 = some 4096 := rfl

/-- The manager after a reference more, and that reference less. -/
def singleTwice : HandleManager Unit := (singleLive.incRef 4097).2

def singleOnce : HandleManager Unit := (singleTwice.decRef 4097).2

/-- An object is created, referenced and released, and its handle is then rejected. -/
theorem runs_safe_single :
    let ls : List (Call Unit × Result Unit) := [(.create (.ok ()) [], .created 4097),
      (.incRef 4097, .count 2), (.decRef 4097, .count 1), (.decRef 4097, .count 0)]
    ∃ m, Run (fun s l s' => Step s l s' ∧ s'.2.Small) (single, {}) ls
        (m, { dead := [(4097, 0)] }) ∧
      m.usedCount.toInt = 0 ∧ m.validate 4097 = none := by
  intro ls
  have hsmall : ∀ n : Nat, n < 2 ^ 31 → Ledger.Small { live := [(4097, n)] } := fun n hn =>
    ⟨show 1 < 2 ^ 31 by decide, fun e he => List.mem_singleton.1 he ▸ hn⟩
  have hp : ∀ {n : Nat}, Ledger.Issued { live := [(4097, n)] } 4097 := .inl ⟨_, .head _⟩
  have h₂ : Step (singleLive, { live := [(4097, 1)] }) (.incRef 4097, .count 2)
    (singleTwice, { live := [(4097, 2)] }) := ⟨.inl hp, rfl, rfl⟩
  have h₁ : Step (singleTwice, { live := [(4097, 2)] }) (.decRef 4097, .count 1)
    (singleOnce, { live := [(4097, 1)] }) := ⟨.inl hp, rfl, rfl⟩
  have h₀ : Step (singleOnce, { live := [(4097, 1)] }) (.decRef 4097, .count 0)
    ((singleOnce.decRef 4097).2, { dead := [(4097, 0)] }) := ⟨.inl hp, rfl, rfl⟩
  have hr : Run (fun s l s' => Step s l s' ∧ s'.2.Small) (single, {}) ls
      ((singleOnce.decRef 4097).2, { dead := [(4097, 0)] }) :=
    .cons ⟨single_create, hsmall 1 (by decide)⟩ (.cons ⟨h₂, hsmall 2 (by decide)⟩
      (.cons ⟨h₁, hsmall 1 (by decide)⟩
        (.cons ⟨h₀, ⟨show 0 < 2 ^ 31 by decide, fun _ h => (nomatch h)⟩⟩ (.nil _))))
  obtain ⟨-, -, h3, -, -, -, h7⟩ := runs_safe single_configured hr
  exact ⟨_, hr, h3, (h7 (4097, 0) (.head _) (by decide)).1⟩

/-- **Counts wrap**: after `2 ^ 31 - 1` calls of `incRef` an object with `2 ^ 31` references has
a negative reference count. -/
theorem incRefs_wrap :
    ∃ (m₀ m : HandleManager Unit) (L : Ledger) (ls : List (Call Unit × Result Unit)),
      Configured m₀ ∧ Run Step (m₀, {}) ls (m, L) ∧
        ∃ e ∈ L.live, ¬∃ c, m.refCount e.1 = .ok c ∧ c.toInt = e.2 := by
  obtain ⟨ls, m, L, hrun, hmem, hcount⟩ := incRefs_run (2 ^ 31 - 1)
    (m := singleLive) (L := { live := [(4097, 1)] }) (r := 4096) (n := 1)
    (show _ = some _ from single_valid) (.head _)
  refine ⟨single, m, L, _, single_configured, .cons single_create hrun, _, hmem, ?_⟩
  rintro ⟨c, hc, hcn⟩
  rw [hcount] at hc
  obtain rfl := Except.ok.inj hc
  exact absurd hcn (by decide)

end Nvcv.HandleManager
