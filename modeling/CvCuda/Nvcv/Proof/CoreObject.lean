import CvCuda.Nvcv.CoreObject
import CvCuda.Nvcv.Proof.HandleManager

/-! # The objects behind the handles

`Represents m L o`: the objects `o` are those of the manager `m`, whose calls so far give the
ledger `L`. What the core objects' functions do to `o` is what the calls of the manager do to it,
for the handles that may be passed and while the counts fit in an `int`.

* `validate_eq`, `incRef_represents`, `decRef_represents`.
-/

namespace Nvcv.HandleManager

open RefStore

variable {Obj : Type} {m : HandleManager Obj} {L : Ledger} {o : Objects Obj}

structure Represents (m : HandleManager Obj) (L : Ledger) (o : Objects Obj) : Prop where
  inv : Inv m L
  refs : ∀ h n, (h, n) ∈ L.live ↔ 0 < n ∧ o.refs h = n
  obj : ∀ h, 0 < o.refs h → o.obj h = (m.res (doGetResourceFromHandle h)).ptrObj

/-- The handles that may be passed to the functions of core objects. -/
def Passed (m : HandleManager Obj) (L : Ledger) (h : Addr) : Prop :=
  L.Issued h ∨ h = 0 ∨ m.isManagedResource (doGetResourceFromHandle h) = false

@[simp] theorem return_res (m : HandleManager Obj) (r : Addr) :
    (doReturnResource r m).res = m.res := rfl

namespace Represents

variable (h : Represents m L o)
include h

/-- A handle is valid when it has references. -/
theorem valid_cases {handle : Addr} (hp : Passed m L handle) :
    (0 < o.refs handle ∧ (handle, o.refs handle) ∈ L.live ∧
        m.getValidResource handle = some (doGetResourceFromHandle handle)) ∨
      (o handle = none ∧ m.getValidResource handle = none) := by
  rcases getValid_spec h.inv (h.inv.pointsToStart hp) with ⟨n, hn, hv⟩ | ⟨hno, hv⟩
  · obtain ⟨h0, rfl⟩ := (h.refs handle n).1 hn
    exact .inl ⟨h0, hn, hv⟩
  · refine .inr ⟨refs_eq_zero_iff.1 ?_, hv⟩
    by_contra h0
    exact hno _ ((h.refs handle _).2 ⟨Nat.pos_of_ne_zero h0, rfl⟩)

/-- **`validate`** answers the object of the handle. -/
theorem validate_eq {handle : Addr} (hp : Passed m L handle) :
    m.validate handle = o.obj handle := by
  rcases h.valid_cases hp with ⟨h0, _, hv⟩ | ⟨hnone, hv⟩
  · simp only [validate, hv]
    exact (h.obj handle h0).symm
  · simp only [validate, hv, RefStore.obj, hnone, Option.map_none]

/-- A change of the references of one live handle, in the manager and in the objects. -/
theorem setRefs {handle : Addr} {n : Nat} {o' : Objects Obj} {L' : Ledger} {c : Int32}
    (hinv : Inv (m.modify (doGetResourceFromHandle handle) fun res => { res with refCount := c }) L')
    (hn : 0 < n) (hlive : ∀ x k, (x, k) ∈ L'.live ↔
      if x = handle then k = n else (x, k) ∈ L.live)
    (hrefs : ∀ x, o'.refs x = if x = handle then n else o.refs x)
    (hobj : ∀ x, 0 < o'.refs x → o'.obj x = o.obj x) (hpos : 0 < o.refs handle) :
    Represents (m.modify (doGetResourceFromHandle handle) fun res => { res with refCount := c })
      L' o' := by
  refine ⟨hinv, fun x k => ?_, fun x hx => ?_⟩
  · rw [hlive, hrefs]
    by_cases hxh : x = handle
    · simp only [hxh, if_true]
      omega
    · simp only [hxh, if_false]
      exact h.refs x k
  · have hox : 0 < o.refs x := by
      rw [hrefs] at hx
      by_cases hxh : x = handle
      · rw [hxh]
        exact hpos
      · rwa [if_neg hxh] at hx
    rw [hobj x hx, h.obj x hox]
    by_cases hs : doGetResourceFromHandle x = doGetResourceFromHandle handle
    · rw [hs, modify_res_self]
    · rw [modify_res_of_ne _ hs]

/-- The live entries after a change of the references of one of them. -/
theorem mem_live_map {handle : Addr} {n : Nat} (hn : (handle, n) ∈ L.live) (f : Nat → Nat)
    (x : Addr) (k : Nat) :
    (x, k) ∈ L.live.map (fun e => if e.1 = handle then (e.1, f e.2) else e) ↔
      if x = handle then k = f n else (x, k) ∈ L.live := by
  rw [List.mem_map]
  constructor
  · rintro ⟨e, he, hek⟩
    by_cases heh : e.1 = handle
    · rw [if_pos heh] at hek
      obtain ⟨rfl, rfl⟩ := Prod.mk.inj hek
      rw [if_pos heh, h.inv.live_inj he hn (by rw [heh])]
    · rw [if_neg heh] at hek
      subst hek
      rw [if_neg heh]
      exact he
  · intro hx
    by_cases hxh : x = handle
    · rw [if_pos hxh] at hx
      subst hx hxh
      exact ⟨(x, n), hn, if_pos rfl⟩
    · rw [if_neg hxh] at hx
      exact ⟨(x, k), hx, if_neg hxh⟩

/-- **`CoreObjectIncRef`** is the manager's `incRef`. -/
theorem incRef_represents {handle : Addr} (hp : Passed m L handle)
    (hsmall : (L.next (.incRef handle) (Result.ofCount (m.incRef handle).1 : Result Obj)).Small) :
    Represents (m.incRef handle).2
        (L.next (.incRef handle) (Result.ofCount (m.incRef handle).1 : Result Obj))
        (coreObjectIncRef handle o).2 ∧
      (m.incRef handle).1.map Int32.toInt =
        (coreObjectIncRef handle o).1.map (fun n : Nat => (n : Int)) := by
  have hinv := incRef_inv h.inv (h.inv.pointsToStart hp) hsmall
  rcases h.valid_cases hp with ⟨h0, hlive, hv⟩ | ⟨hnone, hv⟩
  · obtain ⟨o', ho, hm⟩ := coreObjectIncRef_spec h0
    have hcount := hm.refs handle
    simp only [List.count_cons_self, List.count_nil, Nat.add_zero, Nat.zero_add] at hcount
    simp only [incRef, hv, Result.ofCount, ho] at hinv hsmall ⊢
    have hmem := (h.mem_live_map hlive (· + 1) handle (o.refs handle + 1)).2 (by simp)
    refine ⟨h.setRefs hinv (Nat.succ_pos _) (h.mem_live_map hlive (· + 1)) (fun x => ?_) hm.obj h0,
      ?_⟩
    · have hx := hm.refs x
      by_cases hxh : x = handle
      · rw [if_pos hxh, hxh, hcount]
      · rw [if_neg hxh]
        simpa [Ne.symm hxh] using hx
    · have hc := toInt_add_one (h.inv.live _ hlive).refs (hsmall.refs _ hmem)
      simp only [Except.map, hc, hcount]
  · have ho : coreObjectIncRef handle o = (.error invalidHandle, o) := by
      simp [coreObjectIncRef, RefStore.acquire, hnone]
    simp only [incRef, hv, Result.ofCount, ho] at hinv ⊢
    exact ⟨h, rfl⟩

/-- **`CoreObjectDecRef`** is the manager's `decRef`. -/
theorem decRef_represents {handle : Addr} (hp : Passed m L handle) :
    Represents (m.decRef handle).2
        (L.next (.decRef handle) (Result.ofCount (m.decRef handle).1 : Result Obj))
        (coreObjectDecRef handle o).2 ∧
      (m.decRef handle).1.map Int32.toInt =
        (coreObjectDecRef handle o).1.map (fun n : Nat => (n : Int)) := by
  have hinv := decRef_inv h.inv (h.inv.pointsToStart hp)
  by_cases hz : handle = 0
  · have hd : m.decRef handle = (.ok 0, m) := if_pos hz
    have ho : coreObjectDecRef handle o = (.ok 0, o) := if_pos hz
    rw [hd, ho]
    simp only [Result.ofCount, Ledger.next, if_pos hz]
    exact ⟨h, rfl⟩
  rcases h.valid_cases hp with ⟨h0, hlive, hv⟩ | ⟨hnone, hv⟩
  · obtain ⟨o', ho, hm⟩ := coreObjectDecRef_spec hz h0
    have hcount := hm.refs handle
    simp only [List.count_cons_self, List.count_nil, Nat.add_zero] at hcount
    have hother : ∀ x, x ≠ handle → o'.refs x = o.refs x := fun x hx => by
      simpa [Ne.symm hx] using hm.refs x
    have href := toInt_sub_one (h.inv.live _ hlive).refs h0
    rw [ho]
    simp only [decRef, if_neg hz, hv, Ledger.next, Ledger.decRef] at hinv ⊢
    by_cases hone : o.refs handle = 1
    · have hzero : (m.res (doGetResourceFromHandle handle)).refCount - 1 = 0 :=
        Int32.toInt_inj.1 (by rw [href, hone]; rfl)
      rw [hone] at hlive
      simp only [hzero, if_true, Result.ofCount, if_neg hz, if_pos hlive] at hinv ⊢
      refine ⟨⟨hinv, fun x k => ?_, fun x hx => ?_⟩, ?_⟩
      · rw [List.mem_filter]
        by_cases hxh : x = handle
        · simp only [hxh, ne_eq, not_true_eq_false, decide_false, Bool.false_eq_true, and_false,
            false_iff]
          omega
        · rw [hother x hxh, ← h.refs x k]
          simp [hxh]
      · have hxh : x ≠ handle := by
          rintro rfl
          omega
        have hox : 0 < o.refs x := by rwa [hother x hxh] at hx
        have hs : doGetResourceFromHandle x ≠ doGetResourceFromHandle handle := fun hs =>
          hxh (congrArg Prod.fst (h.inv.live_inj ((h.refs x _).2 ⟨hox, rfl⟩) hlive hs))
        rw [hm.obj x hx, h.obj x hox]
        rw [return_res, modify_res_of_ne _ hs, modify_res_of_ne _ hs]
      · have hc0 : o'.refs handle = 0 := by omega
        simp only [Except.map, hc0]
        rfl
    · have hne : (m.res (doGetResourceFromHandle handle)).refCount - 1 ≠ 0 := by
        intro hzero
        rw [hzero] at href
        have : (0 : Int32).toInt = 0 := rfl
        omega
      have hnone : (handle, 1) ∉ L.live := fun hmem => hone ((h.refs handle 1).1 hmem).2
      simp only [if_neg hne, Result.ofCount, if_neg hz, if_neg hnone] at hinv ⊢
      refine ⟨h.setRefs hinv (by omega) (h.mem_live_map hlive (· - 1)) (fun x => ?_) hm.obj h0, ?_⟩
      · by_cases hxh : x = handle
        · rw [if_pos hxh, hxh]
          omega
        · rw [if_neg hxh, hother x hxh]
      · have hc : o'.refs handle = o.refs handle - 1 := by omega
        simp only [Except.map, href, hc]
  · have ho : coreObjectDecRef handle o = (.error invalidHandle, o) := by
      rw [coreObjectDecRef, if_neg hz]
      simp [RefStore.release, hnone]
    simp only [decRef, if_neg hz, hv, Result.ofCount, ho] at hinv ⊢
    exact ⟨h, rfl⟩

end Represents

end Nvcv.HandleManager
