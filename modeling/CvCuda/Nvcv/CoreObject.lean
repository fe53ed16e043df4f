import CvCuda.Lib.RefStore
import CvCuda.Nvcv.HandleManager

/-! # Core objects

`CoreObjectIncRef`, `CoreObjectDecRef` and `ToStaticRef` of `nvcv/priv_musa/ICoreObject.hpp`, on
the objects of one kind as the holders of their handles see them. All objects are of this version
of the library. `Nvcv/Proof/CoreObject.lean` relates `Objects` to the handle manager.
-/

namespace Nvcv

/-- The live objects of one kind, by handle. -/
abbrev Objects (Obj : Type) := RefStore Addr Obj

variable {Obj : Type}

def coreObjectIncRef (handle : Addr) (o : Objects Obj) : Except Exception Nat × Objects Obj :=
  match o.acquire handle with
  | none => (.error HandleManager.invalidHandle, o)
  | some o => (.ok (o.refs handle), o)

def coreObjectDecRef (handle : Addr) (o : Objects Obj) : Except Exception Nat × Objects Obj :=
  if handle = 0 then (.ok 0, o)
  else
    match o.release handle with
    | none => (.error HandleManager.invalidHandle, o)
    | some o => (.ok (o.refs handle), o)

/-- What `ToStaticRef` throws. -/
def destroyedHandle : Exception :=
  .nvcv .invalidArgument "The handle is invalid or the object was destroyed."

def toStaticRef (handle : Addr) (o : Objects Obj) : Except Exception Obj :=
  match o.obj handle with
  | none => .error destroyedHandle
  | some obj => .ok obj

/-- A loop of `CoreObjectIncRef`. -/
def coreObjectIncRefs : List Addr → Objects Obj → Except Exception Unit × Objects Obj
  | [], o => (.ok (), o)
  | h :: hs, o =>
    match coreObjectIncRef h o with
    | (.error e, o) => (.error e, o)
    | (.ok _, o) => coreObjectIncRefs hs o

/-- A loop of `CoreObjectDecRef`. -/
def coreObjectDecRefs : List Addr → Objects Obj → Except Exception Unit × Objects Obj
  | [], o => (.ok (), o)
  | h :: hs, o =>
    match coreObjectDecRef h o with
    | (.error e, o) => (.error e, o)
    | (.ok _, o) => coreObjectDecRefs hs o

/-! ## What they do -/

theorem toStaticRef_ok {handle : Addr} {o : Objects Obj} {obj : Obj} :
    toStaticRef handle o = .ok obj ↔ o.obj handle = some obj := by
  unfold toStaticRef
  cases o.obj handle <;> simp

theorem coreObjectIncRef_spec {handle : Addr} {o : Objects Obj} (h : 0 < o.refs handle) :
    ∃ o', coreObjectIncRef handle o = (.ok (o'.refs handle), o') ∧ o.Moved o' [] [handle] := by
  obtain ⟨o', ha, hm⟩ := RefStore.acquire_moved h
  exact ⟨o', by rw [coreObjectIncRef, ha], hm⟩

theorem coreObjectDecRef_spec {handle : Addr} {o : Objects Obj} (h0 : handle ≠ 0)
    (h : 0 < o.refs handle) :
    ∃ o', coreObjectDecRef handle o = (.ok (o'.refs handle), o') ∧ o.Moved o' [handle] [] := by
  obtain ⟨o', ha, hm⟩ := RefStore.release_moved h
  exact ⟨o', by rw [coreObjectDecRef, if_neg h0, ha], hm⟩

/-- Live objects can all be acquired. -/
theorem coreObjectIncRefs_spec {hs : List Addr} {o : Objects Obj} (h : ∀ x ∈ hs, 0 < o.refs x) :
    ∃ o', coreObjectIncRefs hs o = (.ok (), o') ∧ o.Moved o' [] hs := by
  induction hs generalizing o with
  | nil => exact ⟨o, rfl, .refl o⟩
  | cons x xs ih =>
    obtain ⟨o₁, e₁, m₁⟩ := coreObjectIncRef_spec (h x (List.mem_cons_self ..))
    have hl : ∀ y ∈ xs, 0 < o₁.refs y := by
      intro y hy
      have hr := m₁.refs y
      have hp := h y (List.mem_cons_of_mem _ hy)
      simp only [List.count_nil, Nat.add_zero] at hr
      omega
    obtain ⟨o₂, e₂, m₂⟩ := ih hl
    exact ⟨o₂, by rw [coreObjectIncRefs, e₁]; exact e₂, m₁.trans m₂⟩

/-- References that are there can all be released. -/
theorem coreObjectDecRefs_spec {hs : List Addr} {o : Objects Obj} (h0 : ∀ x ∈ hs, x ≠ 0)
    (h : ∀ x, hs.count x ≤ o.refs x) :
    ∃ o', coreObjectDecRefs hs o = (.ok (), o') ∧ o.Moved o' hs [] := by
  induction hs generalizing o with
  | nil => exact ⟨o, rfl, .refl o⟩
  | cons x xs ih =>
    have hx : 0 < o.refs x := by
      have hc := h x
      rw [List.count_cons_self] at hc
      omega
    obtain ⟨o₁, e₁, m₁⟩ := coreObjectDecRef_spec (h0 x (List.mem_cons_self ..)) hx
    have hl : ∀ y, xs.count y ≤ o₁.refs y := by
      intro y
      have hr := m₁.refs y
      have hc := h y
      simp only [List.count_cons, List.count_nil, Nat.add_zero, Nat.zero_add] at hr hc
      omega
    obtain ⟨o₂, e₂, m₂⟩ := ih (fun y hy => h0 y (List.mem_cons_of_mem _ hy)) hl
    exact ⟨o₂, by rw [coreObjectDecRefs, e₁]; exact e₂, m₁.trans m₂⟩

/-! ## Objects that are gone -/

theorem coreObjectIncRef_dead {handle x : Addr} {o : Objects Obj} (hx : o.refs x = 0) :
    (coreObjectIncRef handle o).2.refs x = 0 := by
  by_cases h : 0 < o.refs handle
  · obtain ⟨o', e, m⟩ := coreObjectIncRef_spec h
    have hne : x ≠ handle := by
      rintro rfl
      omega
    have hr := m.refs x
    rw [List.count_nil, List.count_singleton, if_neg (by simpa using hne.symm)] at hr
    rw [e]
    show o'.refs x = 0
    omega
  · have hn : o handle = none := RefStore.refs_eq_zero_iff.1 (by omega)
    rw [coreObjectIncRef, RefStore.acquire, hn]
    exact hx

theorem coreObjectDecRef_dead {handle x : Addr} {o : Objects Obj} (hx : o.refs x = 0) :
    (coreObjectDecRef handle o).2.refs x = 0 := by
  by_cases h0 : handle = 0
  · rw [coreObjectDecRef, if_pos h0]
    exact hx
  · by_cases h : 0 < o.refs handle
    · obtain ⟨o', e, m⟩ := coreObjectDecRef_spec h0 h
      have hr := m.refs x
      rw [List.count_nil] at hr
      rw [e]
      show o'.refs x = 0
      omega
    · have hn : o handle = none := RefStore.refs_eq_zero_iff.1 (by omega)
      rw [coreObjectDecRef, if_neg h0, RefStore.release, hn]
      exact hx

theorem coreObjectIncRefs_dead {hs : List Addr} {x : Addr} {o : Objects Obj}
    (hx : o.refs x = 0) : (coreObjectIncRefs hs o).2.refs x = 0 := by
  induction hs generalizing o with
  | nil => exact hx
  | cons h hs ih =>
    have hd := @coreObjectIncRef_dead _ h x o hx
    rw [coreObjectIncRefs]
    rcases hr : coreObjectIncRef h o with ⟨e | n, o₁⟩
    · rw [hr] at hd
      exact hd
    · rw [hr] at hd
      exact ih hd

theorem coreObjectDecRefs_dead {hs : List Addr} {x : Addr} {o : Objects Obj}
    (hx : o.refs x = 0) : (coreObjectDecRefs hs o).2.refs x = 0 := by
  induction hs generalizing o with
  | nil => exact hx
  | cons h hs ih =>
    have hd := @coreObjectDecRef_dead _ h x o hx
    rw [coreObjectDecRefs]
    rcases hr : coreObjectDecRef h o with ⟨e | n, o₁⟩
    · rw [hr] at hd
      exact hd
    · rw [hr] at hd
      exact ih hd

end Nvcv
