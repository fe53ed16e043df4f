import CvCuda.Lib.Tally
import CvCuda.Nvcv.SharedCoreObj

/-! # The references of shared core objects

Every operation moves the references on an object by what the variables own more or less of it
and by what it gives out or takes over (`Shift`).

* `runs_reset`, `runs_copyAssign`, ...: what each operation does to the state.
* `exec_shift`: one operation; `references_balanced`: every run.
* `exec_defined`: where no reference was returned that was not given out, the operations of a
  program have an outcome.
-/

namespace Nvcv.SharedCoreObj

open RefStore StateCall

variable {V Obj : Type} [DecidableEq V] {s s' : State V Obj} {o : Objects Obj} {p q : Pointer}
variable {v w : V} {h : Addr}

/-! ## Pointers -/

/-- The object of the pointer, if the pointer is to an object with a handle, is there. -/
def Alive (o : Objects Obj) (p : Pointer) : Prop := ∀ h, p.handle? = some h → 0 < o.refs h

theorem handle?_ne_zero (hp : p.handle? = some h) : h ≠ 0 := by
  cases p with
  | managed k =>
    cases hp
    exact k.2
  | null => cases hp
  | unmanaged i => cases hp

/-- The objects with a reference more on that of the pointer. -/
def retained (o : Objects Obj) (p : Pointer) : Objects Obj :=
  match p.handle? with
  | none => o
  | some h => (coreObjectIncRef h o).2

/-- The objects with a reference less on that of the pointer, and what `CoreObjectDecRef` says. -/
def dropped (o : Objects Obj) (p : Pointer) : Nat × Objects Obj :=
  match p.handle? with
  | none => (0, o)
  | some h => ((coreObjectDecRef h o).2.refs h, (coreObjectDecRef h o).2)

theorem alive_null : Alive o .null := by
  intro h e
  cases e

theorem alive_unmanaged {i : Nat} : Alive o (.unmanaged i) := by
  intro h e
  cases e

theorem alive_managed {h : { handle : Addr // handle ≠ 0 }} :
    Alive o (.managed h) ↔ 0 < o.refs h := by
  constructor
  · intro ha
    exact ha h rfl
  · rintro ha _ ⟨⟩
    exact ha

@[simp] theorem dropped_null : dropped o .null = (0, o) := rfl

theorem isSome_obj : (o.obj h).isSome = true ↔ 0 < o.refs h := by
  rw [refs_pos, Option.isSome_iff_ne_none]

theorem retained_moved (ha : Alive o p) : o.Moved (retained o p) [] p.handle?.toList := by
  unfold retained
  cases hp : p.handle? with
  | none => exact .refl o
  | some h =>
    obtain ⟨o', e, m⟩ := coreObjectIncRef_spec (ha h hp)
    simp only [e]
    exact m

theorem dropped_moved (ha : Alive o p) : o.Moved (dropped o p).2 p.handle?.toList [] := by
  unfold dropped
  cases hp : p.handle? with
  | none => exact .refl o
  | some h =>
    have h0 : h ≠ 0 := handle?_ne_zero hp
    obtain ⟨o', e, m⟩ := coreObjectDecRef_spec h0 (ha h hp)
    simp only [e]
    exact m

/-! ## What the operations do -/

omit [DecidableEq V] in
theorem does_handle_managed {k : { handle : Addr // handle ≠ 0 }} :
    Does (handle (.managed k)) s (Alive s.objs (.managed k)) k.1 s := by
  refine Does.congr (Does.bind does_get fun _ => Does.then does_assert fun _ => does_pure) ?_
  rw [true_and, isSome_obj, alive_managed]

omit [DecidableEq V] in
theorem does_incRef :
    Does (incRef p) s (Alive s.objs p) () { s with objs := retained s.objs p } := by
  unfold incRef
  cases p with
  | null => exact does_pure.congr (iff_of_true trivial alive_null)
  | unmanaged i =>
    exact Does.congr (Does.then does_pure fun _ => does_pure) (iff_of_true trivial alive_unmanaged)
  | managed k =>
    rw [if_pos (by simp)]
    refine Does.then does_handle_managed fun ha => ?_
    obtain ⟨o', e, -⟩ := coreObjectIncRef_spec (alive_managed.1 ha)
    rw [if_pos k.2]
    refine Does.then (does_onPart e) fun _ => ?_
    have hr : retained s.objs (.managed k) = o' := by simp only [retained, Pointer.handle?, e]
    rw [hr]
    exact does_pure

omit [DecidableEq V] in
theorem does_decRef :
    Does (decRef p) s (Alive s.objs p) (dropped s.objs p).1
      { s with objs := (dropped s.objs p).2 } := by
  unfold decRef
  cases p with
  | null => exact does_pure.congr (iff_of_true trivial alive_null)
  | unmanaged i =>
    exact Does.congr (Does.then does_pure fun _ => does_pure) (iff_of_true trivial alive_unmanaged)
  | managed k =>
    rw [if_pos (by simp)]
    refine Does.then does_handle_managed fun ha => ?_
    obtain ⟨o', e, -⟩ := coreObjectDecRef_spec k.2 (alive_managed.1 ha)
    rw [if_pos k.2]
    have hr : dropped s.objs (.managed k) = (o'.refs k, o') := by
      simp only [dropped, Pointer.handle?, e]
    rw [hr]
    exact does_onPart e

theorem does_setObj : Does (setObj v p) s True () { s with obj := Function.update s.obj v p } :=
  does_modify

theorem does_constructed : Does (constructed v) s True () { s with vars := insert v s.vars } :=
  does_modify

omit [DecidableEq V] in
theorem does_getObj : Does (get v) s True (s.obj v) s :=
  Does.then does_get fun _ => does_pure

theorem does_reset :
    Does (reset v p) s (Alive s.objs (s.obj v)) (dropped s.objs (s.obj v)).1
      { s with objs := (dropped s.objs (s.obj v)).2, obj := Function.update s.obj v p } := by
  refine Does.congr (Does.bind does_getObj fun _ => Does.then does_decRef fun _ =>
    Does.then does_setObj fun _ => does_pure) ?_
  rw [true_and]

theorem does_release :
    Does (release v) s True (s.obj v) { s with obj := Function.update s.obj v .null } :=
  Does.then does_getObj fun _ => Does.then does_setObj fun _ => does_pure

theorem does_copyAssign :
    Does (copyAssign v w) s
      (Alive s.objs (s.obj w) ∧ Alive (retained s.objs (s.obj w)) (s.obj v)) ()
      { s with
        objs := (dropped (retained s.objs (s.obj w)) (s.obj v)).2
        obj := Function.update s.obj v (s.obj w) } := by
  refine Does.congr (Does.bind does_getObj fun _ => Does.bind does_incRef fun _ =>
    Does.then does_reset fun _ => does_pure) ?_
  rw [true_and]

theorem does_moveAssign :
    Does (moveAssign v w) s (Alive s.objs (Function.update s.obj w .null v)) ()
      { s with
        objs := (dropped s.objs (Function.update s.obj w .null v)).2
        obj := Function.update (Function.update s.obj w .null) v (s.obj w) } := by
  refine Does.congr (Does.bind does_release fun _ => Does.then does_reset fun _ => does_pure) ?_
  rw [true_and]

theorem does_construct :
    Does (construct v) s True ()
      { s with vars := insert v s.vars, obj := Function.update s.obj v .null } :=
  Does.then does_setObj fun _ => does_constructed

theorem does_constructPtr :
    Does (constructPtr v p) s True ()
      { s with vars := insert v s.vars, obj := Function.update s.obj v p } :=
  Does.then does_setObj fun _ => does_constructed

theorem does_constructRef :
    Does (constructRef v p) s (p ≠ .null ∧ Alive s.objs p) ()
      { objs := retained s.objs p
        vars := insert v s.vars
        obj := Function.update s.obj v p } := by
  refine Does.congr (Does.bind does_assert fun _ => Does.bind does_setObj fun _ =>
    Does.then does_incRef fun _ => does_constructed) ?_
  rw [true_and]

theorem does_copyConstruct (hw : w ≠ v) :
    Does (copyConstruct v w) s (Alive s.objs (s.obj w)) ()
      { objs := retained s.objs (s.obj w)
        vars := insert v s.vars
        obj := Function.update s.obj v (s.obj w) } := by
  have h : Does (copyConstruct v w) s _ () _ :=
    Does.bind does_setObj fun _ => Does.then does_copyAssign fun _ => does_constructed
  simp only [Function.update_self, Function.update_of_ne hw, Function.update_idem,
    dropped_null] at h
  exact h.congr (by simp [alive_null])

theorem does_moveConstruct (hw : w ≠ v) :
    Does (moveConstruct v w) s True ()
      { s with
        vars := insert v s.vars
        obj := Function.update (Function.update s.obj w .null) v (s.obj w) } := by
  have h : Does (moveConstruct v w) s _ () _ :=
    Does.bind does_setObj fun _ => Does.then does_moveAssign fun _ => does_constructed
  have hu : Function.update (Function.update (Function.update s.obj v .null) w .null) v (s.obj w) =
      Function.update (Function.update s.obj w .null) v (s.obj w) := by
    rw [Function.update_comm hw.symm, Function.update_idem]
  simp only [Function.update_self, Function.update_of_ne hw, Function.update_of_ne hw.symm, hu,
    dropped_null] at h
  exact h.congr (by simp [alive_null])

theorem does_destruct :
    Does (destruct v) s (Alive s.objs (s.obj v)) ()
      { objs := (dropped s.objs (s.obj v)).2
        vars := s.vars.erase v
        obj := Function.update s.obj v .null } :=
  Does.then does_reset fun _ => does_modify

omit [DecidableEq V] in
theorem does_toStaticPtr (k : { handle : Addr // handle ≠ 0 }) :
    Does (toStaticPtr k.1) s True (if (s.objs.obj k).isSome then .managed k else .null) s := by
  refine Does.then does_get fun _ => ?_
  rw [dif_pos k.2]
  exact does_pure

/-- What is the same for `fromHandle` with and without `incRef`. -/
theorem does_wrapHandle (k : { handle : Addr // handle ≠ 0 }) :
    Does (do
        let obj ← toStaticPtr k.1
        StateCall.assert (obj ≠ .null)
        StateCall.assert ((← handle obj) = k.1)
        constructPtr v obj) s (Alive s.objs (.managed k)) ()
      { s with vars := insert v s.vars, obj := Function.update s.obj v (.managed k) } := by
  have hp := does_toStaticPtr (s := s) k
  by_cases hk : (s.objs.obj k).isSome
  · have ha := alive_managed.2 (isSome_obj.1 hk)
    rw [if_pos hk] at hp
    refine Does.congr (Does.then hp fun _ => Does.then (does_assert_of (by simp)) fun _ =>
      Does.then (does_handle_managed.congr (iff_true_intro ha)) fun _ =>
        Does.then (does_assert_of rfl) fun _ => does_constructPtr) ?_
    exact iff_of_true trivial ha
  · rw [if_neg hk] at hp
    refine Does.congr (Does.bind hp fun _ => Does.then does_assert fun hn => absurd rfl hn) ?_
    exact iff_of_false (fun h => h.2 rfl) fun ha => hk (isSome_obj.2 (alive_managed.1 ha))

theorem does_fromHandle_null {incRef : Bool} :
    Does (fromHandle v 0 incRef) s True ()
      { s with vars := insert v s.vars, obj := Function.update s.obj v .null } := by
  unfold fromHandle
  rw [if_neg (by simp)]
  exact does_construct

theorem does_fromHandle (k : { handle : Addr // handle ≠ 0 }) :
    Does (fromHandle v k.1 false) s (Alive s.objs (.managed k)) ()
      { s with vars := insert v s.vars, obj := Function.update s.obj v (.managed k) } := by
  unfold fromHandle
  rw [if_pos k.2]
  exact does_wrapHandle k

theorem refs_retained_pos {k : { handle : Addr // handle ≠ 0 }} (ha : Alive o (.managed k)) :
    Alive (retained o (.managed k)) (.managed k) := by
  have hm := (retained_moved ha).refs k
  have := alive_managed.1 ha
  rw [List.count_nil] at hm
  exact alive_managed.2 (by omega)

/-- `FromHandle` with `incRef`, of a handle that is valid. -/
theorem does_fromHandle_incRef {k : { handle : Addr // handle ≠ 0 }}
    (ha : Alive s.objs (.managed k)) :
    Does (fromHandle v k.1 true) s True ()
      { objs := retained s.objs (.managed k)
        vars := insert v s.vars
        obj := Function.update s.obj v (.managed k) } := by
  obtain ⟨o', e, -⟩ := coreObjectIncRef_spec (alive_managed.1 ha)
  have hr : retained s.objs (.managed k) = o' := by simp only [retained, Pointer.handle?, e]
  have ha' := refs_retained_pos ha
  rw [hr] at ha' ⊢
  unfold fromHandle
  rw [if_pos k.2]
  exact Does.then (does_onPart e) fun _ => (does_wrapHandle k).congr (iff_true_intro ha')

/-- `FromHandle` with `incRef`, of a handle that is not. -/
theorem fails_fromHandle {k : { handle : Addr // handle ≠ 0 }} (ha : ¬Alive s.objs (.managed k)) :
    Fails (fromHandle v k.1 true) s HandleManager.invalidHandle s := by
  have hn : s.objs k = none := by
    rw [alive_managed, Nat.pos_iff_ne_zero, not_not] at ha
    exact refs_eq_zero_iff.1 ha
  have e : coreObjectIncRef k.1 s.objs = (.error HandleManager.invalidHandle, s.objs) := by
    rw [coreObjectIncRef, acquire, hn]
  unfold fromHandle
  rw [if_pos k.2]
  exact (fails_onPart e).bind

theorem does_fromPointer {incRef : Bool} (hp : p = .null ∨ incRef = false) :
    Does (fromPointer v p incRef) s True ()
      { s with vars := insert v s.vars, obj := Function.update s.obj v p } := by
  unfold fromPointer
  rw [if_neg]
  · exact does_constructPtr
  · rintro ⟨h0, hi⟩
    rcases hp with hp | hp
    · exact h0 hp
    · rw [hp] at hi
      cases hi

theorem does_fromPointer_incRef (k : { handle : Addr // handle ≠ 0 }) :
    Does (fromPointer v (.managed k) true) s (Alive s.objs (.managed k)) ()
      { objs := retained s.objs (.managed k)
        vars := insert v s.vars
        obj := Function.update s.obj v (.managed k) } := by
  unfold fromPointer
  rw [if_pos (by simp)]
  refine Does.then does_handle_managed fun ha => ?_
  obtain ⟨o', e, -⟩ := coreObjectIncRef_spec (alive_managed.1 ha)
  have hr : retained s.objs (.managed k) = o' := by simp only [retained, Pointer.handle?, e]
  rw [if_pos k.2, hr]
  exact Does.then (does_onPart e) fun _ => does_constructPtr

theorem fails_fromPointer {i : Nat} :
    Fails (fromPointer v (.unmanaged i) true) s
      (.logicError "Cannot use incRef on an object without a handle") s := by
  unfold fromPointer
  rw [if_pos (by simp)]
  exact Does.fails does_pure fails_throw.bind

theorem does_toSharedObj (k : { handle : Addr // handle ≠ 0 }) (ha : Alive s.objs (.managed k)) :
    Does (toSharedObj v k.1) s True ()
      { objs := retained s.objs (.managed k)
        vars := insert v s.vars
        obj := Function.update s.obj v (.managed k) } := by
  have hp := does_toStaticPtr (s := s) k
  rw [if_pos (isSome_obj.2 (alive_managed.1 ha))] at hp
  exact Does.then hp fun _ => (does_fromPointer_incRef k).congr (iff_true_intro ha)

/-- `ToSharedObj` of the null handle, or of one whose object is gone. -/
theorem does_toSharedObj_null {k : Addr} (hk : k = 0 ∨ s.objs.refs k = 0) :
    Does (toSharedObj v k) s True ()
      { s with vars := insert v s.vars, obj := Function.update s.obj v .null } := by
  have hp : Does (toStaticPtr k) s True .null s := by
    by_cases h0 : k = 0
    · refine Does.then does_get fun _ => ?_
      rw [dif_neg (not_not_intro h0)]
      exact does_pure
    · have hr : (s.objs.obj k).isSome ≠ true := by
        rw [Ne, isSome_obj]
        have := hk.resolve_left h0
        omega
      have hp := does_toStaticPtr (s := s) ⟨k, h0⟩
      rwa [if_neg hr] at hp
  exact Does.then hp fun _ => does_fromPointer (.inl rfl)

/-! ## The account -/

/-- The references to the object of `h` that a variable with this pointer owns. -/
def Pointer.holds (p : Pointer) (h : Addr) : Int := p.handle?.toList.count h

/-- The references that all variables own. -/
def owned (vars : Finset V) (obj : V → Pointer) (h : Addr) : Int :=
  Tally.total (fun x => if x = h then 1 else 0) vars fun v => (obj v).handle?.toList

omit [DecidableEq V] in
theorem owners_eq : (s.owners h : Int) = owned s.vars s.obj h := by
  rw [State.owners, owned, Tally.total, Finset.card_filter, Nat.cast_sum]
  refine Finset.sum_congr rfl fun v _ => ?_
  rw [Tally.listWeight_count]
  cases (s.obj v).handle? with
  | none => simp
  | some k => by_cases hk : k = h <;> simp [hk]

section
variable {vars : Finset V} {obj : V → Pointer}

theorem toList_update :
    (fun u => (Function.update obj v p u).handle?.toList) =
      Function.update (fun u => (obj u).handle?.toList) v p.handle?.toList := by
  funext u
  exact Function.apply_update (fun _ q => q.handle?.toList) obj v p u

theorem owned_insert (hv : v ∉ vars) :
    owned (insert v vars) (Function.update obj v p) h = owned vars obj h + p.holds h := by
  rw [owned, toList_update, Tally.total_insert_list hv, Tally.listWeight_count]
  rfl

theorem owned_update (hv : v ∈ vars) :
    owned vars (Function.update obj v p) h = owned vars obj h + p.holds h - (obj v).holds h := by
  have he := @Tally.total_eq _ _ (fun x => if x = h then 1 else 0) _
    (fun u => (obj u).handle?.toList) _ _ hv
  rw [owned, toList_update, Tally.total_update hv, owned, he]
  rw [Tally.listWeight_count, Tally.listWeight_count]
  unfold Pointer.holds
  omega

theorem owned_erase (hv : v ∈ vars) :
    owned (vars.erase v) (Function.update obj v p) h = owned vars obj h - (obj v).holds h := by
  have he := @Tally.total_eq _ _ (fun x => if x = h then 1 else 0) _
    (fun u => (obj u).handle?.toList) _ _ hv
  have hc : owned (vars.erase v) (Function.update obj v p) h = owned (vars.erase v) obj h :=
    Tally.total_congr fun u hu => by rw [Function.update_of_ne (Finset.ne_of_mem_erase hu)]
  rw [hc, owned, owned, he, Tally.listWeight_count]
  unfold Pointer.holds
  omega

end

/-- The references an event gives out, less those it takes over. -/
def Event.net (e : Event V) (h : Addr) : Int := e.given.toList.count h - e.returned.toList.count h

/-- The references on an object that no variable owns are `net` more than they were; an object
that has references is the one it was. -/
structure Shift (s s' : State V Obj) (net : Addr → Int) : Prop where
  refs : ∀ h, (s'.objs.refs h : Int) - owned s'.vars s'.obj h =
    s.objs.refs h - owned s.vars s.obj h + net h
  obj : ∀ h, 0 < s'.objs.refs h → s'.objs.obj h = s.objs.obj h

omit [DecidableEq V] in
theorem Shift.of_moved {r a : List Addr} {net : Addr → Int} (hm : s.objs.Moved s'.objs r a)
    (ho : ∀ h, owned s'.vars s'.obj h + net h = owned s.vars s.obj h + a.count h - r.count h) :
    Shift s s' net := by
  refine ⟨fun h => ?_, hm.obj⟩
  have := hm.refs h
  have := ho h
  omega

omit [DecidableEq V] in
theorem Event.net_of_none {e : Event V} (hg : e.given = none) (hr : e.returned = none) (h : Addr) :
    e.net h = 0 := by
  rw [Event.net, hg, hr]
  rfl

omit [DecidableEq V] in
theorem does_exec {α : Type} {x : Act V Obj α} {f : α → Ret} {P : Prop} {a : α}
    (h : Does x s P a s') : Does (do return f (← x)) s P (f a) s' :=
  Does.then h fun _ => does_pure

omit [DecidableEq V] in
/-- An operation that changes nothing, of which the program neither gives nor takes a reference. -/
theorem Shift.refl {e : Event V} (hg : e.given = none) (hr : e.returned = none) :
    Shift s s e.net := by
  refine .of_moved (.refl _) fun h => ?_
  rw [Event.net_of_none hg hr]
  simp

/-- **What one operation does** to the references. -/
theorem exec_shift {e : Event V} (hs : Step s e s') : Shift s s' e.net := by
  obtain ⟨op, r⟩ := e
  obtain ⟨hw, hr⟩ := hs
  cases op with
  | construct v =>
    obtain ⟨-, rfl, rfl⟩ := (does_exec does_construct _ _).1 hr
    refine .of_moved (.refl _) fun h => ?_
    rw [owned_insert hw, Event.net_of_none rfl rfl]
    simp [Pointer.holds, Pointer.handle?]
  | constructPtr v p =>
    obtain ⟨-, rfl, rfl⟩ := (does_exec does_constructPtr _ _).1 hr
    refine .of_moved (.refl _) fun h => ?_
    rw [owned_insert hw]
    simp [Pointer.holds, Event.net, Event.given, Event.returned]
  | constructRef v p =>
    obtain ⟨⟨-, ha⟩, rfl, rfl⟩ := (does_exec does_constructRef _ _).1 hr
    refine .of_moved (retained_moved ha) fun h => ?_
    rw [owned_insert hw, Event.net_of_none rfl rfl]
    simp [Pointer.holds]
  | copyConstruct v w | copyConstructRelated v w =>
    have hvw := ne_of_mem_of_not_mem hw.2 hw.1
    obtain ⟨ha, rfl, rfl⟩ := (does_exec (does_copyConstruct hvw) _ _).1 hr
    refine .of_moved (retained_moved ha) fun h => ?_
    rw [owned_insert hw.1, Event.net_of_none rfl rfl]
    simp [Pointer.holds]
  | moveConstruct v w =>
    have hvw := ne_of_mem_of_not_mem hw.2 hw.1
    obtain ⟨-, rfl, rfl⟩ := (does_exec (does_moveConstruct hvw) _ _).1 hr
    refine .of_moved (.refl _) fun h => ?_
    rw [owned_insert hw.1, owned_update hw.2, Event.net_of_none rfl rfl]
    simp [Pointer.holds, Pointer.handle?]
  | destruct v =>
    obtain ⟨ha, rfl, rfl⟩ := (does_exec does_destruct _ _).1 hr
    refine .of_moved (dropped_moved ha) fun h => ?_
    rw [owned_erase hw, Event.net_of_none rfl rfl]
    simp [Pointer.holds]
  | copyAssign v w | copyAssignRelated v w =>
    obtain ⟨⟨ha, hd⟩, rfl, rfl⟩ := (does_exec does_copyAssign _ _).1 hr
    refine .of_moved ((retained_moved ha).trans (dropped_moved hd)) fun h => ?_
    rw [owned_update hw.1, Event.net_of_none rfl rfl]
    simp [Pointer.holds]
  | moveAssign v w | moveAssignRelated v w =>
    obtain ⟨ha, rfl, rfl⟩ := (does_exec does_moveAssign _ _).1 hr
    refine .of_moved (dropped_moved ha) fun h => ?_
    rw [owned_update hw.1, owned_update hw.2, Event.net_of_none rfl rfl]
    simp [Pointer.holds, Pointer.handle?]
  | fromHandle v handle incRef =>
    by_cases h0 : handle = 0
    · subst h0
      obtain ⟨-, rfl, rfl⟩ := (does_exec does_fromHandle_null _ _).1 hr
      refine .of_moved (.refl _) fun h => ?_
      have hn : Event.net (.fromHandle v 0 incRef, .ok .done) h = 0 := by
        cases incRef <;> simp [Event.net, Event.given, Event.returned]
      rw [owned_insert hw, hn]
      simp [Pointer.holds, Pointer.handle?]
    · lift handle to { handle : Addr // handle ≠ 0 } using h0
      cases incRef with
      | false =>
        obtain ⟨-, rfl, rfl⟩ := (does_exec (does_fromHandle handle) _ _).1 hr
        refine .of_moved (.refl _) fun h => ?_
        have hr : Event.returned (.fromHandle v handle.1 false, .ok .done) = some handle.1 :=
          if_neg handle.2
        rw [owned_insert hw, Event.net, hr]
        simp [Pointer.holds, Pointer.handle?, Event.given]
      | true =>
        by_cases ha : Alive s.objs (.managed handle)
        · obtain ⟨-, rfl, rfl⟩ := (does_exec (does_fromHandle_incRef ha) _ _).1 hr
          refine .of_moved (retained_moved ha) fun h => ?_
          rw [owned_insert hw, Event.net_of_none rfl rfl]
          simp [Pointer.holds]
        · obtain ⟨rfl, rfl⟩ := ((fails_fromHandle ha).bind _ _).1 hr
          exact .refl rfl rfl
  | fromPointer v p incRef =>
    by_cases hp : p = .null ∨ incRef = false
    · obtain ⟨-, rfl, rfl⟩ := (does_exec (does_fromPointer hp) _ _).1 hr
      refine .of_moved (.refl _) fun h => ?_
      have hn : Event.net (.fromPointer v p incRef, .ok .done) h = -p.holds h := by
        rcases hp with rfl | rfl
        · cases incRef <;> rfl
        · simp [Pointer.holds, Event.net, Event.given, Event.returned]
      rw [owned_insert hw, hn]
      simp
    · obtain ⟨hp0, hi⟩ := not_or.1 hp
      rw [Bool.not_eq_false] at hi
      subst hi
      cases p with
      | null => exact absurd rfl hp0
      | managed k =>
        obtain ⟨ha, rfl, rfl⟩ := (does_exec (does_fromPointer_incRef k) _ _).1 hr
        refine .of_moved (retained_moved ha) fun h => ?_
        rw [owned_insert hw, Event.net_of_none rfl rfl]
        simp [Pointer.holds]
      | unmanaged i =>
        obtain ⟨rfl, rfl⟩ := (fails_fromPointer.bind _ _).1 hr
        exact .refl rfl rfl
  | toSharedObj v handle =>
    by_cases h0 : handle = 0 ∨ s.objs.refs handle = 0
    · obtain ⟨-, rfl, rfl⟩ := (does_exec (does_toSharedObj_null h0) _ _).1 hr
      refine .of_moved (.refl _) fun h => ?_
      rw [owned_insert hw, Event.net_of_none rfl rfl]
      simp [Pointer.holds, Pointer.handle?]
    · obtain ⟨h0, hn⟩ := not_or.1 h0
      lift handle to { handle : Addr // handle ≠ 0 } using h0
      have ha := alive_managed.2 (Nat.pos_of_ne_zero hn)
      obtain ⟨-, rfl, rfl⟩ := (does_exec (does_toSharedObj handle ha) _ _).1 hr
      refine .of_moved (retained_moved ha) fun h => ?_
      rw [owned_insert hw, Event.net_of_none rfl rfl]
      simp [Pointer.holds]
  | reset v p =>
    obtain ⟨ha, rfl, rfl⟩ := (does_exec does_reset _ _).1 hr
    refine .of_moved (dropped_moved ha) fun h => ?_
    simp only [owned_update hw, Pointer.holds, Event.net, Event.given, Event.returned,
      Option.toList_none, List.count_nil]
    omega
  | release v =>
    obtain ⟨-, rfl, rfl⟩ := (does_exec does_release _ _).1 hr
    refine .of_moved (.refl _) fun h => ?_
    rw [owned_update hw]
    simp [Pointer.holds, Pointer.handle?, Event.net, Event.given, Event.returned]

/-! ## Runs -/

omit [DecidableEq V] in
theorem outstanding_cons (e : Event V) (es : List (Event V)) (h : Addr) :
    outstanding (e :: es) h = e.net h + outstanding es h := by
  have hc (f : Event V → Option Addr) :
      ((e :: es).filterMap f).count h = (f e).toList.count h + (es.filterMap f).count h := by
    rw [List.filterMap_cons]
    cases f e <;> simp [List.count_cons, Nat.add_comm]
  rw [outstanding, hc, hc, Event.net, outstanding]
  omega

theorem run_shift {es : List (Event V)} (r : Run Step s es s') : Shift s s' (outstanding es) := by
  induction r with
  | nil s =>
    refine .of_moved (.refl _) fun h => ?_
    simp [outstanding]
  | @cons s s₁ s' e es hs _ ih =>
    have h₁ := exec_shift hs
    refine ⟨fun h => ?_, fun h hp => ?_⟩
    · rw [ih.refs, h₁.refs, outstanding_cons]
      omega
    · have hp₁ : 0 < s₁.objs.refs h := refs_pos.2 (ih.obj h hp ▸ refs_pos.1 hp)
      rw [ih.obj h hp, h₁.obj h hp₁]

/-! ## Operations that have an outcome -/

theorem alive_retained (hq : Alive o q) (hp : Alive o p) : Alive (retained o q) p := by
  intro h e
  have hm := (retained_moved hq).refs h
  have := hp h e
  rw [List.count_nil] at hm
  omega

omit [DecidableEq V] in
theorem alive_of_mem (hs : ∀ h, s.owners h ≤ s.objs.refs h) (hv : v ∈ s.vars) :
    Alive s.objs (s.obj v) := by
  intro h e
  have hpos : 0 < s.owners h := Finset.card_pos.2 ⟨v, Finset.mem_filter.2 ⟨hv, e⟩⟩
  exact hpos.trans_le (hs h)

/-- Where the variables own no more references than there are, an operation whose variables and
objects are there has an outcome. -/
theorem exec_defined (hs : ∀ h, s.owners h ≤ s.objs.refs h) {op : Op V}
    (hw : op.WellScoped s.vars) (hu : op.Usable s.objs) : ∃ r s', Step s (op, r) s' := by
  cases op with
  | construct v => exact ⟨_, _, hw, (does_exec does_construct).runs trivial⟩
  | constructPtr v p => exact ⟨_, _, hw, (does_exec does_constructPtr).runs trivial⟩
  | constructRef v p => exact ⟨_, _, hw, (does_exec does_constructRef).runs hu⟩
  | copyConstruct v w | copyConstructRelated v w =>
    have hvw := ne_of_mem_of_not_mem hw.2 hw.1
    exact ⟨_, _, hw, (does_exec (does_copyConstruct hvw)).runs (alive_of_mem hs hw.2)⟩
  | moveConstruct v w =>
    have hvw := ne_of_mem_of_not_mem hw.2 hw.1
    exact ⟨_, _, hw, (does_exec (does_moveConstruct hvw)).runs trivial⟩
  | destruct v => exact ⟨_, _, hw, (does_exec does_destruct).runs (alive_of_mem hs hw)⟩
  | copyAssign v w | copyAssignRelated v w =>
    have ha := alive_of_mem hs hw.2
    exact ⟨_, _, hw, (does_exec does_copyAssign).runs
      ⟨ha, alive_retained ha (alive_of_mem hs hw.1)⟩⟩
  | moveAssign v w | moveAssignRelated v w =>
    refine ⟨_, _, hw, (does_exec does_moveAssign).runs ?_⟩
    by_cases hvw : v = w
    · rw [hvw, Function.update_self]
      exact alive_null
    · rw [Function.update_of_ne hvw]
      exact alive_of_mem hs hw.1
  | fromHandle v handle incRef =>
    by_cases h0 : handle = 0
    · subst h0
      exact ⟨_, _, hw, (does_exec does_fromHandle_null).runs trivial⟩
    · lift handle to { handle : Addr // handle ≠ 0 } using h0
      by_cases ha : Alive s.objs (.managed handle)
      · cases incRef with
        | false => exact ⟨_, _, hw, (does_exec (does_fromHandle handle)).runs ha⟩
        | true => exact ⟨_, _, hw, (does_exec (does_fromHandle_incRef ha)).runs trivial⟩
      · have hi : incRef = true :=
          (hu.resolve_left handle.2).resolve_right fun h => ha (alive_managed.2 h)
        subst hi
        exact ⟨_, _, hw, (fails_fromHandle ha).bind.runs⟩
  | fromPointer v p incRef =>
    by_cases hp : p = .null ∨ incRef = false
    · exact ⟨_, _, hw, (does_exec (does_fromPointer hp)).runs trivial⟩
    · obtain ⟨hp0, hi⟩ := not_or.1 hp
      have ha := hu.resolve_left hi
      rw [Bool.not_eq_false] at hi
      subst hi
      cases p with
      | null => exact absurd rfl hp0
      | managed k => exact ⟨_, _, hw, (does_exec (does_fromPointer_incRef k)).runs ha⟩
      | unmanaged i => exact ⟨_, _, hw, fails_fromPointer.bind.runs⟩
  | toSharedObj v handle =>
    by_cases h0 : handle = 0 ∨ s.objs.refs handle = 0
    · exact ⟨_, _, hw, (does_exec (does_toSharedObj_null h0)).runs trivial⟩
    · obtain ⟨h0, hn⟩ := not_or.1 h0
      lift handle to { handle : Addr // handle ≠ 0 } using h0
      have ha := alive_managed.2 (Nat.pos_of_ne_zero hn)
      exact ⟨_, _, hw, (does_exec (does_toSharedObj handle ha)).runs trivial⟩
  | reset v p => exact ⟨_, _, hw, (does_exec does_reset).runs (alive_of_mem hs hw)⟩
  | release v => exact ⟨_, _, hw, (does_exec does_release).runs trivial⟩

/-! ## The references of a program -/

/-- At every point of every program the references on an object are those there were, those of the
variables that own it and those given out and not returned; the object is gone when these are
none, and until then it is the one it was. While no reference was returned that was not there, every
operation whose variables and objects are there has an outcome. -/
theorem references_balanced {objs : Objects Obj} {es : List (Event V)}
    (r : Run Step (.initial objs) es s) :
    (∀ h, (s.objs.refs h : Int) = objs.refs h + s.owners h + outstanding es h) ∧
      (∀ h, s.objs.obj h = none ↔ objs.refs h + s.owners h + outstanding es h = 0) ∧
      (∀ h, s.objs.obj h ≠ none → s.objs.obj h = objs.obj h) ∧
      ((∀ h, 0 ≤ objs.refs h + outstanding es h) → ∀ op : Op V, op.WellScoped s.vars →
        op.Usable s.objs → ∃ r s', Step s (op, r) s') := by
  have hs := run_shift r
  have hrefs (h : Addr) :
      (s.objs.refs h : Int) = objs.refs h + s.owners h + outstanding es h := by
    have h0 : owned (State.initial (V := V) objs).vars (State.initial objs).obj h = 0 := rfl
    have he := hs.refs h
    rw [h0, ← owners_eq] at he
    have hi : (State.initial (V := V) objs).objs = objs := rfl
    rw [hi] at he
    omega
  refine ⟨hrefs, fun h => ?_, fun h hn => hs.obj h (refs_pos.2 hn), fun hb op hw hu => ?_⟩
  · rw [← hrefs, Nat.cast_eq_zero]
    constructor
    · exact refs_eq_zero
    · intro h0
      by_contra hn
      have := refs_pos.2 hn
      omega
  · refine exec_defined (fun h => ?_) hw hu
    have := hrefs h
    have := hb h
    omega

/-- A variable takes a second reference, is assigned to itself and gives its reference out. -/
theorem references_balanced_release : ∃ s : State Bool Unit,
    Run Step (.initial (RefStore.add (fun _ => none) 1 ())) [
      (.fromHandle true 1 true, .ok .done),
      (.copyAssign true true, .ok .done),
      (.release true, .ok (.pointer (.managed ⟨1, by decide⟩)))] s ∧
    (s.objs.refs 1 : Int) = 1 + s.owners 1 + 1 := by
  have r : ∃ s : State Bool Unit, Run Step (.initial (RefStore.add (fun _ => none) 1 ())) [
      (.fromHandle true 1 true, .ok .done),
      (.copyAssign true true, .ok .done),
      (.release true, .ok (.pointer (.managed ⟨1, by decide⟩)))] s :=
    ⟨_, .cons ⟨Finset.notMem_empty _, rfl⟩ <|
      .cons ⟨⟨Finset.mem_insert_self .., Finset.mem_insert_self ..⟩, rfl⟩ <|
        .cons ⟨Finset.mem_insert_self .., rfl⟩ <| .nil _⟩
  obtain ⟨s, r⟩ := r
  exact ⟨s, r, (references_balanced r).1 1⟩

end Nvcv.SharedCoreObj
