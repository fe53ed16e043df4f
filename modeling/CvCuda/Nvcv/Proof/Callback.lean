import CvCuda.Nvcv.Callback

/-! # Callables are destroyed once

A callable on the heap is held by one `Callback` object, or was handed out, or was destroyed.

* `Formed`: an object holds a callable with the functions made for it, or nothing.
* `step_spec`: what an operation does to the custody of the callables (`State.custody`); it comes to
  no error, and the object it takes from is left empty.
* `run_sound`: the account over a whole program.
-/

namespace Nvcv.Callback

/-! ## What an object holds -/

/-- The members hold a callable, with the functions for the type of the object, or nothing. -/
def Object.Formed (o : Object) : Prop := o.cb = {} ∨ ∃ c, o.cb = fromCallable o.singleUse c

theorem Object.formed_empty (singleUse : Bool) : Object.Formed ⟨singleUse, {}⟩ := .inl rfl

theorem Object.formed_fromCallable (singleUse : Bool) (c : Nat) :
    Object.Formed ⟨singleUse, fromCallable singleUse c⟩ := .inr ⟨c, rfl⟩

theorem reset_eq {o : Object} (h : o.Formed) (triple : Callback) (log : List CustodyEvent) :
    o.cb.reset triple log = (triple, CleanupFunc.run o.cb.target log) := by
  obtain ⟨singleUse, cb⟩ := o
  rcases h with h | ⟨c, h⟩
  · dsimp only at h
    subst h
    rfl
  · dsimp only at h
    subst h
    rfl

theorem moveAssign_eq {o : Object} (h : o.Formed) (cb : Callback) (log : List CustodyEvent) :
    o.cb.moveAssign cb log = ((cb, {}), CleanupFunc.run o.cb.target log) := by
  unfold moveAssign
  dsimp only
  rw [reset_eq h]

/-! ## Custody -/

/-- The callable of an object. -/
def Object.held (o : Object) : Option Nat := o.cb.target

/-- Where the callables are. -/
def State.custody (s : State) : Custody Nat where
  cell := fun i => (s.objs i).bind Object.held
  out := s.handedOut.filterMap Object.held
  next := s.next
  log := s.log

theorem cell_of_objs {s : State} {i : Nat} {o : Object} (h : s.objs i = some o) :
    s.custody.cell i = o.held := congrArg (·.bind Object.held) h

theorem cell_of_none {s : State} {i : Nat} (h : s.objs i = none) : s.custody.cell i = none :=
  congrArg (·.bind Object.held) h

theorem cell_update (objs : Nat → Option Object) (i : Nat) (o : Option Object) :
    (fun k => (Function.update objs i o k).bind Object.held) =
      Function.update (fun k => (objs k).bind Object.held) i (o.bind Object.held) :=
  funext fun k => Function.apply_update (fun _ (o : Option Object) => o.bind Object.held)
    objs i o k

section Steps

variable {c : Custody Nat} {i j : Nat}

/-- A cell is cleared, and what was there destroyed. -/
theorem steps_clear (c : Custody Nat) (i : Nat) : CustodySteps c
    { c with cell := Function.update c.cell i none, log := CleanupFunc.run (c.cell i) c.log } := by
  cases hc : c.cell i with
  | none =>
    rw [← hc, Function.update_eq_self]
    have hlog : CleanupFunc.run (c.cell i) c.log = c.log := by rw [hc]; rfl
    rw [hlog]
  | some a => exact .single (.dispose hc)

/-- What is in one cell goes to an empty one. -/
theorem steps_transfer (hi : c.cell i = none) (hij : i ≠ j) : CustodySteps c
    { c with cell := Function.update (Function.update c.cell i (c.cell j)) j none } := by
  cases hc : c.cell j with
  | none =>
    have h1 : Function.update c.cell i none = c.cell := by rw [← hi, Function.update_eq_self]
    have h2 : Function.update c.cell j none = c.cell := by rw [← hc, Function.update_eq_self]
    rw [h1, h2]
  | some a =>
    rw [Function.update_comm hij]
    exact .single (.pass hc hi)

theorem steps_giveAway (c : Custody Nat) (i : Nat) : CustodySteps c
    { c with cell := Function.update c.cell i none, out := (c.cell i).toList ++ c.out } := by
  cases hc : c.cell i with
  | none =>
    rw [← hc, Function.update_eq_self, hc]
    exact .refl
  | some a => exact .single (.giveAway hc)

theorem steps_takeBack {o : Option Nat} {out : List Nat} (hi : c.cell i = none)
    (hout : c.out.Perm (o.toList ++ out)) (hnone : o = none → c.out = out) : CustodySteps c
      { c with cell := Function.update c.cell i o, out := out } := by
  cases o with
  | none =>
    have h1 : Function.update c.cell i none = c.cell := by rw [← hi, Function.update_eq_self]
    rw [h1, ← hnone rfl]
  | some a => exact .single (.takeBack hi hout)

end Steps

/-! ## Operations -/

/-- Every object, and what was handed out, holds a callable with its functions, or nothing. -/
structure State.Formed (s : State) : Prop where
  objs : ∀ i o, s.objs i = some o → o.Formed
  handedOut : ∀ o ∈ s.handedOut, o.Formed

theorem State.Formed.set {s : State} (h : s.Formed) {i : Nat} {o : Object} (ho : o.Formed) :
    (s.set i o).Formed := by
  refine ⟨fun k p hk => ?_, h.handedOut⟩
  by_cases hki : k = i
  · subst hki
    have hp : (Function.update s.objs k (some o)) k = some p := hk
    rw [Function.update_self] at hp
    exact Option.some.inj hp ▸ ho
  · refine h.objs k p ?_
    have hp : (Function.update s.objs i (some o)) k = some p := hk
    rwa [Function.update_of_ne hki] at hp

/-- What an operation does. -/
structure Does (s : State) (op : Op) (s' : State) : Prop where
  formed : s'.Formed
  steps : CustodySteps s.custody s'.custody
  emptied : ∀ i, s.Source op i → op ≠ .moveAssign i i → s'.HoldsNothing i

/-- An object changes, and the rest. -/
theorem custody_mk (objs : Nat → Option Object) (i : Nat) (o : Option Object)
    (handedOut : List Object) (next : Nat) (log : List CustodyEvent) :
    State.custody ⟨Function.update objs i o, handedOut, next, log⟩ =
      { cell := Function.update (fun k => (objs k).bind Object.held) i
          (o.bind Object.held)
        out := handedOut.filterMap Object.held
        next := next
        log := log } := by
  unfold State.custody
  dsimp only
  rw [cell_update]

theorem filterMap_erase_of_none {α β : Type} [DecidableEq α] {f : α → Option β} {x : α}
    (h : f x = none) (l : List α) : (l.erase x).filterMap f = l.filterMap f := by
  induction l with
  | nil => rfl
  | cons y l ih =>
    by_cases hyx : y = x
    · rw [hyx, List.erase_cons_head, List.filterMap_cons_none h]
    · rw [List.erase_cons_tail (by simpa using hyx), List.filterMap_cons, List.filterMap_cons, ih]

section Ops

variable {s : State} {i j : Nat} {o p : Object}

theorem construct_does (h : s.Formed) (hi : s.objs i = none) (singleUse : Bool) :
    Does s (.construct i singleUse) (s.set i ⟨singleUse, {}⟩) := by
  refine ⟨h.set (Object.formed_empty singleUse), ?_, fun _ hsrc => hsrc.elim⟩
  unfold State.set
  rw [custody_mk]
  have hcell : Function.update s.custody.cell i none = s.custody.cell := by
    rw [← cell_of_none hi, Function.update_eq_self]
  exact hcell ▸ .refl

theorem constructFrom_does (h : s.Formed) (hi : s.objs i = none) (singleUse : Bool) :
    Does s (.constructFrom i singleUse)
      { s.set i ⟨singleUse, fromCallable singleUse s.next⟩ with next := s.next + 1 } := by
  have hset := h.set (i := i) (Object.formed_fromCallable singleUse s.next)
  refine ⟨⟨hset.objs, hset.handedOut⟩, ?_, fun _ hsrc => hsrc.elim⟩
  unfold State.set
  rw [custody_mk]
  exact .single (.make (cell_of_none hi))

/-- An object is cleared, and what it held destroyed. -/
theorem clear_steps (hi : s.objs i = some o) (o' : Option Object)
    (ho' : (o'.bind Object.held) = none) :
    CustodySteps s.custody (State.custody ⟨Function.update s.objs i o', s.handedOut, s.next,
      CleanupFunc.run o.cb.target s.log⟩) := by
  have h := steps_clear s.custody i
  rw [cell_of_objs hi] at h
  rw [custody_mk, ho']
  exact h

theorem reset_does (h : s.Formed) (hi : s.objs i = some o) :
    Does s (.reset i)
      { s.set i ⟨o.singleUse, {}⟩ with log := CleanupFunc.run o.cb.target s.log } := by
  have hset := h.set (i := i) (Object.formed_empty o.singleUse)
  exact ⟨⟨hset.objs, hset.handedOut⟩, clear_steps hi _ rfl, fun _ hsrc => hsrc.elim⟩

theorem destruct_does (h : s.Formed) (hi : s.objs i = some o) :
    Does s (.destruct i)
      { s with objs := Function.update s.objs i none, log := CleanupFunc.run o.cb.target s.log } := by
  refine ⟨⟨fun k p hk => ?_, h.handedOut⟩, clear_steps hi none rfl, fun _ hsrc => hsrc.elim⟩
  by_cases hki : k = i
  · subst hki
    have hp : Function.update s.objs k none k = some p := hk
    rw [Function.update_self] at hp
    cases hp
  · refine h.objs k p ?_
    have hp : Function.update s.objs i none k = some p := hk
    rwa [Function.update_of_ne hki] at hp

theorem resetTo_does (h : s.Formed) (hi : s.objs i = some o) {triple : Callback}
    (hmem : ⟨o.singleUse, triple⟩ ∈ s.handedOut) :
    Does s (.resetTo i triple)
      { s.set i ⟨o.singleUse, triple⟩ with
        handedOut := s.handedOut.erase ⟨o.singleUse, triple⟩
        log := CleanupFunc.run o.cb.target s.log } := by
  have hset := h.set (i := i) (h.handedOut _ hmem)
  refine ⟨⟨hset.objs, fun p hp => h.handedOut p (List.mem_of_mem_erase hp)⟩, ?_,
    fun _ hsrc => hsrc.elim⟩
  refine (clear_steps hi none rfl).trans ?_
  have hperm := (List.perm_cons_erase hmem).filterMap Object.held
  unfold State.set
  rw [custody_mk, custody_mk]
  have hidem := Function.update_idem (a := i) (v := none) (w := triple.target)
    (f := fun k => (s.objs k).bind Object.held)
  have htake := @steps_takeBack
    ⟨Function.update (fun k => (s.objs k).bind Object.held) i none,
      s.handedOut.filterMap Object.held, s.next, CleanupFunc.run o.cb.target s.log⟩
    i triple.target ((s.handedOut.erase ⟨o.singleUse, triple⟩).filterMap Object.held)
    (by dsimp only; rw [Function.update_self]) ?_ ?_
  · dsimp only at htake
    rw [hidem] at htake
    exact htake
  · cases htarget : triple.target with
    | none => rwa [List.filterMap_cons_none (by exact htarget)] at hperm
    | some c => rwa [List.filterMap_cons_some (by exact htarget)] at hperm
  · exact fun hnone => (filterMap_erase_of_none (by exact hnone) _).symm

/-- What an object holds goes to one that holds nothing. -/
theorem transfer_steps {s : State} {o' p' : Object} (hi : s.custody.cell i = none)
    (hj : s.objs j = some p) (hij : i ≠ j) (ho' : o'.held = p.held)
    (hp' : p'.held = none) : CustodySteps s.custody (State.custody
      ⟨Function.update (Function.update s.objs i (some o')) j (some p'), s.handedOut, s.next,
        s.log⟩) := by
  have h := steps_transfer hi hij
  rw [cell_of_objs hj, ← ho'] at h
  rw [custody_mk, cell_update, Option.bind_some, Option.bind_some, hp']
  exact h

theorem moveConstruct_does (h : s.Formed) (hi : s.objs i = none) (hj : s.objs j = some p) :
    Does s (.moveConstruct i j) ((s.set i ⟨p.singleUse, p.cb⟩).set j ⟨p.singleUse, {}⟩) := by
  have hij : i ≠ j := by
    rintro rfl
    rw [hi] at hj
    cases hj
  refine ⟨(h.set (h.objs j p hj)).set (Object.formed_empty p.singleUse),
    transfer_steps (cell_of_none hi) hj hij rfl rfl, ?_⟩
  rintro _ rfl -
  exact ⟨_, Function.update_self .., rfl⟩

theorem moveAssign_does (h : s.Formed) (hi : s.objs i = some o) (hj : s.objs j = some p)
    (hij : i ≠ j) (hkind : o.singleUse = p.singleUse) :
    Does s (.moveAssign i j)
      { (s.set i ⟨o.singleUse, p.cb⟩).set j ⟨p.singleUse, {}⟩ with
        log := CleanupFunc.run o.cb.target s.log } := by
  have hset := (h.set (i := i) (o := ⟨o.singleUse, p.cb⟩) (hkind ▸ h.objs j p hj)).set (i := j)
    (Object.formed_empty p.singleUse)
  refine ⟨⟨hset.objs, hset.handedOut⟩, (clear_steps hi (some ⟨o.singleUse, {}⟩) rfl).trans ?_, ?_⟩
  · have hj' : Function.update s.objs i (some ⟨o.singleUse, {}⟩) j = some p := by
      rwa [Function.update_of_ne hij.symm]
    have htransfer := @transfer_steps i j p _ ⟨o.singleUse, p.cb⟩ ⟨p.singleUse, {}⟩
      (cell_of_objs (s := ⟨Function.update s.objs i (some ⟨o.singleUse, {}⟩), s.handedOut, s.next,
        CleanupFunc.run o.cb.target s.log⟩) (Function.update_self ..)) hj' hij rfl rfl
    dsimp only at htransfer
    rw [Function.update_idem] at htransfer
    exact htransfer
  · rintro _ rfl -
    exact ⟨_, Function.update_self .., rfl⟩

theorem assignFrom_does (h : s.Formed) (hi : s.objs i = some o) :
    Does s (.assignFrom i)
      { s.set i ⟨o.singleUse, fromCallable o.singleUse s.next⟩ with
        next := s.next + 1
        log := CleanupFunc.run o.cb.target s.log } := by
  have hset := h.set (i := i) (Object.formed_fromCallable o.singleUse s.next)
  refine ⟨⟨hset.objs, hset.handedOut⟩, (clear_steps hi none rfl).trans ?_,
    fun _ hsrc => hsrc.elim⟩
  unfold State.set
  rw [custody_mk, custody_mk]
  have hmake := CustodyStep.make (k := i)
    (s := ⟨Function.update (fun k => (s.objs k).bind Object.held) i none,
      s.handedOut.filterMap Object.held, s.next, CleanupFunc.run o.cb.target s.log⟩)
    (by dsimp only; rw [Function.update_self])
  dsimp only at hmake
  rw [Function.update_idem] at hmake
  exact .single hmake

theorem release_does (h : s.Formed) (hi : s.objs i = some o) :
    Does s (.release i)
      { s.set i ⟨o.singleUse, {}⟩ with handedOut := o :: s.handedOut } := by
  have hset := h.set (i := i) (Object.formed_empty o.singleUse)
  refine ⟨⟨hset.objs, fun p hp => ?_⟩, ?_, ?_⟩
  · rcases List.mem_cons.1 hp with rfl | hp
    · exact h.objs i p hi
    · exact h.handedOut p hp
  · have hgive := steps_giveAway s.custody i
    rw [cell_of_objs hi] at hgive
    unfold State.set
    rw [custody_mk]
    have hout : (o :: s.handedOut).filterMap Object.held =
        o.held.toList ++ s.handedOut.filterMap Object.held := by
      cases htarget : o.held with
      | none => rw [List.filterMap_cons_none htarget, Option.toList_none, List.nil_append]
      | some c => rw [List.filterMap_cons_some htarget, Option.toList_some, List.singleton_append]
    rw [hout]
    exact hgive
  · rintro _ rfl -
    exact ⟨_, Function.update_self .., rfl⟩

/-- An object that is set to what it is. -/
theorem set_self (hi : s.objs i = some o) : s.set i o = s := by
  unfold State.set
  rw [← hi, Function.update_eq_self]

/-- An invocation uses what the object holds; one of a single-use object destroys it, too. -/
theorem invoke_does (h : s.Formed) (hi : s.objs i = some o) :
    ∃ s', s.step (.invoke i) = some s' ∧ Does s (.invoke i) s' := by
  have hformed := h.objs i o hi
  obtain ⟨singleUse, cb⟩ := o
  have hcell := cell_of_objs hi
  rcases hformed with hcb | ⟨c, hcb⟩
  · -- it throws
    dsimp only at hcb
    subst hcb
    refine ⟨s.set i ⟨singleUse, {}⟩, ?_, ?_⟩
    · simp only [State.step, hi, Option.bind_eq_bind, Option.bind_some, invoke]
      rfl
    · rw [set_self hi]
      refine ⟨h, .refl, ?_⟩
      rintro _ ⟨rfl, -⟩ -
      exact ⟨_, hi, rfl⟩
  · dsimp only at hcb
    subst hcb
    cases singleUse with
    | false =>
      refine ⟨{ s.set i ⟨false, fromCallable false c⟩ with log := s.log ++ [.used c] }, ?_, ?_⟩
      · simp only [State.step, hi, Option.bind_eq_bind, Option.bind_some]
        rfl
      · rw [set_self hi]
        refine ⟨⟨h.objs, h.handedOut⟩, .single (.use hcell), ?_⟩
        rintro _ ⟨rfl, o, ho, honce⟩ -
        rw [hi] at ho
        obtain rfl := Option.some.inj ho
        cases honce
    | true =>
      refine ⟨{ s.set i ⟨true, {}⟩ with log := s.log ++ [.used c] ++ [.disposed c] }, ?_, ?_⟩
      · simp only [State.step, hi, Option.bind_eq_bind, Option.bind_some]
        rfl
      · have hset := h.set (i := i) (Object.formed_empty true)
        refine ⟨⟨hset.objs, hset.handedOut⟩, ?_, ?_⟩
        · refine .trans (.single (.use hcell)) (.single ?_)
          unfold State.set
          rw [custody_mk]
          exact .dispose (s := { s.custody with log := s.log ++ [.used c] }) hcell
        · rintro _ ⟨rfl, -⟩ -
          exact ⟨_, Function.update_self .., rfl⟩

/-- An operation that a program may do comes to no error. -/
theorem step_spec (h : s.Formed) {op : Op} (hop : s.Permits op) :
    ∃ s', s.step op = some s' ∧ Does s op s' := by
  cases op with
  | construct i singleUse => exact ⟨_, rfl, construct_does h hop singleUse⟩
  | constructFrom i singleUse => exact ⟨_, rfl, constructFrom_does h hop singleUse⟩
  | moveConstruct i j =>
    obtain ⟨hi, hj⟩ := hop
    obtain ⟨p, hj⟩ := Option.ne_none_iff_exists'.1 hj
    refine ⟨_, ?_, moveConstruct_does h hi hj⟩
    simp only [State.step, hj, Option.bind_eq_bind, Option.bind_some]
    rfl
  | moveAssign i j =>
    obtain ⟨o, p, hi, hj, hkind⟩ := hop
    by_cases hij : i = j
    · subst hij
      refine ⟨s, ?_, h, .refl, ?_⟩
      · simp only [State.step, hi, Option.bind_eq_bind, Option.bind_some, if_true]
      · rintro _ rfl hne
        exact absurd rfl hne
    · refine ⟨_, ?_, moveAssign_does h hi hj hij hkind⟩
      simp only [State.step, hi, hj, Option.bind_eq_bind, Option.bind_some, if_neg hij,
        moveAssign_eq (h.objs i o hi)]
  | assignFrom i =>
    obtain ⟨o, hi⟩ := Option.ne_none_iff_exists'.1 hop
    refine ⟨_, ?_, assignFrom_does h hi⟩
    simp only [State.step, hi, Option.bind_eq_bind, Option.bind_some,
      moveAssign_eq (h.objs i o hi)]
    rfl
  | reset i =>
    obtain ⟨o, hi⟩ := Option.ne_none_iff_exists'.1 hop
    refine ⟨_, ?_, reset_does h hi⟩
    simp only [State.step, hi, Option.bind_eq_bind, Option.bind_some, reset_eq (h.objs i o hi)]
  | resetTo i triple =>
    obtain ⟨o, hi, hmem⟩ := hop
    refine ⟨_, ?_, resetTo_does h hi hmem⟩
    simp only [State.step, hi, Option.bind_eq_bind, Option.bind_some, reset_eq (h.objs i o hi)]
  | release i =>
    obtain ⟨o, hi⟩ := Option.ne_none_iff_exists'.1 hop
    refine ⟨_, ?_, release_does h hi⟩
    simp only [State.step, hi, Option.bind_eq_bind, Option.bind_some]
    rfl
  | invoke i =>
    obtain ⟨o, hi⟩ := Option.ne_none_iff_exists'.1 hop
    exact invoke_does h hi
  | destruct i =>
    obtain ⟨o, hi⟩ := Option.ne_none_iff_exists'.1 hop
    refine ⟨_, ?_, destruct_does h hi⟩
    simp only [State.step, hi, Option.bind_eq_bind, Option.bind_some, reset_eq (h.objs i o hi)]

end Ops

/-! ## Programs -/

theorem init_formed : State.init.Formed :=
  ⟨fun _ _ h => absurd h (Option.some_ne_none _).symm, fun _ h => absurd h List.not_mem_nil⟩

theorem init_custody : State.init.custody.Ok := by
  refine ⟨fun _ => .unmade, fun _ _ => ?_, fun _ => ?_, List.nodup_nil, fun _ => ?_,
    fun _ => iff_of_true rfl (Nat.zero_le _), List.Pairwise.nil⟩
  · exact iff_of_false (fun h => by cases h) fun h => by cases h
  · exact iff_of_false List.not_mem_nil fun h => by cases h
  · exact iff_of_false List.not_mem_nil fun h => by cases h

/-- What holds after any program. -/
theorem runs_inv {program : List Op} {s : State} (h : Runs .init program s) :
    s.Formed ∧ s.custody.Ok := by
  refine Run.inv (P := fun s => s.Formed ∧ s.custody.Ok) ?_ h ⟨init_formed, init_custody⟩
  rintro s op s' ⟨hformed, hok⟩ ⟨hop, hstep⟩
  obtain ⟨s'', hstep', hdoes⟩ := step_spec hformed hop
  obtain rfl : s'' = s' := Option.some.inj (hstep'.symm.trans hstep)
  exact ⟨hdoes.formed, hok.steps hdoes.steps⟩

/-- After any program each callable is held by one object, or was handed out, or was destroyed
once, and none is called or destroyed after it was destroyed. What the program may do next comes to
no error, and leaves the object that it moves from, releases or invokes once with nothing, unless
that is moved to itself. -/
theorem run_sound {program : List Op} {s : State} (h : Runs .init program s) :
    s.custody.Sound ∧ ∀ op, s.Permits op → ∃ s', s.step op = some s' ∧
      ∀ i, s.Source op i → op ≠ .moveAssign i i → s'.HoldsNothing i := by
  obtain ⟨hformed, hok⟩ := runs_inv h
  refine ⟨hok.sound, fun op hop => ?_⟩
  obtain ⟨s', hstep, hdoes⟩ := step_spec hformed hop
  exact ⟨s', hstep, hdoes.emptied⟩

/-- A single-use callable that is moved, invoked and gone. -/
def movedProgram : List Op := [.constructFrom 0 true, .moveConstruct 1 0, .invoke 1]

theorem run_sound_moved : ∃ s, Runs .init movedProgram s ∧ s.custody.Sound ∧
    s.log = [.used 0, .disposed 0] := by
  obtain ⟨s, hrun, hlog⟩ : ∃ s, Runs .init movedProgram s ∧ s.log = [.used 0, .disposed 0] := by
    refine ⟨_, .cons ⟨rfl, rfl⟩ (.cons ⟨⟨rfl, ?_⟩, rfl⟩ (.cons ⟨?_, rfl⟩ (.nil _))), rfl⟩
    · exact Option.some_ne_none _
    · exact Option.some_ne_none _
  exact ⟨s, hrun, (run_sound hrun).1, hlog⟩

/-- An object that is moved to itself keeps what it holds. -/
theorem moveAssign_self_holds : ¬∀ program s op s' i, Runs .init program s → s.Permits op →
    s.step op = some s' → s.Source op i → s'.HoldsNothing i := by
  intro h
  obtain ⟨o, ho, hempty⟩ := h [.constructFrom 0 false] _ (.moveAssign 0 0) _ 0
    (.cons ⟨rfl, rfl⟩ (.nil _)) ⟨_, _, rfl, rfl, rfl⟩ rfl rfl
  rw [← Option.some.inj ho] at hempty
  cases hempty

end Nvcv.Callback
