import CvCuda.Nvcv.Proof.HandleManager

/-! # The size policy of a handle manager

Under a fixed size the resources of the one pool are all there are, and the free ones among them
are those no live handle has; under the dynamic policy a manager grows when it has none left.

* `Limited`: the invariant of a manager and the size its policy allows.
* `step_limited`: every call and every change of the policy keeps it.
* `runs_limited`: when a `create` succeeds after any such sequence.
* `setFixedSize_zero`: the size zero, which is not set.
-/

namespace Nvcv.HandleManager

variable {Obj : Type} {m m' : HandleManager Obj} {L : Ledger}

/-- What `doGrow` throws under a fixed size. -/
def exhausted (m : HandleManager Obj) : Exception :=
  .nvcv .outOfMemory s!"{m.name} handle manager pool exhausted under fixed size policy"

/-- The manager has the policy, and under a fixed size that many resources. -/
structure Limited (s : Sized Obj) : Prop where
  inv : Inv s.manager s.ledger
  fixed : ∀ n, s.limit = some n → s.manager.hasFixedSize = true ∧ s.manager.allSlots.length = n
  dynamic : s.limit = none → s.manager.hasFixedSize = false

/-! ## What the calls leave of the policy -/

/-- The policy is the one it was, and so are the pools if it is fixed. -/
structure SamePolicy (m m' : HandleManager Obj) : Prop where
  hasFixedSize : m'.hasFixedSize = m.hasFixedSize
  allSlots : m.hasFixedSize = true → m'.allSlots = m.allSlots

theorem SamePolicy.refl (m : HandleManager Obj) : SamePolicy m m := ⟨rfl, fun _ => rfl⟩

theorem SamePolicy.trans {m₁ : HandleManager Obj} (h₁ : SamePolicy m m₁) (h₂ : SamePolicy m₁ m') :
    SamePolicy m m' :=
  ⟨h₂.hasFixedSize.trans h₁.hasFixedSize, fun hf =>
    (h₂.allSlots (h₁.hasFixedSize.trans hf)).trans (h₁.allSlots hf)⟩

theorem doGrow_policy {answer : Option Addr} : SamePolicy m (m.doGrow answer).2 := by
  unfold doGrow
  by_cases hf : m.hasFixedSize = true
  · rw [if_pos hf]
    exact .refl m
  · rw [if_neg hf]
    refine ⟨?_, fun h => absurd h hf⟩
    cases answer <;> rfl

theorem fetch_policy {answers : List (Option Addr)} {x : Except Exception Addr}
    (hx : m.doFetchFreeResource answers = some (x, m')) : SamePolicy m m' := by
  induction answers generalizing m with
  | nil =>
    unfold doFetchFreeResource at hx
    cases hfr : m.freeResources with
    | nil => simp [hfr] at hx
    | cons r fs =>
      rw [hfr] at hx
      obtain ⟨rfl, rfl⟩ := Prod.mk.inj (Option.some.inj hx)
      exact ⟨rfl, fun _ => rfl⟩
  | cons answer answers ih =>
    unfold doFetchFreeResource at hx
    cases hfr : m.freeResources with
    | cons r fs =>
      rw [hfr] at hx
      obtain ⟨rfl, rfl⟩ := Prod.mk.inj (Option.some.inj hx)
      exact ⟨rfl, fun _ => rfl⟩
    | nil =>
      rw [hfr] at hx
      have hg : SamePolicy m (m.doGrow answer).2 := doGrow_policy
      rcases hgrow : m.doGrow answer with ⟨⟨e⟩ | ⟨u⟩, m₁⟩
      · rw [hgrow] at hg
        simp only [hgrow, Option.some.injEq, Prod.mk.injEq] at hx
        obtain ⟨rfl, rfl⟩ := hx
        exact hg
      · rw [hgrow] at hg
        simp only [hgrow] at hx
        exact hg.trans (ih hx)

theorem exec_policy {c : Call Obj} {r : Result Obj} (hx : exec m c = some (r, m')) :
    SamePolicy m m' := by
  cases c with
  | create ctor answers =>
    obtain ⟨y, hy, hyr⟩ := Option.map_eq_some_iff.1 hx
    obtain ⟨rfl, rfl⟩ := Prod.mk.inj hyr
    unfold create at hy
    rcases hf : m.doFetchFreeResource answers with _ | ⟨⟨e⟩ | ⟨r⟩, m₁⟩
    · simp [hf] at hy
    · rw [hf] at hy
      obtain rfl := Option.some.inj hy
      exact fetch_policy hf
    · rw [hf] at hy
      cases ctor <;> obtain rfl := Option.some.inj hy <;>
        exact (fetch_policy hf).trans ⟨rfl, fun _ => rfl⟩
  | incRef handle =>
    obtain ⟨rfl, rfl⟩ := Prod.mk.inj (Option.some.inj hx)
    unfold incRef
    cases m.getValidResource handle <;> exact ⟨rfl, fun _ => rfl⟩
  | decRef handle =>
    obtain ⟨rfl, rfl⟩ := Prod.mk.inj (Option.some.inj hx)
    unfold decRef
    split_ifs
    · exact .refl m
    · cases m.getValidResource handle with
      | none => exact .refl m
      | some r =>
        simp only
        split_ifs <;> exact ⟨rfl, fun _ => rfl⟩
  | refCount handle =>
    obtain ⟨rfl, rfl⟩ := Prod.mk.inj (Option.some.inj hx)
    exact .refl m
  | validate handle =>
    obtain ⟨rfl, rfl⟩ := Prod.mk.inj (Option.some.inj hx)
    exact .refl m

/-! ## Changes of the policy -/

theorem length_slots (size : ResourceSize) (p : ResourcePool) : (slots size p).length = p.size := by
  rw [slots, List.length_map, List.length_range]

/-- **`setFixedSize`** of a positive size: it is refused while there are live handles, and else
replaces the pools by one of that size, if there is memory for it. -/
theorem setFixedSize_spec (h : Inv m L) {maxSize : Int32} (hpos : 1 ≤ maxSize)
    {answer : Option Addr}
    (hf : ∀ data, answer = some data →
      FreshPool m.clear data (maxSize - m.totalCapacity).toInt.toNat) :
    (0 < L.live.length ∧ ∃ e, m.setFixedSize maxSize answer = (.error e, m) ∧ e ≠ .badAlloc) ∨
      L.live = [] ∧ (m.setFixedSize maxSize answer).2.hasFixedSize = true ∧
        Inv (m.setFixedSize maxSize answer).2 {} ∧
        ((m.setFixedSize maxSize answer).1 = .ok () ∧ answer ≠ none ∧
            (m.setFixedSize maxSize answer).2.allSlots.length = maxSize.toInt.toNat ∨
          (m.setFixedSize maxSize answer).1 = .error .badAlloc ∧ answer = none ∧
            (m.setFixedSize maxSize answer).2.allSlots.length = 0) := by
  have hused := h.used
  have h0 : (0 : Int32).toInt = 0 := rfl
  unfold HandleManager.setFixedSize
  by_cases hlive : m.usedCount > 0
  · rw [gt_iff_lt, Int32.lt_iff_toInt_lt, hused] at hlive
    rw [if_pos (by rw [gt_iff_lt, Int32.lt_iff_toInt_lt, hused]; exact hlive)]
    exact .inl ⟨by omega, _, rfl, nofun⟩
  · have hnil : L.live = [] := by
      rw [gt_iff_lt, Int32.lt_iff_toInt_lt, hused] at hlive
      exact List.length_eq_zero_iff.1 (by omega)
    have hu : m.usedCount = 0 := by
      apply Int32.toInt_inj.1
      rw [hused, hnil]
      rfl
    have hcap : ¬m.totalCapacity ≥ maxSize := by
      rw [h.capacity, ge_iff_le, Int32.le_iff_toInt_le]
      have := Int32.le_iff_toInt_le.1 hpos
      have h1 : (1 : Int32).toInt = 1 := rfl
      omega
    have hcount : (maxSize - m.totalCapacity).toInt.toNat = maxSize.toInt.toNat := by
      rw [h.capacity, Int32.sub_zero]
    have hclear : Inv { m.clear with hasFixedSize := true } {} := .empty h.capacity rfl rfl hu
    rw [if_neg hlive, if_neg hcap]
    refine .inr ⟨hnil, ?_⟩
    cases answer with
    | none => exact ⟨rfl, hclear, .inr ⟨rfl, rfl, rfl⟩⟩
    | some data =>
      obtain ⟨f1, f2, f3, f4⟩ := hf data rfl
      refine ⟨rfl, hclear.allocate ⟨f1, f2, f3, f4⟩, .inl ⟨rfl, nofun, ?_⟩⟩
      show (slots m.sizeofResource _ ++ []).length = _
      rw [List.append_nil, length_slots, hcount]

theorem setDynamicSize_inv (h : Inv m L) {minSize : Int32} {answer : Option Addr}
    (hf : ∀ data, answer = some data → FreshPool m data minSize.toInt.toNat) :
    Inv (m.setDynamicSize minSize answer).2 L ∧
      (m.setDynamicSize minSize answer).2.hasFixedSize = false := by
  have hdyn : Inv { m with hasFixedSize := false } L :=
    ⟨h.capacity, h.slots_ok, h.slots_nodup, h.places, h.free,
      fun e he => by
        obtain ⟨h1, h2, h3, h4⟩ := h.live e he
        exact ⟨h1, h2, h3, h4⟩,
      fun d hd => by
        obtain ⟨h1, h2, h3⟩ := h.dead d hd
        exact ⟨h1, h2, h3⟩,
      h.used⟩
  unfold HandleManager.setDynamicSize
  by_cases hlt : m.totalCapacity < minSize
  · rw [if_pos (show HandleManager.totalCapacity _ < minSize from hlt)]
    cases answer with
    | none => exact ⟨hdyn, rfl⟩
    | some data =>
      obtain ⟨f1, f2, f3, f4⟩ := hf data rfl
      exact ⟨hdyn.allocate ⟨f1, f2, f3, f4⟩, rfl⟩
  · rw [if_neg (show ¬HandleManager.totalCapacity _ < minSize from hlt)]
    exact ⟨hdyn, rfl⟩

/-! ## Runs -/

/-- A step that sets no size of zero or less, with counts in the range of `int`. -/
def Sized.GoodStep (s : Sized Obj) (e : Sized.Event Obj) (s' : Sized Obj) : Prop :=
  s.Step e s' ∧ s'.ledger.Small ∧ ∀ maxSize answer r, e = .setFixedSize maxSize answer r → 1 ≤ maxSize

/-- **Every good step** keeps the policy in force. -/
theorem step_limited {s s' : Sized Obj} {e : Sized.Event Obj} (h : Limited s)
    (hs : s.GoodStep e s') : Limited s' := by
  obtain ⟨hs, hsmall, hpos⟩ := hs
  obtain ⟨m', L', limit'⟩ := s'
  cases e with
  | call c r =>
    obtain ⟨hp, hx, rfl, rfl⟩ := hs
    have hpol := exec_policy hx
    refine ⟨exec_inv h.inv hp hx hsmall, fun n hn => ?_, fun hn => ?_⟩
    · obtain ⟨h₁, h₂⟩ := h.fixed n hn
      exact ⟨hpol.hasFixedSize.trans h₁, by rw [hpol.allSlots h₁, h₂]⟩
    · exact hpol.hasFixedSize.trans (h.dynamic hn)
  | setFixedSize maxSize answer r =>
    obtain ⟨hf, hx, rfl, rfl⟩ := hs
    rcases setFixedSize_spec h.inv (hpos _ _ _ rfl) hf with
      ⟨-, e, he, hne⟩ | ⟨hnil, hfix, hinv, hres⟩
    · rw [he, Prod.mk.injEq] at hx
      obtain ⟨rfl, rfl⟩ := hx
      cases e with
      | badAlloc => exact absurd rfl hne
      | nvcv code msg => exact ⟨h.inv, h.fixed, h.dynamic⟩
      | logicError msg => exact ⟨h.inv, h.fixed, h.dynamic⟩
    · rw [hx] at hfix hinv hres
      rcases hres with ⟨rfl, -, hlen⟩ | ⟨rfl, -, hlen⟩
      · refine ⟨by rw [Ledger.afterPools, hnil]; exact hinv, fun n hn => ?_, nofun⟩
        cases hn
        exact ⟨hfix, hlen⟩
      · refine ⟨by rw [Ledger.afterPools, hnil]; exact hinv, fun n hn => ?_, nofun⟩
        cases hn
        exact ⟨hfix, hlen⟩
  | setDynamicSize minSize answer r =>
    obtain ⟨hf, hx, rfl, rfl⟩ := hs
    obtain ⟨hinv, hdyn⟩ := setDynamicSize_inv h.inv hf
    rw [hx] at hinv hdyn
    exact ⟨hinv, nofun, fun _ => hdyn⟩

theorem Sized.New.limited {s : Sized Obj} (h : s.New) : Limited s := by
  obtain ⟨name, size, res, rfl⟩ := h
  exact ⟨.empty rfl rfl rfl rfl, nofun, fun _ => rfl⟩

/-! ## When `create` succeeds -/

/-- The result of a `create` that finds a free resource. -/
theorem create_of_free (ctor : Except Exception Obj) (answers : List (Option Addr))
    (hne : m.freeResources ≠ []) :
    ∃ r m', exec m (.create ctor answers) = some (r, m') ∧
      ((∃ obj h, ctor = .ok obj ∧ r = .created h) ∨ ∃ e, ctor = .error e ∧ r = .threw e) := by
  obtain ⟨x, fs, hfr⟩ := List.exists_cons_of_ne_nil hne
  have hfetch : m.doFetchFreeResource answers = some (.ok x,
      { m with freeResources := fs, usedCount := m.usedCount + 1 }.modify x
        fun res => { res with refCount := res.refCount + 1 }) := by
    unfold doFetchFreeResource
    rw [hfr]
  simp only [exec, create, hfetch]
  cases ctor with
  | ok obj => exact ⟨_, _, rfl, .inl ⟨obj, _, rfl, rfl⟩⟩
  | error e => exact ⟨_, _, rfl, .inr ⟨e, rfl, rfl⟩⟩

/-- Under a fixed size, `create` throws when there is no free resource. -/
theorem create_exhausted (ctor : Except Exception Obj) {answers : List (Option Addr)}
    (ha : answers ≠ []) (hfix : m.hasFixedSize = true) (hnil : m.freeResources = []) :
    exec m (.create ctor answers) = some (.threw m.exhausted, m) := by
  obtain ⟨a, as, rfl⟩ := List.exists_cons_of_ne_nil ha
  have hgrow : m.doGrow a = (.error m.exhausted, m) := if_pos hfix
  have hfetch : m.doFetchFreeResource (a :: as) = some (.error m.exhausted, m) := by
    unfold doFetchFreeResource
    simp only [hnil, hgrow]
  simp only [exec, create, hfetch]
  rfl

/-- Under the dynamic policy, `create` finds a free resource once there is memory for more. -/
theorem create_dynamic (h : Inv m L) (hdyn : m.hasFixedSize = false) (obj : Obj) (data : Addr)
    (answers : List (Option Addr)) :
    ∃ x m', exec m (.create (.ok obj) (some data :: answers)) = some (.created x, m') := by
  by_cases hne : m.freeResources = []
  · have hgrow : m.doGrow (some data) = (.ok (), (doAllocate (some data) kMinHandles m).2) := by
      unfold doGrow
      rw [if_neg (by rw [hdyn]; decide), if_neg (not_not.2 h.capacity)]
      rfl
    obtain ⟨x, fs, hcons⟩ : ∃ x fs,
        (doAllocate (some data) kMinHandles m).2.freeResources = x :: fs := by
      refine List.exists_cons_of_ne_nil fun hnil => ?_
      have hlen := congrArg List.length (List.append_eq_nil_iff.1 hnil).1
      rw [length_slots] at hlen
      exact absurd hlen (show kMinHandles ≠ 0 by decide)
    have hfetch : m.doFetchFreeResource (some data :: answers) =
        (doAllocate (some data) kMinHandles m).2.doFetchFreeResource answers := by
      rw [doFetchFreeResource]
      simp only [hne, hgrow]
    obtain ⟨r, m', hx, hr⟩ := create_of_free (m := (doAllocate (some data) kMinHandles m).2)
      (.ok obj) answers (by rw [hcons]; exact List.cons_ne_nil _ _)
    rcases hr with ⟨_, y, -, rfl⟩ | ⟨e, he, -⟩
    · refine ⟨y, m', ?_⟩
      rw [← hx]
      simp only [exec, create, hfetch]
    · cases he
  · obtain ⟨r, m', hx, hr⟩ := create_of_free (.ok obj) (some data :: answers) hne
    rcases hr with ⟨_, y, -, rfl⟩ | ⟨e, he, -⟩
    · exact ⟨y, m', hx⟩
    · cases he

theorem Limited.free_length {s : Sized Obj} (h : Limited s) {n : Nat} (hn : s.limit = some n) :
    s.manager.freeResources.length + s.ledger.live.length = n := by
  rw [← (h.fixed n hn).2, ← h.inv.places.length_eq, List.length_append, List.length_map]

/-- **The size policy.** After every sequence of calls and of changes of the policy to positive
fixed sizes and to the dynamic one: under a fixed size of `n`, an object whose constructor does not
throw is created exactly when fewer than `n` handles are live, and otherwise `create` throws;
under the dynamic policy every `create` succeeds for which the system has memory; and with no live
handles a fixed size is set if the system has memory for it. -/
theorem runs_limited {s₀ s : Sized Obj} {es : List (Sized.Event Obj)} (h₀ : s₀.New)
    (hr : Run Sized.GoodStep s₀ es s) :
    (∀ n, s.limit = some n → ∀ ctor answers, answers ≠ [] →
      ∃ r m', exec s.manager (.create ctor answers) = some (r, m') ∧
        (s.ledger.live.length < n →
          (∃ obj h, ctor = .ok obj ∧ r = .created h) ∨ ∃ e, ctor = .error e ∧ r = .threw e) ∧
        (n ≤ s.ledger.live.length → r = .threw s.manager.exhausted)) ∧
      (s.limit = none → ∀ obj data answers, ∃ h m',
        exec s.manager (.create (.ok obj) (some data :: answers)) = some (.created h, m')) ∧
      ∀ maxSize data, 1 ≤ maxSize → s.ledger.live = [] →
        FreshPool s.manager.clear data (maxSize - s.manager.totalCapacity).toInt.toNat →
        (s.manager.setFixedSize maxSize (some data)).1 = .ok () := by
  have h : Limited s := hr.inv (fun _ _ _ h hs => step_limited h hs) h₀.limited
  refine ⟨fun n hn ctor answers ha => ?_, fun hn obj data answers => ?_,
    fun maxSize data hpos hnil hf => ?_⟩
  · have hlen := h.free_length hn
    by_cases hfree : s.manager.freeResources = []
    · rw [hfree, List.length_nil, Nat.zero_add] at hlen
      refine ⟨_, _, create_exhausted ctor ha (h.fixed n hn).1 hfree, fun hlt => ?_, fun _ => rfl⟩
      omega
    · obtain ⟨r, m', hx, hres⟩ := create_of_free ctor answers hfree
      refine ⟨r, m', hx, fun _ => hres, fun hle => ?_⟩
      have := List.length_pos_iff.2 hfree
      omega
  · exact create_dynamic h.inv (h.dynamic hn) obj data answers
  · have hdata : ∀ d, some data = some d →
        FreshPool s.manager.clear d (maxSize - s.manager.totalCapacity).toInt.toNat :=
      fun d hd => Option.some.inj hd ▸ hf
    rcases setFixedSize_spec h.inv hpos hdata with
      ⟨hlive, -⟩ | ⟨-, -, -, ⟨hok, -⟩ | ⟨-, hno, -⟩⟩
    · rw [hnil] at hlive
      exact absurd hlive (Nat.lt_irrefl 0)
    · exact hok
    · cases hno

/-! ## A manager of one resource -/

/-- A new manager. -/
def newSized : Sized Unit where
  manager := { name := "Object", sizeofResource := single.sizeofResource, res := fun _ => {} }

theorem newSized_new : newSized.New := ⟨_, _, _, rfl⟩

/-- With a fixed size of 1 and one live handle, another `create` throws. -/
theorem runs_limited_one :
    ∃ (s : Sized Unit) (es : List (Sized.Event Unit)), Run Sized.GoodStep newSized es s ∧
      s.limit = some 1 ∧ s.ledger.live = [(4097, 1)] ∧
      ∃ m', exec s.manager (.create (.ok ()) [none]) = some (.threw s.manager.exhausted, m') := by
  have h₁ : newSized.GoodStep (.setFixedSize 1 (some 4096) (.ok ()))
      { manager := single, limit := some 1 } := by
    refine ⟨⟨fun data hd => ?_, rfl, rfl, rfl⟩, ⟨show 0 < 2 ^ 31 by decide, nofun⟩, ?_⟩
    · obtain rfl := Option.some.inj hd
      exact ⟨by decide, by decide, by decide, nofun⟩
    · intro maxSize answer r he
      cases he
      decide
  have h₂ : Sized.GoodStep { manager := single, limit := some 1 }
      (.call (.create (.ok ()) []) (.created 4097))
      { manager := singleLive, ledger := { live := [(4097, 1)] }, limit := some 1 } := by
    refine ⟨⟨nofun, rfl, rfl, rfl⟩, ⟨show 1 < 2 ^ 31 by decide, fun e he => ?_⟩, nofun⟩
    rw [List.mem_singleton.1 he]
    show 1 < 2 ^ 31
    decide
  have hr := Run.cons h₁ (.cons h₂ (.nil _))
  obtain ⟨r, m', hx, -, hthrew⟩ :=
    (runs_limited newSized_new hr).1 1 rfl (.ok ()) [none] (List.cons_ne_nil _ _)
  exact ⟨_, _, hr, rfl, rfl, m', by rw [hx, hthrew (Nat.le_refl 1)]⟩

/-- A fixed size of 0 is accepted and not set. -/
theorem setFixedSize_zero :
    ∃ (s₀ s : Sized Unit) (es : List (Sized.Event Unit)), s₀.New ∧ Run Sized.Step s₀ es s ∧
      s.limit = some 0 ∧ s.ledger.live = [] ∧
      ∃ h m', exec s.manager (.create (.ok ()) [some 4096]) = some (.created h, m') := by
  have h₁ : newSized.Step (.setFixedSize 0 none (.ok ())) { newSized with limit := some 0 } :=
    ⟨nofun, rfl, rfl, rfl⟩
  refine ⟨_, _, _, newSized_new, .cons h₁ (.nil _), rfl, rfl, ?_⟩
  exact create_dynamic newSized_new.limited.inv rfl () 4096 []

end Nvcv.HandleManager
