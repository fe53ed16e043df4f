import CvCuda.Lib.Int64
import CvCuda.Nvcvpy.Cache

/-! # The accounts of the cache

* `step_accounted_iff`: from a state whose size is that of its items, an operation leads to such a
  state if, and only if, it is `Sound`: an instance that resets the shared size is the only one
  that holds bytes, `clear` drops none, and the new size does not overflow.
* `runs_accounted`: **the accounts are right** in every state that sound operations reach.
* `reset_loses_items`: two threads, and a limit that one item of each exceeds.
-/

namespace Nvcvpy

namespace Cache

open Tally

section
variable {C K : Type}

/-! ## Sums of bytes -/

theorem bytes_nonneg (items : List (CacheItem K)) : 0 ≤ bytes items :=
  listWeight_nonneg (fun x => by simpa using Int64.le_iff_toInt_le.1 x.nonneg) items

theorem bytes_cons (item : CacheItem K) (items : List (CacheItem K)) :
    bytes (item :: items) = item.sizeInBytes.toInt + bytes items :=
  listWeight_cons _ _ _

/-- The loop of the destructor. -/
theorem foldl_sub {items : List (CacheItem K)} {size : Int64} (h : bytes items ≤ size.toInt) :
    (items.foldl (fun size node => size - node.sizeInBytes) size).toInt =
      size.toInt - bytes items := by
  induction items generalizing size with
  | nil => simp [bytes]
  | cons item items ih =>
    rw [bytes_cons] at h ⊢
    have hn := bytes_nonneg items
    have hi := Int64.le_iff_toInt_le.1 item.nonneg
    have hlt := size.toInt_lt
    rw [Int64.toInt_zero] at hi
    have hs := Int64.toInt_sub_of_range (a := size) (b := item.sizeInBytes) (by omega) (by omega)
    rw [List.foldl_cons, ih (by omega), hs]
    omega

/-- The loop of `removeAllNotInUseMatching`: the size falls by what is removed. -/
theorem removeLoop_spec [DecidableEq K] (key : K) (inUse : Nat → Bool)
    {items : List (CacheItem K)} (i : Nat) {size : Int64} (h : bytes items ≤ size.toInt) :
    ∃ left size', removeLoop key inUse i items size = (left, size') ∧
      size'.toInt = size.toInt - (bytes items - bytes left) ∧ bytes left ≤ bytes items := by
  induction items generalizing i size with
  | nil => exact ⟨[], size, rfl, by omega, le_refl _⟩
  | cons item items ih =>
    rw [bytes_cons] at h ⊢
    have hn := bytes_nonneg items
    have hi := Int64.le_iff_toInt_le.1 item.nonneg
    rw [Int64.toInt_zero] at hi
    have h' : bytes items ≤ size.toInt := by omega
    unfold removeLoop
    by_cases hk : item.key = key
    · rw [if_neg (not_not_intro hk)]
      by_cases hu : inUse i = true
      · rw [if_pos hu]
        obtain ⟨left, size', he, hs, hle⟩ := ih (i + 1) h'
        rw [he]
        exact ⟨_, _, rfl, by rw [bytes_cons]; omega, by rw [bytes_cons]; omega⟩
      · rw [if_neg hu]
        have hlt := size.toInt_lt
        have hsub := Int64.toInt_sub_of_range (a := size) (b := item.sizeInBytes) (by omega)
          (by omega)
        obtain ⟨left, size', he, hs, hle⟩ := ih (i + 1)
          (by omega : bytes items ≤ (size - item.sizeInBytes).toInt)
        exact ⟨left, size', he, by omega, by omega⟩
    · rw [if_pos hk]
      obtain ⟨left, size', he, hs, hle⟩ := ih i h'
      rw [he]
      exact ⟨_, _, rfl, by rw [bytes_cons]; omega, by rw [bytes_cons]; omega⟩

end

section
variable {C K : Type} [DecidableEq C] {s s' : Cache C K} {c : C}

theorem others_nonneg (s : Cache C K) (c : C) : 0 ≤ s.others c :=
  total_nonneg fun x => by simpa using Int64.le_iff_toInt_le.1 x.nonneg

theorem total_eq (hc : c ∈ s.instances) : s.total = bytes (s.items c) + s.others c :=
  Tally.total_eq hc

/-- The items of one instance change. -/
theorem total_of_update (hc : c ∈ s.instances) {items : List (CacheItem K)}
    (hi : s'.instances = s.instances) (hu : s'.items = Function.update s.items c items) :
    s'.total = bytes items + s.others c := by
  unfold total others
  rw [hi, hu]
  exact total_update hc items

/-! ## The condition -/

/-- What the accounts rest on: only an instance that alone holds bytes resets the size or drops
its items, and the new size does not overflow. -/
def Sound (s : Cache C K) : Op C K → Prop
  | .add c item => item.sizeInBytes ≤ s.cacheLimitInbytes →
      item.sizeInBytes.toInt + s.currentSizeInbytes.toInt < 2 ^ 63 ∧
        (s.cacheLimitInbytes.toInt < item.sizeInBytes.toInt + s.currentSizeInbytes.toInt →
          s.others c = 0)
  | .clear c => bytes (s.items c) = 0
  | .setCacheLimit c limit memGetInfo => 0 ≤ limit → memGetInfo = .ok () →
      limit < s.currentSizeInbytes → s.others c = 0
  | _ => True

/-- An instance resets the size to that of the items it then has: right where the others hold
nothing. -/
theorem reset_accounted_iff (hc : c ∈ s.instances) (items : List (CacheItem K))
    (hi : s'.instances = s.instances) (hu : s'.items = Function.update s.items c items)
    (hcur : s'.currentSizeInbytes.toInt = bytes items) (hn : 0 ≤ s'.currentSizeInbytes)
    (hl : s'.currentSizeInbytes ≤ s'.cacheLimitInbytes) : s'.Accounted ↔ s.others c = 0 := by
  have htot := total_of_update hc hi hu
  constructor
  · intro h
    have := h.sum
    omega
  · intro ho
    exact ⟨by omega, hn, hl⟩

/-! ## One operation -/

/-- An item larger than the limit is not added. -/
theorem add_big {item : CacheItem K} (hbig : item.sizeInBytes > s.cacheLimitInbytes) :
    s.add c item = s := if_pos hbig

/-- An item that fits beside what is held. -/
theorem add_kept {item : CacheItem K} (hle : item.sizeInBytes ≤ s.cacheLimitInbytes)
    (hfit : item.sizeInBytes + s.currentSizeInbytes ≤ s.cacheLimitInbytes) :
    s.add c item =
      { s with
        items := Function.update s.items c (item :: s.items c)
        currentSizeInbytes := s.currentSizeInbytes + item.sizeInBytes } := by
  unfold add
  rw [if_neg (Int64.not_lt.2 hle), if_neg (Int64.not_lt.2 hfit)]

/-- An item before which the caller's items are dropped. -/
theorem add_cleared {item : CacheItem K} (hle : item.sizeInBytes ≤ s.cacheLimitInbytes)
    (hgt : item.sizeInBytes + s.currentSizeInbytes > s.cacheLimitInbytes) :
    s.add c item =
      { s with
        items := Function.update s.items c [item]
        currentSizeInbytes := item.sizeInBytes } := by
  unfold add
  rw [if_neg (Int64.not_lt.2 hle), if_pos hgt]
  simp

section
variable (h : s.Accounted)
include h

theorem construct_accounted (hc : c ∉ s.instances) : (s.construct c).Accounted where
  sum := h.sum.trans (total_insert hc).symm
  nonneg := h.nonneg
  le_limit := h.le_limit

theorem bytes_le_size (hc : c ∈ s.instances) :
    bytes (s.items c) ≤ s.currentSizeInbytes.toInt := by
  rw [h.sum, total_eq hc]
  have := others_nonneg s c
  omega

omit [DecidableEq C] in
/-- A size that has fallen to what is held is in its bounds. -/
theorem fallen_accounted (hsum : s'.currentSizeInbytes.toInt = s'.total) (hn : 0 ≤ s'.total)
    (hle : s'.total ≤ s.total) (hlim : s'.cacheLimitInbytes = s.cacheLimitInbytes) :
    s'.Accounted where
  sum := hsum
  nonneg := by
    rw [Int64.le_iff_toInt_le, hsum]
    exact hn
  le_limit := by
    have := Int64.le_iff_toInt_le.1 h.le_limit
    rw [Int64.le_iff_toInt_le, hlim, hsum]
    exact hle.trans (h.sum ▸ this)

theorem destroy_accounted (hc : c ∈ s.instances) : (s.destroy c).Accounted := by
  have hle := bytes_le_size h hc
  have htot : (s.destroy c).total = s.others c :=
    total_congr fun d hd => Function.update_of_ne (Finset.ne_of_mem_erase hd) _ _
  have hsum : (s.destroy c).currentSizeInbytes.toInt = s.others c := by
    have := total_eq hc
    rw [destroy, foldl_sub hle, h.sum]
    omega
  have := bytes_nonneg (s.items c)
  refine fallen_accounted h (hsum.trans htot.symm) ?_ ?_ rfl
  · rw [htot]
    exact others_nonneg s c
  · rw [htot, total_eq hc]
    omega

theorem remove_accounted [DecidableEq K] (hc : c ∈ s.instances) (key : K) (inUse : Nat → Bool) :
    (s.removeAllNotInUseMatching c key inUse).Accounted := by
  obtain ⟨left, size, he, hsize, hle⟩ := removeLoop_spec key inUse 0
    (bytes_le_size h hc)
  have hs' : s.removeAllNotInUseMatching c key inUse =
      { s with items := Function.update s.items c left, currentSizeInbytes := size } := by
    rw [removeAllNotInUseMatching, he]
  have htot : (s.removeAllNotInUseMatching c key inUse).total = bytes left + s.others c := by
    rw [hs']
    exact total_of_update hc rfl rfl
  have hsum := total_eq hc
  have hn := bytes_nonneg left
  have ho := others_nonneg s c
  refine fallen_accounted h ?_ ?_ ?_ (by rw [hs'])
  · rw [htot, hs', hsize, h.sum]
    omega
  · omega
  · omega

theorem clear_accounted_iff (hc : c ∈ s.instances) :
    (s.clear c).Accounted ↔ bytes (s.items c) = 0 := by
  have htot : (s.clear c).total = s.others c := by
    have : (s.clear c).total = bytes [] + s.others c := total_of_update hc rfl rfl
    simpa [bytes] using this
  have hsum := h.sum.trans (total_eq hc)
  constructor
  · intro h'
    have := h'.sum.trans htot
    have hcur : (s.clear c).currentSizeInbytes = s.currentSizeInbytes := rfl
    rw [hcur] at this
    omega
  · intro h0
    exact ⟨by rw [htot]; show s.currentSizeInbytes.toInt = _; omega, h.nonneg, h.le_limit⟩

theorem clearAll_accounted : s.clearAll.Accounted where
  sum := (total_empty fun _ hc => if_pos hc).symm
  nonneg := Int64.le_refl 0
  le_limit := Int64.le_trans h.nonneg h.le_limit

/-- The limit is set, and where the size exceeds it, the caller's items are dropped. -/
theorem setCacheLimit_accounted_iff (hc : c ∈ s.instances) (limit : Int64)
    (memGetInfo : Except Exception Unit) :
    (s.setCacheLimit c limit memGetInfo).2.Accounted ↔
      (0 ≤ limit → memGetInfo = .ok () → limit < s.currentSizeInbytes → s.others c = 0) := by
  unfold setCacheLimit
  by_cases hneg : limit < 0
  · rw [if_pos hneg]
    refine iff_of_true h fun h0 => absurd hneg ?_
    rw [Int64.lt_iff_toInt_lt]
    rw [Int64.le_iff_toInt_le] at h0
    omega
  · have h0 : 0 ≤ limit := Int64.not_lt.1 hneg
    rw [if_neg hneg]
    rcases memGetInfo with e | u
    · exact iff_of_true h fun _ hm => by cases hm
    · dsimp only
      by_cases hgt : s.currentSizeInbytes > limit
      · rw [if_pos hgt]
        refine Iff.trans (b := s.others c = 0) ?_ ⟨fun ho _ _ _ => ho, fun ho => ho h0 rfl hgt⟩
        apply reset_accounted_iff hc []
        · rfl
        · rfl
        · rfl
        · exact Int64.le_refl 0
        · exact h0
      · rw [if_neg hgt]
        exact iff_of_true ⟨h.sum, h.nonneg, Int64.not_lt.1 hgt⟩ fun _ _ hlt => absurd hlt hgt

theorem add_accounted_iff (hc : c ∈ s.instances) (item : CacheItem K) :
    (s.add c item).Accounted ↔ (item.sizeInBytes ≤ s.cacheLimitInbytes →
      item.sizeInBytes.toInt + s.currentSizeInbytes.toInt < 2 ^ 63 ∧
        (s.cacheLimitInbytes.toInt < item.sizeInBytes.toInt + s.currentSizeInbytes.toInt →
          s.others c = 0)) := by
  have hi := Int64.le_iff_toInt_le.1 item.nonneg
  have hcur := Int64.le_iff_toInt_le.1 h.nonneg
  have hlim := Int64.le_iff_toInt_le.1 h.le_limit
  have hmax := item.sizeInBytes.toInt_lt
  have hmax' := s.currentSizeInbytes.toInt_lt
  rw [Int64.toInt_zero] at hi hcur
  by_cases hbig : item.sizeInBytes > s.cacheLimitInbytes
  · rw [add_big hbig]
    exact iff_of_true h fun hle => absurd hbig (Int64.not_lt.2 hle)
  have hle := Int64.not_lt.1 hbig
  simp only [hle, forall_const]
  by_cases hover : 2 ^ 63 ≤ item.sizeInBytes.toInt + s.currentSizeInbytes.toInt
  · -- the sum wraps, and compares as less than the limit
    have hwrap := Int64.toInt_add_of_overflow hover
    rw [add_kept hle (by rw [Int64.le_iff_toInt_le]; omega)]
    refine iff_of_false (fun h' => ?_) fun hs => absurd hs.1 (by omega)
    have hn := Int64.le_iff_toInt_le.1 h'.nonneg
    rw [Int64.toInt_zero] at hn
    rw [Int64.add_comm] at hwrap
    dsimp only at hn
    omega
  · have hadd := Int64.toInt_add_of_range (a := item.sizeInBytes) (b := s.currentSizeInbytes)
      (by omega) (by omega)
    by_cases hclear : item.sizeInBytes + s.currentSizeInbytes > s.cacheLimitInbytes
    · have hgt : s.cacheLimitInbytes.toInt <
          item.sizeInBytes.toInt + s.currentSizeInbytes.toInt := by
        rwa [gt_iff_lt, Int64.lt_iff_toInt_lt, hadd] at hclear
      rw [add_cleared hle hclear]
      refine Iff.trans (b := s.others c = 0) ?_
        ⟨fun ho => ⟨by omega, fun _ => ho⟩, fun hs => hs.2 hgt⟩
      apply reset_accounted_iff hc [item]
      · rfl
      · rfl
      · simp [bytes]
      · exact item.nonneg
      · exact hle
    · have hfit := Int64.not_lt.1 hclear
      rw [add_kept hle hfit]
      rw [Int64.le_iff_toInt_le, hadd] at hfit
      rw [Int64.add_comm] at hadd
      refine iff_of_true ⟨?_, ?_, ?_⟩ ⟨by omega, fun hgt => absurd hgt (by omega)⟩
      · have htot : Cache.total { s with
            items := Function.update s.items c (item :: s.items c)
            currentSizeInbytes := s.currentSizeInbytes + item.sizeInBytes } =
              bytes (item :: s.items c) + s.others c := by
          apply total_of_update hc
          · rfl
          · rfl
        have hsum := h.sum.trans (total_eq hc)
        rw [htot, bytes_cons, hadd]
        omega
      · rw [Int64.le_iff_toInt_le, hadd, Int64.toInt_zero]
        omega
      · rw [Int64.le_iff_toInt_le, hadd]
        show _ ≤ s.cacheLimitInbytes.toInt
        omega

/-- **One operation**: the accounts stay right exactly where it is sound. -/
theorem step_accounted_iff [DecidableEq K] {op : Op C K} (hs : s.Step op s') :
    s'.Accounted ↔ s.Sound op := by
  rw [hs.eq]
  cases op with
  | construct c => exact iff_of_true (construct_accounted h (hs.new c rfl)) trivial
  | destroy c => exact iff_of_true (destroy_accounted h (hs.live c rfl)) trivial
  | add c item => exact add_accounted_iff h (hs.live c rfl) item
  | removeAllNotInUseMatching c key inUse =>
    exact iff_of_true (remove_accounted h (hs.live c rfl) key inUse) trivial
  | clear c => exact clear_accounted_iff h (hs.live c rfl)
  | clearAll => exact iff_of_true (clearAll_accounted h) trivial
  | setCacheLimit c limit memGetInfo =>
    exact setCacheLimit_accounted_iff h (hs.live c rfl) limit memGetInfo

end

end

/-! ## Runs -/

theorem static_accounted {C K : Type} : (static : Cache C K).Accounted :=
  ⟨rfl, Int64.le_refl 0, Int64.le_refl 0⟩

section
variable {C K : Type} [DecidableEq C] [DecidableEq K]

/-- A step whose operation is sound. -/
def SoundStep (s : Cache C K) (op : Op C K) (s' : Cache C K) : Prop := s.Sound op ∧ s.Step op s'

/-- **The size is that of the items held, and within the limit**, in every state that sound
operations of any threads reach. -/
theorem runs_accounted {ops : List (Op C K)} {s : Cache C K} (hr : Run SoundStep static ops s) :
    s.currentSizeInbytes.toInt = s.total ∧ 0 ≤ s.currentSizeInbytes ∧
      s.currentSizeInbytes ≤ s.cacheLimitInbytes := by
  have h : s.Accounted :=
    hr.inv (fun _ _ _ h hs => (step_accounted_iff h hs.2).2 hs.1) static_accounted
  exact ⟨h.sum, h.nonneg, h.le_limit⟩

end

/-- An item of 100 bytes. -/
def tensor : CacheItem Nat := ⟨7, 100, by decide⟩

/-- The state after an operation. -/
def after (s : Cache Nat Nat) (op : Op Nat Nat) : Cache Nat Nat := (s.exec op).2

/-- Two instances, and a limit that two items exceed. -/
def twoThreads : Cache Nat Nat :=
  ((static.after (.construct 1)).after (.construct 2)).after (.setCacheLimit 1 150 (.ok ()))

theorem step_twoThreads (c : Nat) (hc : c ∈ ({1, 2} : Finset Nat)) {s : Cache Nat Nat}
    (hs : s.instances = {1, 2}) {op : Op Nat Nat} (hop : op.caller = some c)
    (hnew : ∀ d, op ≠ .construct d) : s.Step op (s.after op) := by
  refine ⟨fun d hd => ?_, fun d hd => absurd hd (hnew d), rfl⟩
  cases hop.symm.trans hd
  rw [hs]
  exact hc

theorem twoThreads_run : Run SoundStep static
    [.construct 1, .construct 2, .setCacheLimit 1 150 (.ok ())] twoThreads := by
  have h₁ : SoundStep (static : Cache Nat Nat) (.construct 1) (static.after (.construct 1)) :=
    ⟨trivial, nofun, fun c hc => by cases hc; decide, rfl⟩
  have h₂ : SoundStep (static.after (.construct 1)) (.construct 2)
      ((static.after (.construct 1)).after (.construct 2)) :=
    ⟨trivial, nofun, fun c hc => by cases hc; decide, rfl⟩
  have h₃ : SoundStep ((static.after (.construct 1)).after (.construct 2))
      (.setCacheLimit 1 150 (.ok ())) twoThreads :=
    ⟨fun _ _ h => absurd h (by decide),
      step_twoThreads 1 (by decide) (by decide) rfl nofun⟩
  exact .cons h₁ (.cons h₂ (.cons h₃ (.nil _)))

/-- One of the instances adds an item. -/
theorem runs_accounted_twoThreads : ∃ (ops : List (Op Nat Nat)) (s : Cache Nat Nat), Run SoundStep static ops s ∧
    s.currentSizeInbytes = 100 ∧ s.currentSizeInbytes.toInt = s.total := by
  have h₄ : twoThreads.Step (.add 1 tensor) (twoThreads.after (.add 1 tensor)) :=
    step_twoThreads 1 (by decide) (by decide) rfl nofun
  have hs : twoThreads.Sound (.add 1 tensor) := fun _ => ⟨by decide, fun h => absurd h (by decide)⟩
  have hr := twoThreads_run.append (.cons ⟨hs, h₄⟩ (.nil _))
  exact ⟨_, _, hr, rfl, (runs_accounted hr).1⟩

/-- **The accounts go wrong.** Each instance adds an item, which together exceed the limit: the
second resets the size, and when both are destroyed it is negative. And an instance that clears its
items leaves the size as it was. -/
theorem reset_loses_items :
    (∃ (ops : List (Op Nat Nat)) (s : Cache Nat Nat), Run Step static ops s ∧
      s.currentSizeInbytes.toInt = 100 ∧ s.total = 200 ∧ s.cacheLimitInbytes.toInt = 150) ∧
    (∃ (ops : List (Op Nat Nat)) (s : Cache Nat Nat), Run Step static ops s ∧
      s.currentSizeInbytes.toInt = -100 ∧ s.total = 0) ∧
    ∃ (ops : List (Op Nat Nat)) (s : Cache Nat Nat), Run Step static ops s ∧
      s.currentSizeInbytes.toInt = 100 ∧ s.total = 0 := by
  have h₀ := twoThreads_run.mono fun _ _ _ h => h.2
  have h₁ : twoThreads.Step (.add 1 tensor) (twoThreads.after (.add 1 tensor)) :=
    step_twoThreads 1 (by decide) (by decide) rfl nofun
  have h₂ : (twoThreads.after (.add 1 tensor)).Step (.add 2 tensor)
      ((twoThreads.after (.add 1 tensor)).after (.add 2 tensor)) :=
    step_twoThreads 2 (by decide) (by decide) rfl nofun
  have h₃ : ((twoThreads.after (.add 1 tensor)).after (.add 2 tensor)).Step (.destroy 1)
      (((twoThreads.after (.add 1 tensor)).after (.add 2 tensor)).after (.destroy 1)) :=
    step_twoThreads 1 (by decide) (by decide) rfl nofun
  have h₄ : (((twoThreads.after (.add 1 tensor)).after (.add 2 tensor)).after (.destroy 1)).Step
      (.destroy 2) _ :=
    ⟨fun c hc => by cases hc; decide, nofun, rfl⟩
  have h₅ : (twoThreads.after (.add 1 tensor)).Step (.clear 1)
      ((twoThreads.after (.add 1 tensor)).after (.clear 1)) :=
    step_twoThreads 1 (by decide) (by decide) rfl nofun
  exact ⟨⟨_, _, h₀.append (.cons h₁ (.cons h₂ (.nil _))), by decide, by decide, by decide⟩,
    ⟨_, _, h₀.append (.cons h₁ (.cons h₂ (.cons h₃ (.cons h₄ (.nil _))))), by decide, by decide⟩,
    ⟨_, _, h₀.append (.cons h₁ (.cons h₅ (.nil _))), by decide, by decide⟩⟩

end Cache

end Nvcvpy
