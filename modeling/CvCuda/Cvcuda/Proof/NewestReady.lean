import CvCuda.Cvcuda.NewestReady
import CvCuda.Cvcuda.Proof.PerStreamCache
import CvCuda.Cvcuda.StreamCacheSession

/-! # The newest item that is ready

On a list that gets ready from its oldest item on, `findNewestReady` finds the newest item that is
ready, with no access outside the filled part of its array; no call changes what is ready.

* `Asked`: what asking items does to their nodes.
* `fill_path`, `bisect_returns`: one section, and the search in it.
* `newest_exact`: the whole search.
* `newest_refines`: it is the search on the list of items.
-/

namespace Cvcuda.StreamCacheNodes

open Nvcv Outcome StreamCachePayload

variable {P E : Type} [StreamCachePayload P E]

/-- The item is ready, by its flag, for want of an event, or by its event. -/
def Ready (completed : E → Bool) (mem : StreamCacheNodes P) (item : Nat) : Prop :=
  (mem item).wasReady ∨ (ready (mem item).payload).all completed

instance (completed : E → Bool) (mem : StreamCacheNodes P) (item : Nat) :
    Decidable (mem.Ready completed item) := inferInstanceAs (Decidable (_ ∨ _))

/-- Flags of ready items may be set, and nothing else. -/
def Asked (completed : E → Bool) (mem mem' : StreamCacheNodes P) : Prop :=
  ∀ p, mem' p = mem p ∨ mem.Ready completed p ∧ mem' p = { mem p with wasReady := true }

section
variable {completed : E → Bool} {mem mem' mem'' : StreamCacheNodes P} {p : Nat}

theorem Asked.refl : Asked completed mem mem := fun _ => .inl rfl

theorem Asked.prev (h : Asked completed mem mem') : (mem' p).prev = (mem p).prev := by
  rcases h p with h | ⟨-, h⟩ <;> rw [h]

theorem Asked.payload (h : Asked completed mem mem') : (mem' p).payload = (mem p).payload := by
  rcases h p with h | ⟨-, h⟩ <;> rw [h]

theorem Asked.wasReady (h : Asked completed mem mem') (hp : (mem p).wasReady) :
    (mem' p).wasReady := by
  rcases h p with h | ⟨-, h⟩
  · rwa [h]
  · rw [h]

/-- What is ready stays so, and nothing else gets ready. -/
theorem Asked.ready_iff (h : Asked completed mem mem') :
    mem'.Ready completed p ↔ mem.Ready completed p := by
  rcases h p with h | ⟨hp, h⟩
  · rw [Ready, Ready, h]
  · exact iff_of_true (.inl (by rw [h])) hp

theorem Asked.trans (h : Asked completed mem mem') (h' : Asked completed mem' mem'') :
    Asked completed mem mem'' := by
  intro p
  rcases h' p with h' | ⟨hp, h'⟩
  · rw [h']
    exact h p
  · refine .inr ⟨h.ready_iff.1 hp, ?_⟩
    rcases h p with h | ⟨-, h⟩ <;> rw [h', h]

theorem asked_setReady (hp : mem.Ready completed p) : Asked completed mem (mem.setReady p) := by
  intro q
  by_cases hq : q = p
  · subst hq
    exact .inr ⟨hp, Function.update_self ..⟩
  · exact .inl (Function.update_of_ne hq ..)

theorem setReady_wasReady (mem : StreamCacheNodes P) (p : Nat) :
    (mem.setReady p p).wasReady := by
  rw [setReady, Function.update_self]

/-- `isReady` answers whether an item is ready, and a ready one has its flag then. -/
theorem isReady_returns (completed : E → Bool) (mem : StreamCacheNodes P) (p : Nat) :
    ∃ mem', Returns (isReady (fun e => .ok (completed e)) p mem)
        (decide (mem.Ready completed p), mem') ∧ Asked completed mem mem' ∧
      (mem.Ready completed p → (mem' p).wasReady) := by
  rw [isReady]
  by_cases hw : (mem p).wasReady
  · refine ⟨mem, ?_, .refl, fun _ => hw⟩
    rw [if_pos hw, decide_eq_true (.inl hw)]
    exact returns_pure.2 rfl
  rw [if_neg hw]
  cases he : ready (mem p).payload with
  | none =>
    have hr : mem.Ready completed p := .inr (by rw [he]; rfl)
    refine ⟨mem.setReady p, ?_, asked_setReady hr, fun _ => setReady_wasReady mem p⟩
    rw [decide_eq_true hr]
    exact returns_pure.2 rfl
  | some ev =>
    by_cases hc : completed ev
    · have hr : mem.Ready completed p := .inr (by rw [he]; exact hc)
      refine ⟨mem.setReady p, ?_, asked_setReady hr, fun _ => setReady_wasReady mem p⟩
      rw [decide_eq_true hr]
      refine returns_bind.2 ⟨completed ev, returns_ofExcept.2 rfl, ?_⟩
      rw [if_pos hc]
      exact returns_pure.2 rfl
    · have hr : ¬mem.Ready completed p := by
        rw [Ready, he]
        exact not_or.2 ⟨hw, hc⟩
      refine ⟨mem, ?_, .refl, fun h => absurd h hr⟩
      rw [decide_eq_false hr]
      refine returns_bind.2 ⟨completed ev, returns_ofExcept.2 rfl, ?_⟩
      rw [if_neg hc]
      exact returns_pure.2 rfl

end

/-! ## One section -/

section
variable {mem : StreamCacheNodes P} {l : List Nat}

/-- The array is filled with the next items, and the loop stops where the others start. -/
theorem fill_path {room it : Nat} (hl : LinkPath (fun p => (mem p).prev) it l 0) (h0 : 0 ∉ l) :
    (mem.fill room it).1 = l.take room ∧
      LinkPath (fun p => (mem p).prev) (mem.fill room it).2 (l.drop room) 0 := by
  induction room generalizing it l with
  | zero => exact ⟨rfl, hl⟩
  | succ room ih =>
    rw [fill]
    cases l with
    | nil =>
      obtain rfl : it = 0 := hl
      exact ⟨rfl, rfl⟩
    | cons p l =>
      obtain ⟨rfl, hl⟩ := hl
      obtain ⟨h, h'⟩ := ih hl fun hm => h0 (.tail _ hm)
      have hit : it ≠ 0 := by
        rintro rfl
        exact h0 (.head _)
      rw [if_neg hit]
      exact ⟨congrArg _ h, h'⟩

/-- Of a path with an item, the head is the item. -/
theorem path_cons {p : Nat} (hl : LinkPath (fun p => (mem p).prev) p l 0) (hp : p ≠ 0) :
    ∃ l', l = p :: l' ∧ LinkPath (fun p => (mem p).prev) (mem p).prev l' 0 := by
  cases l with
  | nil => exact absurd hl hp
  | cons q l =>
    obtain ⟨rfl, hl⟩ := hl
    exact ⟨l, rfl, hl⟩

/-- `insert` puts an item before the others. -/
theorem path_insert {item head tail : Nat} (hnew : (mem item).prev = 0)
    (hl : LinkPath (fun p => (mem p).prev) tail l 0) (h0 : 0 ∉ l) (hni : item ∉ l) :
    (mem.insert item head tail).2.1 = item ∧
      LinkPath (fun p => ((mem.insert item head tail).2.2 p).prev) item (item :: l) 0 := by
  rw [insert]
  split_ifs with ht
  · subst ht
    refine ⟨rfl, rfl, ?_⟩
    cases l with
    | nil => exact hnew
    | cons q l =>
      obtain ⟨rfl, -⟩ := hl
      exact absurd (.head _) h0
  · have hti : item ≠ tail := by
      rintro rfl
      obtain ⟨l', rfl, -⟩ := path_cons hl ht
      exact hni (.head _)
    have hprev : ∀ p, p ≠ item → ((mem.insert item head tail).2.2 p).prev = (mem p).prev := by
      intro p hp
      simp only [insert, if_neg ht]
      grind [Function.update_apply]
    have hitem : ((mem.insert item head tail).2.2 item).prev = tail := by
      simp only [insert, if_neg ht]
      grind [Function.update_apply]
    refine ⟨rfl, rfl, ?_⟩
    simp only [insert, if_neg ht] at hprev hitem
    simp only [hitem]
    exact hl.congr fun p hp => hprev p fun he => hni (he ▸ hp)

end

section
variable {completed : E → Bool} {mem : StreamCacheNodes P} {tmp : List Nat} {k : Nat}

/-- The search ends at the boundary `k`, which is in the array, and whose item was asked. -/
theorem bisect_returns {fuel lo hi : Nat} (hk : ∀ i p, tmp[i]? = some p →
      (mem.Ready completed p ↔ k ≤ i)) (hlen : k < tmp.length) (hlo : lo ≤ k) (hhi : k ≤ hi)
    (hle : hi ≤ tmp.length) (hfuel : hi ≤ lo + fuel)
    (hasked : ∀ p, tmp[hi]? = some p → (mem p).wasReady) :
    ∃ mem', Returns (bisect (fun e => .ok (completed e)) tmp fuel lo hi ((lo + hi) / 2) mem)
        (k, mem') ∧ Asked completed mem mem' ∧ ∀ p, tmp[k]? = some p → (mem' p).wasReady := by
  induction fuel generalizing lo hi mem with
  | zero =>
    have hlk : lo = k := by omega
    have hhk : hi = k := by omega
    subst hlk hhk
    rw [bisect, if_neg (Nat.lt_irrefl _)]
    refine ⟨mem, returns_pure.2 ?_, .refl, hasked⟩
    rw [show (hi + hi) / 2 = hi by omega]
  | succ fuel ih =>
    rw [bisect]
    by_cases hlt : lo < hi
    · rw [if_pos hlt]
      have hm : (lo + hi) / 2 < tmp.length := by omega
      obtain ⟨mem₁, hret, hask, hflag⟩ := isReady_returns completed mem tmp[(lo + hi) / 2]
      have hget := List.getElem?_eq_getElem hm
      have hk₁ : ∀ i p, tmp[i]? = some p → (mem₁.Ready completed p ↔ k ≤ i) :=
        fun i p hp => hask.ready_iff.trans (hk i p hp)
      have hiff := hk _ _ hget
      by_cases hkm : k ≤ (lo + hi) / 2
      · -- the boundary is not behind the middle, which was asked
        have hready := hiff.2 hkm
        obtain ⟨mem₂, hret₂, hask₂, hfin⟩ := ih hk₁ hlo hkm hm.le (by omega) fun p hp => by
          rw [hget] at hp
          cases hp
          exact hflag hready
        refine ⟨mem₂, ?_, hask.trans hask₂, hfin⟩
        refine returns_bind.2 ⟨_, returns_lift.2 hget, returns_bind.2 ⟨_, hret, ?_⟩⟩
        rw [if_pos (decide_eq_true hready)]
        exact hret₂
      · have hready := fun h => hkm (hiff.1 h)
        have hlo₁ : (lo + hi) / 2 + 1 ≤ k := Nat.lt_of_not_le hkm
        obtain ⟨mem₂, hret₂, hask₂, hfin⟩ := ih hk₁ hlo₁ hhi hle (by omega) fun p hp =>
          hask.wasReady (hasked p hp)
        refine ⟨mem₂, ?_, hask.trans hask₂, hfin⟩
        refine returns_bind.2 ⟨_, returns_lift.2 hget, returns_bind.2 ⟨_, hret, ?_⟩⟩
        rw [if_neg fun h => hready (of_decide_eq_true h)]
        exact hret₂
    · have hlk : lo = k := by omega
      have hhk : hi = k := by omega
      subst hlk hhk
      rw [if_neg hlt]
      refine ⟨mem, returns_pure.2 ?_, .refl, hasked⟩
      rw [show (hi + hi) / 2 = hi by omega]

end

/-! ## The whole list -/

/-- `r` is the newest ready item of a list from the newest to the oldest, or null. -/
def Newest (completed : E → Bool) (mem : StreamCacheNodes P) (l : List Nat) (r : Nat) : Prop :=
  (r = 0 ↔ ∀ p ∈ l, ¬mem.Ready completed p) ∧
    (r ≠ 0 → ∃ newer older, l = newer ++ r :: older ∧ mem.Ready completed r ∧
      ∀ p ∈ newer, ¬mem.Ready completed p)

section
variable {completed : E → Bool} {mem : StreamCacheNodes P} {l front : List Nat} {r p : Nat}

/-- In a list that gets ready from its end on, an item is ready from a boundary on. -/
theorem exists_boundary (hm : l.Pairwise fun p q => mem.Ready completed p → mem.Ready completed q)
    (hlast : ∃ p ∈ l, mem.Ready completed p) :
    ∃ k < l.length, ∀ i p, l[i]? = some p → (mem.Ready completed p ↔ k ≤ i) := by
  induction l with
  | nil => simp at hlast
  | cons q l ih =>
    obtain ⟨hq, hl⟩ := List.pairwise_cons.1 hm
    by_cases hqr : mem.Ready completed q
    · refine ⟨0, Nat.succ_pos _, fun i p hp => iff_of_true ?_ (Nat.zero_le i)⟩
      rcases List.mem_cons.1 (List.mem_of_getElem? hp) with rfl | hp
      · exact hqr
      · exact hq p hp hqr
    · obtain ⟨p, hp, hpr⟩ := hlast
      have hpl : p ∈ l := (List.mem_cons.1 hp).resolve_left fun he => hqr (he ▸ hpr)
      obtain ⟨k, hk, hiff⟩ := ih hl ⟨p, hpl, hpr⟩
      refine ⟨k + 1, Nat.succ_lt_succ hk, fun i p hp => ?_⟩
      cases i with
      | zero =>
        cases hp
        exact iff_of_false hqr (Nat.not_succ_le_zero k)
      | succ i => rw [hiff i p hp, Nat.succ_le_succ_iff]

/-- Where the last item of a section is not ready, none is. -/
theorem not_ready_of_last (hm : l.Pairwise fun p q => mem.Ready completed p → mem.Ready completed q)
    (hl : l[l.length - 1]? = some r) (hr : ¬mem.Ready completed r) :
    ∀ p ∈ l, ¬mem.Ready completed p := by
  intro p hp hready
  obtain ⟨k, hk, hiff⟩ := exists_boundary hm ⟨p, hp, hready⟩
  exact hr ((hiff _ r hl).2 (by omega))

theorem newest_nil : Newest completed mem [] 0 := ⟨iff_of_true rfl (by simp), fun h => absurd rfl h⟩

theorem newest_head (hp : p ≠ 0) (h : mem.Ready completed p) : Newest completed mem (p :: l) p :=
  ⟨iff_of_false hp fun hn => hn p (.head _) h, fun _ => ⟨[], l, rfl, h, by simp⟩⟩

/-- Items that are not ready do not matter. -/
theorem Newest.append (h : Newest completed mem l r)
    (hf : ∀ p ∈ front, ¬mem.Ready completed p) : Newest completed mem (front ++ l) r := by
  refine ⟨?_, fun hr => ?_⟩
  · rw [List.forall_mem_append, h.1, and_iff_right hf]
  · obtain ⟨newer, older, rfl, hready, hnewer⟩ := h.2 hr
    refine ⟨front ++ newer, older, (List.append_assoc ..).symm, hready, ?_⟩
    exact List.forall_mem_append.2 ⟨hf, hnewer⟩

theorem Newest.congr {mem' : StreamCacheNodes P} (h : Newest completed mem' l r)
    (hask : Asked completed mem mem') : Newest completed mem l r := by
  simpa only [Newest, hask.ready_iff] using h

/-- What is at the boundary of a section is the newest ready item. -/
theorem newest_boundary {k : Nat} (hp : l[k]? = some p) (h0 : p ≠ 0)
    (hk : ∀ i p, l[i]? = some p → (mem.Ready completed p ↔ k ≤ i)) :
    Newest completed mem l p := by
  obtain ⟨hlt, rfl⟩ := List.getElem?_eq_some_iff.1 hp
  have hready := (hk k _ hp).2 le_rfl
  refine ⟨iff_of_false h0 fun hn => hn _ (List.getElem_mem hlt) hready, fun _ => ?_⟩
  refine ⟨l.take k, l.drop (k + 1), ?_, hready, fun q hq hqr => ?_⟩
  · rw [← List.drop_eq_getElem_cons hlt, List.take_append_drop]
  · obtain ⟨i, hi, rfl⟩ := List.getElem_of_mem hq
    rw [List.length_take] at hi
    rw [List.getElem_take] at hqr
    have hle := (hk i _ (List.getElem?_eq_getElem (by omega))).1 hqr
    omega

end

/-- **`findNewestReady` is exact**: on every list that gets ready from its oldest item on it returns
the newest ready item, or null where none is ready; its accesses are inside its array, and of the
nodes only flags of ready items change. -/
theorem newest_exact (completed : E → Bool) {mem : StreamCacheNodes P} {tail : Nat} {l : List Nat}
    (hl : LinkPath (fun p => (mem p).prev) tail l 0) (h0 : 0 ∉ l)
    (hm : l.Pairwise fun p q => mem.Ready completed p → mem.Ready completed q)
    {fuel : Nat} (hf : l.length ≤ fuel) :
    ∃ r mem', Returns (findNewestReady (fun e => .ok (completed e)) fuel tail mem) (r, mem') ∧
      Newest completed mem l r ∧ Asked completed mem mem' := by
  induction fuel generalizing mem tail l with
  | zero =>
    obtain rfl : l = [] := List.length_eq_zero_iff.1 (Nat.le_zero.1 hf)
    obtain rfl : tail = 0 := hl
    exact ⟨0, mem, returns_pure.2 rfl, newest_nil, .refl⟩
  | succ fuel ih =>
    rw [findNewestReady]
    by_cases ht : tail = 0
    · subst ht
      cases l with
      | cons p l => exact absurd (hl.1 ▸ .head _) h0
      | nil => exact ⟨0, mem, returns_pure.2 rfl, newest_nil, .refl⟩
    rw [if_neg ht]
    obtain ⟨l, rfl, hl'⟩ := path_cons hl ht
    obtain ⟨hhead, hm⟩ := List.pairwise_cons.1 hm
    have h0l : 0 ∉ l := fun h => h0 (.tail _ h)
    obtain ⟨mem₁, hret₁, hask₁, -⟩ := isReady_returns completed mem tail
    by_cases hr : mem.Ready completed tail
    · refine ⟨tail, mem₁, ?_, newest_head ht hr, hask₁⟩
      refine returns_bind.2 ⟨_, hret₁, ?_⟩
      rw [if_pos (decide_eq_true hr)]
      exact returns_pure.2 rfl
    have hfront : ∀ p ∈ [tail], ¬mem.Ready completed p := by
      intro p hp
      rwa [List.mem_singleton.1 hp]
    have hl₁ : LinkPath (fun p => (mem₁ p).prev) (mem₁ tail).prev l 0 := by
      rw [hask₁.prev]
      exact hl'.congr fun p _ => hask₁.prev
    have hsection : (mem₁.fill 256 (mem₁ tail).prev).1 = l.take 256 ∧
        LinkPath (fun p => (mem₁ p).prev) (mem₁.fill 256 (mem₁ tail).prev).2 (l.drop 256) 0 :=
      fill_path hl₁ h0l
    obtain ⟨hfill, hrest⟩ := hsection
    have htail : ¬decide (mem.Ready completed tail) = true := fun h => hr (of_decide_eq_true h)
    by_cases hnil : l = []
    · subst hnil
      refine ⟨0, mem₁, returns_bind.2 ⟨_, hret₁, ?_⟩, newest_nil.append hfront, hask₁⟩
      simp only [hfill]
      rw [if_neg htail]
      exact returns_pure.2 rfl
    have hpos : (l.take 256).length ≠ 0 := by
      have := List.length_pos_iff.2 hnil
      rw [List.length_take]
      omega
    obtain ⟨last, hlast⟩ : ∃ last, (l.take 256)[(l.take 256).length - 1]? = some last :=
      ⟨_, List.getElem?_eq_getElem (by omega)⟩
    obtain ⟨mem₂, hret₂, hask₂, -⟩ := isReady_returns completed mem₁ last
    have hask := hask₁.trans hask₂
    have hmem : last ∈ l.take 256 := List.mem_of_getElem? hlast
    have hmt := hm.sublist (List.take_sublist 256 l)
    by_cases hlr : mem.Ready completed last
    · -- the boundary is in this section
      obtain ⟨k, hkl, hiff⟩ := exists_boundary hm ⟨last, List.mem_of_mem_take hmem, hlr⟩
      have htake : ∀ i p, (l.take 256)[i]? = some p → (mem.Ready completed p ↔ k ≤ i) := by
        intro i p hp
        rw [List.getElem?_take] at hp
        split_ifs at hp
        exact hiff i p hp
      have hk : k < (l.take 256).length := by
        have := (htake _ _ hlast).1 hlr
        omega
      have hkp := List.getElem?_eq_getElem hk
      obtain ⟨mem₃, hret₃, hask₃, hflag⟩ := bisect_returns
        (fun i p hp => hask.ready_iff.trans (htake i p hp)) hk (Nat.zero_le k) hk.le le_rfl
        (Nat.le_add_left _ _) fun p hp => by simp at hp
      have hnz : (l.take 256)[k] ≠ 0 := fun h =>
        h0l (List.mem_of_mem_take (h ▸ List.getElem_mem hk))
      have hkl' : l[k]? = some (l.take 256)[k] := by
        rw [List.getElem_take]
        exact List.getElem?_eq_getElem hkl
      have hnew := (newest_boundary hkl' hnz hiff).append hfront
      refine ⟨_, mem₃, returns_bind.2 ⟨_, hret₁, ?_⟩, hnew, hask.trans hask₃⟩
      simp only [hfill]
      rw [if_neg htail, if_neg hpos]
      refine returns_bind.2 ⟨_, returns_lift.2 hlast, returns_bind.2 ⟨_, hret₂, ?_⟩⟩
      rw [if_pos (decide_eq_true (hask₁.ready_iff.2 hlr))]
      refine returns_bind.2 ⟨_, hret₃, returns_bind.2 ⟨_, returns_lift.2 hkp, ?_⟩⟩
      rw [if_pos (hflag _ hkp)]
      exact returns_pure.2 rfl
    · have hlr₁ : ¬decide (mem₁.Ready completed last) = true := fun h =>
        hlr (hask₁.ready_iff.1 (of_decide_eq_true h))
      have hrest₂ : LinkPath (fun p => (mem₂ p).prev) (mem₁.fill 256 (mem₁ tail).prev).2
          (l.drop 256) 0 := hrest.congr fun p _ => hask₂.prev
      have hm₂ : (l.drop 256).Pairwise fun p q =>
          mem₂.Ready completed p → mem₂.Ready completed q := by
        simpa only [hask.ready_iff] using hm.sublist (List.drop_sublist 256 l)
      have hlen : (l.drop 256).length ≤ fuel := by
        rw [List.length_cons] at hf
        rw [List.length_drop]
        omega
      obtain ⟨r, mem₃, hret₃, hnewest, hask₃⟩ :=
        ih hrest₂ (fun h => h0l (List.mem_of_mem_drop h)) hm₂ hlen
      have hnew := ((hnewest.congr hask).append (not_ready_of_last hmt hlast hlr)).append hfront
      rw [List.take_append_drop] at hnew
      refine ⟨r, mem₃, returns_bind.2 ⟨_, hret₁, ?_⟩, hnew, hask.trans hask₃⟩
      simp only [hfill]
      rw [if_neg htail, if_neg hpos]
      refine returns_bind.2 ⟨_, returns_lift.2 hlast, returns_bind.2 ⟨_, hret₂, ?_⟩⟩
      rw [if_neg hlr₁]
      exact hret₃

/-- Three items, of which the first two are completed. -/
theorem newest_exact_three :
    let mem : StreamCacheNodes DummyPayload := fun p => { prev := p - 1, payload := ⟨8, 1, some p⟩ }
    ∃ r mem', Returns (findNewestReady (fun e => .ok (decide (e ≤ 2))) 3 3 mem) (r, mem') ∧
      Newest (fun e => decide (e ≤ 2)) mem [3, 2, 1] r ∧
      Asked (fun e => decide (e ≤ 2)) mem mem' :=
  newest_exact (fun e => decide (e ≤ 2)) (by decide) (by decide) (by decide) (by decide)

/-! ## The list of items -/

section
variable {completed : E → Bool} {mem : StreamCacheNodes P} {l : List Nat} {r r' : Nat}

theorem Newest.find? (h : Newest completed mem l r) (hr : r ≠ 0) :
    l.find? (mem.Ready completed ·) = some r := by
  obtain ⟨newer, older, rfl, hready, hnewer⟩ := h.2 hr
  rw [List.find?_append, List.find?_eq_none.2 fun p hp => by simpa using hnewer p hp,
    Option.none_or]
  exact List.find?_cons_of_pos (decide_eq_true hready)

theorem Newest.unique (h : Newest completed mem l r) (h' : Newest completed mem l r') :
    r = r' := by
  by_cases hr : r = 0
  · rw [hr, h'.1.2 (h.1.1 hr)]
  · have hr' : r' ≠ 0 := fun he => hr (h.1.2 (h'.1.1 he))
    exact Option.some.inj ((h.find? hr).symm.trans (h'.find? hr'))

end

/-- The search on the list finds the newest ready item. -/
theorem newest_model {completed : E → Bool} {mem : StreamCacheNodes P} (c : StreamOrderedCache P)
    (h0 : ∀ i ∈ c.items, i.addr ≠ 0)
    (hmem : ∀ i ∈ c.items, (mem.Ready completed i.addr ↔ i.isReady completed))
    (hm : c.items.Pairwise fun i j => j.isReady completed → i.isReady completed) :
    Newest completed mem (c.items.reverse.map StreamCacheItem.addr)
      (((c.findNewestReady completed).bind List.head?).elim 0 StreamCacheItem.addr) := by
  have hrev := List.pairwise_reverse.2 hm
  -- a ready item is found or is behind what is found
  have hfind : ∀ newer i older, c.items.reverse = newer ++ i :: older → i.isReady completed →
      ∃ l', c.findNewestReady completed = some l' ∧ i :: older <:+ l' := by
    intro newer i older he hi
    rw [he] at hrev
    have hlen : (newer ++ i :: older).length ≤ c.items.length := by
      rw [← he, List.length_reverse]
    have hall : ∀ j ∈ i :: older, j.isReady completed := by
      intro j hj
      rcases List.mem_cons.1 hj with rfl | hj
      · exact hi
      · exact (List.pairwise_cons.1 (List.pairwise_append.1 hrev).2.1).1 j hj hi
    have := SectionSearch.find_mem (by decide : 0 < 256) hlen hall
    rwa [← he] at this
  cases hf : c.findNewestReady completed with
  | none =>
    refine ⟨iff_of_true rfl fun p hp => ?_, fun h => absurd rfl h⟩
    obtain ⟨i, hi, rfl⟩ := List.mem_map.1 hp
    rw [hmem i (List.mem_reverse.1 hi)]
    intro hready
    obtain ⟨newer, older, he⟩ := List.append_of_mem hi
    obtain ⟨l', hl', -⟩ := hfind newer i older he hready
    rw [hf] at hl'
    cases hl'
  | some l' =>
    obtain ⟨⟨newer, hl⟩, y, ys, rfl, hy⟩ := SectionSearch.find_suffix hf
    have hyi : y ∈ c.items := List.mem_reverse.1 (hl ▸ by simp)
    have hyr := (hmem y hyi).2 hy
    refine ⟨iff_of_false (h0 y hyi) fun hn => hn y.addr ?_ hyr, fun _ => ?_⟩
    · exact List.mem_map_of_mem (List.mem_reverse.2 hyi)
    · refine ⟨newer.map StreamCacheItem.addr, ys.map StreamCacheItem.addr, ?_, hyr, ?_⟩
      · rw [← hl, List.map_append, List.map_cons]
        rfl
      · intro p hp hready
        obtain ⟨i, hi, rfl⟩ := List.mem_map.1 hp
        obtain ⟨a, b, rfl⟩ := List.append_of_mem hi
        rw [List.append_assoc, List.cons_append] at hl
        have hir := (hmem i (List.mem_reverse.1 (hl ▸ by simp))).1 hready
        obtain ⟨l', hl', hs⟩ := hfind a i _ hl.symm hir
        rw [hf] at hl'
        cases hl'
        have := hs.length_le
        simp only [List.length_cons, List.length_append] at this
        omega

/-- **Refinement**: on the nodes, the search returns what it returns on the list of items. -/
theorem newest_refines {completed : E → Bool} {mem : StreamCacheNodes P} {tail : Nat}
    (c : StreamOrderedCache P)
    (hl : LinkPath (fun p => (mem p).prev) tail (c.items.reverse.map StreamCacheItem.addr) 0)
    (h0 : ∀ i ∈ c.items, i.addr ≠ 0)
    (hmem : ∀ i ∈ c.items, (mem.Ready completed i.addr ↔ i.isReady completed))
    (hm : c.items.Pairwise fun i j => j.isReady completed → i.isReady completed) :
    ∃ mem', Returns (findNewestReady (fun e => .ok (completed e)) c.items.length tail mem)
      (((c.findNewestReady completed).bind List.head?).elim 0 StreamCacheItem.addr, mem') := by
  have h0' : 0 ∉ c.items.reverse.map StreamCacheItem.addr := by
    rw [List.mem_map]
    rintro ⟨i, hi, he⟩
    exact h0 i (List.mem_reverse.1 hi) he
  have hm' : (c.items.reverse.map StreamCacheItem.addr).Pairwise fun p q =>
      mem.Ready completed p → mem.Ready completed q := by
    rw [List.pairwise_map, List.pairwise_reverse]
    refine hm.imp_of_mem fun {i j} hi hj h => ?_
    rw [hmem j hj, hmem i hi]
    exact h
  have hlen : (c.items.reverse.map StreamCacheItem.addr).length ≤ c.items.length := by
    rw [List.length_map, List.length_reverse]
  obtain ⟨r, mem', hret, hnew, -⟩ := newest_exact completed hl h0' hm' hlen
  rw [hnew.unique (newest_model c h0 hmem hm)] at hret
  exact ⟨mem', hret⟩

end Cvcuda.StreamCacheNodes
