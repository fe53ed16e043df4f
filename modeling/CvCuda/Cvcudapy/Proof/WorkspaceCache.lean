import CvCuda.Cvcudapy.WorkspaceCache
import CvCuda.Cvcuda.Proof.PerStreamCache

/-! # What leases hold

A block is with one lease or once in the cache of its kind, whatever fails. The count of a kind is
raised before the calls that may fail, though, and lowered where a memory that is not empty is put.

* `Owns`: a cache owns its blocks but those of the memories that are out.
* `leases_own`: runs in which calls fail.
* `leases_accounted`: the counts, in runs in which none does.
* `lost_count`: an allocation that fails.
-/

namespace Cvcudapy

open Nvcv Cvcuda

variable {E : Type}

/-! ## A kind of memory -/

namespace WorkspaceMemCache

/-- What the allocator has given out is in the cache or with the memories that are out. -/
structure Owns (c : WorkspaceMemCache E) (out : List (CachedWorkspaceMem E)) : Prop where
  consistent : c.memCache.Consistent
  live : c.heap.live.Perm
    ((c.memCache.contents ++ out.filter CachedWorkspaceMem.nonEmpty).map CachedWorkspaceMem.block)
  once : (c.heap.live.map Block.data).Nodup
  faults : c.heap.faults = []
  cached : ∀ m ∈ c.memCache.contents, m.nonEmpty ∧ m.destructor
  out : ∀ m ∈ out, m.nonEmpty → m.destructor

variable {c c' : WorkspaceMemCache E} {m : CachedWorkspaceMem E}
  {out out' : List (CachedWorkspaceMem E)} {fn : CuStreamGetId} {stream : Option MUstream}

theorem Owns.start : ({} : WorkspaceMemCache E).Owns [] where
  consistent := .empty
  live := List.Perm.refl _
  once := List.nodup_nil
  faults := rfl
  cached _ hm := by cases hm
  out _ hm := by cases hm

theorem Owns.perm (h : c.Owns out) (hp : out.Perm out') : c.Owns out' where
  consistent := h.consistent
  live := h.live.trans (((hp.filter _).append_left _).map _)
  once := h.once
  faults := h.faults
  cached := h.cached
  out m hm := h.out m (hp.mem_iff.2 hm)

/-- An empty memory owns nothing. -/
theorem Owns.cons_empty (h : c.Owns out) (hm : m.nonEmpty = false) : c.Owns (m :: out) where
  consistent := h.consistent
  live := by
    rw [List.filter_cons, hm]
    exact h.live
  once := h.once
  faults := h.faults
  cached := h.cached
  out m' hm' hne := by
    rcases List.mem_cons.1 hm' with rfl | hm'
    · rw [hm] at hne
      cases hne
    · exact h.out m' hm' hne

/-- A memory that is destroyed frees its block, once and as it was allocated. -/
theorem Owns.destroy (h : c.Owns (m :: out)) : (c.destroy m).Owns out := by
  have hout : ∀ m' ∈ out, m'.nonEmpty → m'.destructor := fun m' hm' =>
    h.out m' (List.mem_cons_of_mem _ hm')
  have hlive := h.live
  rw [List.filter_cons] at hlive
  by_cases hm : m.nonEmpty
  · have hd : m.block.data ≠ 0 := of_decide_eq_true hm
    rw [if_pos hm, List.map_append, List.map_cons] at hlive
    replace hlive := hlive.trans List.perm_middle
    rw [← List.map_append] at hlive
    have hmem : m.block ∈ c.heap.live := hlive.mem_iff.2 List.mem_cons_self
    have hheap : (m.reset c.heap).2 = { c.heap with live := c.heap.live.erase m.block } := by
      rw [CachedWorkspaceMem.reset, h.out m List.mem_cons_self hm, if_pos rfl, Heap.free,
        if_neg hd, if_pos hmem]
    refine ⟨h.consistent, ?_, ?_, ?_, h.cached, hout⟩
    · rw [WorkspaceMemCache.destroy, hheap]
      have he := hlive.erase m.block
      rwa [List.erase_cons_head] at he
    · rw [WorkspaceMemCache.destroy, hheap]
      exact h.once.sublist (List.erase_sublist.map _)
    · rw [WorkspaceMemCache.destroy, hheap]
      exact h.faults
  · have hd : m.block.data = 0 := not_not.1 fun h => hm (decide_eq_true h)
    rw [if_neg hm] at hlive
    have hheap : (m.reset c.heap).2 = c.heap := by
      rw [CachedWorkspaceMem.reset, Heap.free, if_pos hd, ite_self]
    have hc : c.destroy m = c := by rw [WorkspaceMemCache.destroy, hheap]
    rw [hc]
    exact ⟨h.consistent, hlive, h.once, h.faults, h.cached, hout⟩

theorem Owns.destroyAll {ms : List (CachedWorkspaceMem E)} (h : c.Owns (ms ++ out)) :
    (ms.foldl WorkspaceMemCache.destroy c).Owns out := by
  induction ms generalizing c with
  | nil => exact h
  | cons m ms ih => exact ih h.destroy

theorem Owns.clear (h : c.Owns out) : c.clear.Owns out := by
  obtain ⟨hcontents, hpurge⟩ := h.consistent.purge
  have hall : c.memCache.contents.filter CachedWorkspaceMem.nonEmpty = c.memCache.contents :=
    List.filter_eq_self.2 fun m hm => (h.cached m hm).1
  refine Owns.destroyAll ⟨hpurge, ?_, h.once, h.faults, ?_, ?_⟩
  · rw [hcontents, List.nil_append, List.filter_append, hall]
    exact h.live
  · rw [hcontents]
    intro m hm
    cases hm
  · intro m hm hne
    rcases List.mem_append.1 hm with hm | hm
    · exact (h.cached m hm).2
    · exact h.out m hm hne

theorem Owns.put {a : PutAnswers E} (h : c.Owns (m :: out)) (hm : m.nonEmpty)
    (hnew : a.new ∉ c.memCache.free ++ c.memCache.items.map StreamCacheItem.addr)
    (hp : c.put fn a m stream = .ok c') : c'.Owns out := by
  unfold WorkspaceMemCache.put at hp
  cases hput : c.memCache.put fn a.caller a.query a.new m stream with
  | error e =>
    simp only [hput] at hp
    cases hp
  | ok memCache =>
    simp only [hput] at hp
    cases hp
    obtain ⟨hperm, hc⟩ := h.consistent.put hnew hput
    refine ⟨hc, ?_, h.once, h.faults, ?_, fun m' hm' => h.out m' (List.mem_cons_of_mem _ hm')⟩
    · refine h.live.trans (List.Perm.map _ ?_)
      rw [List.filter_cons, if_pos hm]
      exact List.perm_middle.trans (hperm.symm.append_right _)
    · intro m' hm'
      rcases List.mem_cons.1 (hperm.mem_iff.1 hm') with rfl | hm'
      · exact ⟨hm, h.out m' List.mem_cons_self hm⟩
      · exact h.cached m' hm'

section
variable {a : GetAnswers E} {req : WorkspaceMemRequirements}

/-- What a call of `get` comes to. -/
inductive Gets (c : WorkspaceMemCache E) (fn : CuStreamGetId) (a : GetAnswers E)
    (req : WorkspaceMemRequirements) (stream : Option MUstream) :
    Except Exception (CachedWorkspaceMem E) → WorkspaceMemCache E → Prop where
  | empty (hs : req.size = 0) : Gets c fn a req stream (.ok {}) c
  | stream {e : Exception} (hs : req.size ≠ 0)
      (h : c.memCache.get fn a.caller a.queries req.size.toNat req.alignment.toNat stream = .error e) :
      Gets c fn a req stream (.error e) { c with outstandingAllocs := c.outstandingAllocs + 1 }
  | cached {mem : CachedWorkspaceMem E} {memCache : PerStreamCache (CachedWorkspaceMem E)}
      (hs : req.size ≠ 0)
      (h : c.memCache.get fn a.caller a.queries req.size.toNat req.alignment.toNat stream =
        .ok (some mem, memCache)) :
      Gets c fn a req stream (.ok mem)
        { c with outstandingAllocs := c.outstandingAllocs + 1, memCache }
  | fails {e : Exception} {memCache : PerStreamCache (CachedWorkspaceMem E)} (hs : req.size ≠ 0)
      (h : c.memCache.get fn a.caller a.queries req.size.toNat req.alignment.toNat stream =
        .ok (none, memCache)) (he : a.event = .error e ∨ a.data = .error e) :
      Gets c fn a req stream (.error e)
        { c with outstandingAllocs := c.outstandingAllocs + 1, memCache }
  | new {evt : E} {data : SizeT} {memCache : PerStreamCache (CachedWorkspaceMem E)}
      (hs : req.size ≠ 0)
      (h : c.memCache.get fn a.caller a.queries req.size.toNat req.alignment.toNat stream =
        .ok (none, memCache)) (hevt : a.event = .ok evt) (hdata : a.data = .ok data) :
      Gets c fn a req stream (.ok ⟨⟨req, data, some evt⟩, true⟩) {
        outstandingAllocs := c.outstandingAllocs + 1
        memCache
        heap := c.heap.alloc ⟨data, req.size, req.alignment⟩ }

theorem gets {r : Except Exception (CachedWorkspaceMem E)}
    (hg : c.get fn a req stream = (r, c')) : Gets c fn a req stream r c' := by
  unfold WorkspaceMemCache.get at hg
  split_ifs at hg with hs
  · cases hg
    exact .empty hs
  · cases hget : c.memCache.get fn a.caller a.queries req.size.toNat req.alignment.toNat stream with
    | error e =>
      simp only [hget] at hg
      cases hg
      exact .stream hs hget
    | ok om =>
      obtain ⟨o, memCache⟩ := om
      cases o with
      | some mem =>
        simp only [hget] at hg
        cases hg
        exact .cached hs hget
      | none =>
        unfold WorkspaceMemCache.create at hg
        cases hevt : a.event with
        | error e =>
          simp only [hget, hevt] at hg
          cases hg
          exact .fails hs hget (.inl hevt)
        | ok evt =>
          cases hdata : a.data with
          | error e =>
            simp only [hget, hevt, hdata] at hg
            cases hg
            exact .fails hs hget (.inr hdata)
          | ok data =>
            simp only [hget, hevt, hdata] at hg
            cases hg
            exact .new hs hget hevt hdata

/-- A cache that answered `none` holds what it held. -/
theorem Owns.moved {memCache : PerStreamCache (CachedWorkspaceMem E)}
    {o : Option (CachedWorkspaceMem E)} {n : Int32} (h : c.Owns out)
    (hget : c.memCache.get fn a.caller a.queries req.size.toNat req.alignment.toNat stream =
      .ok (o, memCache)) :
    Owns { c with outstandingAllocs := n, memCache } (o.toList ++ out) := by
  obtain ⟨hperm, hc, -⟩ := h.consistent.get hget
  have hall : o.toList.filter CachedWorkspaceMem.nonEmpty = o.toList :=
    List.filter_eq_self.2 fun m hm => (h.cached m (hperm.mem_iff.2 (List.mem_append_left _ hm))).1
  refine ⟨hc, ?_, h.once, h.faults, fun m hm => ?_, fun m hm hne => ?_⟩
  · refine h.live.trans (List.Perm.map _ ?_)
    rw [List.filter_append, hall, ← List.append_assoc]
    exact (hperm.trans List.perm_append_comm).append_right _
  · exact h.cached m (hperm.mem_iff.2 (List.mem_append_right _ hm))
  · rcases List.mem_append.1 hm with hm | hm
    · exact (h.cached m (hperm.mem_iff.2 (List.mem_append_left _ hm))).2
    · exact h.out m hm hne

/-- A block is allocated for a memory that is out. -/
theorem Owns.alloc (h : c.Owns out) (hm : m.destructor)
    (hnew : m.mem.data ∉ c.heap.live.map Block.data) :
    Owns { c with heap := c.heap.alloc m.block } (m :: out) := by
  by_cases hd : m.mem.data = 0
  · have he : m.nonEmpty = false := decide_eq_false (not_not.2 hd)
    rw [Heap.alloc, if_pos (show m.block.data = 0 from hd)]
    exact h.cons_empty he
  · have hne : m.nonEmpty := decide_eq_true hd
    rw [Heap.alloc, if_neg (show ¬m.block.data = 0 from hd)]
    refine ⟨h.consistent, ?_, List.nodup_cons.2 ⟨hnew, h.once⟩, h.faults, h.cached, ?_⟩
    · rw [List.filter_cons, if_pos hne, List.map_append, List.map_cons]
      refine (h.live.cons _).trans ?_
      rw [List.map_append]
      exact List.perm_middle.symm
    · intro m' hm' hne'
      rcases List.mem_cons.1 hm' with rfl | hm'
      · exact hm
      · exact h.out m' hm' hne'

/-- What `get` returns is out then, and an exception leaves nothing out. -/
theorem Owns.get {r : Except Exception (CachedWorkspaceMem E)} (h : c.Owns out)
    (hnew : ∀ data, a.data = .ok data → data ∉ c.heap.live.map Block.data)
    (hg : c.get fn a req stream = (r, c')) : c'.Owns (r.toOption.toList ++ out) := by
  cases gets hg with
  | empty => exact h.cons_empty (decide_eq_false (by simp))
  | stream => exact ⟨h.consistent, h.live, h.once, h.faults, h.cached, h.out⟩
  | cached hs hget => exact h.moved hget
  | fails hs hget => exact h.moved hget
  | @new evt data memCache hs hget hevt hdata =>
    exact Owns.alloc (m := ⟨⟨req, data, some evt⟩, true⟩) (h.moved hget) rfl (hnew data hdata)

/-! ### Counts -/

/-- Whether the calls that a `get` makes are answered, with a block where one is allocated. -/
structure Answered (fn : CuStreamGetId) (a : GetAnswers E) (stream : Option MUstream) : Prop where
  stream : ∀ st ∈ stream, ∃ id, getCudaStreamIdHint fn a.caller st = .ok id
  event : ∃ evt, a.event = .ok evt
  data : ∃ data, a.data = .ok data ∧ data ≠ 0

theorem put_count {a : PutAnswers E} (hp : c.put fn a m stream = .ok c') :
    c'.outstandingAllocs = c.outstandingAllocs - 1 := by
  unfold WorkspaceMemCache.put at hp
  cases hput : c.memCache.put fn a.caller a.query a.new m stream with
  | error e =>
    simp only [hput] at hp
    cases hp
  | ok memCache =>
    simp only [hput] at hp
    cases hp
    rfl

theorem clear_count : c.clear.outstandingAllocs = c.outstandingAllocs := by
  rw [WorkspaceMemCache.clear]
  generalize c.memCache.contents = ms
  suffices h : ∀ c : WorkspaceMemCache E,
      (ms.foldl WorkspaceMemCache.destroy c).outstandingAllocs = c.outstandingAllocs from h _
  intro c
  induction ms generalizing c with
  | nil => rfl
  | cons m ms ih => exact ih _

/-- An answered `get` returns a memory, for which it counts one if it is not empty. -/
theorem Owns.get_answered {r : Except Exception (CachedWorkspaceMem E)} (h : c.Owns out)
    (ha : req.size ≠ 0 → Answered fn a stream) (hg : c.get fn a req stream = (r, c')) :
    ∃ mem, r = .ok mem ∧
      c'.outstandingAllocs = c.outstandingAllocs + if mem.nonEmpty then 1 else 0 := by
  cases gets hg with
  | empty => exact ⟨_, rfl, by simp [CachedWorkspaceMem.nonEmpty]⟩
  | stream hs hget =>
    obtain ⟨st, hst, he⟩ := PerStreamCache.get_error hget
    obtain ⟨id, hid⟩ := (ha hs).stream st hst
    rw [hid] at he
    cases he
  | cached hs hget =>
    obtain ⟨hperm, -, -⟩ := h.consistent.get hget
    have hm := (h.cached _ (hperm.mem_iff.2 List.mem_cons_self)).1
    exact ⟨_, rfl, by rw [if_pos hm]⟩
  | fails hs _ he =>
    obtain ⟨evt, hevt⟩ := (ha hs).event
    obtain ⟨data, hdata, -⟩ := (ha hs).data
    rw [hevt, hdata] at he
    rcases he with he | he <;> cases he
  | new hs _ hevt hdata =>
    obtain ⟨data, hdata', hne⟩ := (ha hs).data
    rw [hdata] at hdata'
    cases hdata'
    refine ⟨_, rfl, ?_⟩
    rw [CachedWorkspaceMem.nonEmpty, if_pos (decide_eq_true hne)]

end

end WorkspaceMemCache

/-! ## The three kinds -/

section
variable {fn : CuStreamGetId} {a : MemoryKind → GetAnswers E}
  {req : MemoryKind → WorkspaceMemRequirements} {stream : MemoryKind → Option MUstream}
  {order : List MemoryKind} {got got' : MemoryKind → CachedWorkspaceMem E} {c c' : Caches E}
  {e : Exception}

/-- The arguments of the constructor, evaluated in any order, are what each `get` returns. -/
theorem acquire_ok (hn : order.Nodup)
    (h : acquire fn a req stream order got c = (.ok got', c')) (k : MemoryKind) :
    (k ∈ order → (c k).get fn (a k) (req k) (stream k) = (.ok (got' k), c' k)) ∧
      (k ∉ order → got' k = got k ∧ c' k = c k) := by
  induction order generalizing got c with
  | nil =>
    cases h
    exact ⟨fun hk => absurd hk List.not_mem_nil, fun _ => ⟨rfl, rfl⟩⟩
  | cons k₀ order ih =>
    obtain ⟨hk₀, hn⟩ := List.nodup_cons.1 hn
    rw [acquire] at h
    cases hg : (c k₀).get fn (a k₀) (req k₀) (stream k₀) with
    | mk r ck =>
      cases r with
      | error e =>
        simp only [hg] at h
        cases h
      | ok mem =>
        simp only [hg] at h
        cases ht : acquire fn a req stream order (Function.update got k₀ mem)
            (Function.update c k₀ ck) with
        | mk r c₁ =>
          cases r with
          | error e =>
            simp only [ht] at h
            cases h
          | ok got₁ =>
            simp only [ht] at h
            cases h
            obtain ⟨hin, hout⟩ := ih hn ht
            by_cases hk : k = k₀
            · subst hk
              obtain ⟨hgot, hc⟩ := hout hk₀
              rw [Function.update_self] at hgot hc
              exact ⟨fun _ => by rw [hg, hgot, hc], fun hne => absurd List.mem_cons_self hne⟩
            · rw [Function.update_of_ne hk] at hin
              rw [Function.update_of_ne hk, Function.update_of_ne hk] at hout
              refine ⟨fun hm => hin ((List.mem_cons.1 hm).resolve_left hk), fun hm => hout ?_⟩
              exact fun hm' => hm (List.mem_cons_of_mem _ hm')

/-- Where one throws, what the others returned is destroyed. -/
theorem acquire_error (hn : order.Nodup)
    (h : acquire fn a req stream order got c = (.error e, c')) :
    (∃ k ∈ order, ((c k).get fn (a k) (req k) (stream k)).1 = .error e) ∧
      (∀ k ∉ order, c' k = c k) ∧ ∀ k, c' k = c k ∨
        (∃ e, (c k).get fn (a k) (req k) (stream k) = (.error e, c' k)) ∨
        ∃ mem ck, (c k).get fn (a k) (req k) (stream k) = (.ok mem, ck) ∧
          c' k = ck.destroy mem := by
  induction order generalizing got c c' with
  | nil => cases h
  | cons k₀ order ih =>
    obtain ⟨hk₀, hn⟩ := List.nodup_cons.1 hn
    rw [acquire] at h
    cases hg : (c k₀).get fn (a k₀) (req k₀) (stream k₀) with
    | mk r ck =>
      cases r with
      | error e₀ =>
        simp only [hg] at h
        cases h
        refine ⟨⟨k₀, List.mem_cons_self, by rw [hg]⟩, fun k hk => ?_, fun k => ?_⟩
        · exact Function.update_of_ne (List.ne_of_not_mem_cons hk) _ _
        · by_cases hk : k = k₀
          · subst hk
            rw [Function.update_self]
            exact .inr (.inl ⟨e, hg⟩)
          · exact .inl (Function.update_of_ne hk _ _)
      | ok mem =>
        simp only [hg] at h
        cases ht : acquire fn a req stream order (Function.update got k₀ mem)
            (Function.update c k₀ ck) with
        | mk r c₁ =>
          cases r with
          | ok got₁ =>
            simp only [ht] at h
            cases h
          | error e₁ =>
            simp only [ht] at h
            cases h
            obtain ⟨⟨k₁, hk₁, he⟩, hout, hall⟩ := ih hn ht
            have hne : k₁ ≠ k₀ := fun heq => hk₀ (heq ▸ hk₁)
            rw [Function.update_of_ne hne] at he
            refine ⟨⟨k₁, List.mem_cons_of_mem _ hk₁, he⟩, fun k hk => ?_, fun k => ?_⟩
            · obtain ⟨hk, hko⟩ := not_or.1 (List.mem_cons.not.1 hk)
              rw [Function.update_of_ne hk, hout k hko, Function.update_of_ne hk]
            · by_cases hk : k = k₀
              · subst hk
                have hck := hout k hk₀
                rw [Function.update_self] at hck ⊢
                exact .inr (.inr ⟨mem, ck, hg, by rw [hck]⟩)
              · have hk' := hall k
                rw [Function.update_of_ne hk] at hk' ⊢
                exact hk'

end

/-! ## Runs -/

namespace WorkspaceCache

variable {fn : CuStreamGetId} {s s' : WorkspaceCache E} {op : Op E} {k : MemoryKind}

/-- The caches own their blocks but those of the memories that the leases hold. -/
def Sound (s : WorkspaceCache E) : Prop := ∀ k, (s.cache k).Owns (s.held k)

theorem held_perm {before after : List (WorkspaceLease E)} {l : WorkspaceLease E}
    (hl : s.leases = before ++ l :: after) :
    (s.held k).Perm (l.mem k :: (before ++ after).map fun l => l.mem k) := by
  rw [held, hl]
  exact (List.perm_middle.map _)

/-- The members of a lease that is destroyed are put, or destroyed empty. -/
theorem release_owns {l : WorkspaceLease E} {a : PutAnswers E} {c c' : WorkspaceMemCache E}
    {m : CachedWorkspaceMem E} {out : List (CachedWorkspaceMem E)} (h : c.Owns (l.mem k :: out))
    (hnew : a.new ∉ c.memCache.free ++ c.memCache.items.map StreamCacheItem.addr)
    (hr : l.release fn a k c = .ok (m, c')) :
    (c'.destroy m).Owns out ∧ (c'.destroy m).outstandingAllocs =
      c.outstandingAllocs - if (l.mem k).nonEmpty then 1 else 0 := by
  unfold WorkspaceLease.release at hr
  split_ifs at hr with hm
  · cases hp : c.put fn a (l.mem k) (l.releaseStream k) with
    | error e =>
      simp only [hp] at hr
      cases hr
    | ok c₁ =>
      simp only [hp] at hr
      cases hr
      refine ⟨((h.put hm hnew hp).cons_empty (decide_eq_false (by simp))).destroy, ?_⟩
      rw [if_pos hm]
      exact WorkspaceMemCache.put_count hp
  · cases hr
    refine ⟨h.destroy, ?_⟩
    rw [if_neg hm]
    exact (Int32.sub_zero _).symm

theorem Sound.step (h : s.Sound) (hs : Step fn s op s') : s'.Sound := by
  intro k
  cases hs with
  | @get order a req acquireStream releaseStream got c horder hnew ha =>
    have hk := (acquire_ok (horder.nodup_iff.2 (by decide)) ha k).1
      (horder.mem_iff.2 (by cases k <;> decide))
    exact (h k).get (hnew k) hk
  | @getThrows order a req acquireStream releaseStream e c horder hnew ha =>
    obtain ⟨-, -, hc⟩ := acquire_error (horder.nodup_iff.2 (by decide)) ha
    show (c k).Owns (s.held k)
    rcases hc k with hc | ⟨e, hg⟩ | ⟨mem, ck, hg, hc⟩
    · rw [hc]
      exact h k
    · exact (h k).get (hnew k) hg
    · rw [hc]
      exact ((h k).get (hnew k) hg).destroy
  | destroy hl hnew hr => exact (release_owns ((h k).perm (held_perm hl)) (hnew k) (hr k)).1
  | clear => exact (h k).clear

/-- **Ownership**, over runs in which any call may throw. -/
theorem leases_own {ops : List (Op E)} {s : WorkspaceCache E} (r : Run (Step fn) {} ops s) :
    s.Sound :=
  r.inv (fun _ _ _ h hs => h.step hs) fun _ => .start

/-- A step whose calls, if it is a `get`, are answered, and before which a count can be raised. -/
def AnsweredStep (fn : CuStreamGetId) (s : WorkspaceCache E) (op : Op E)
    (s' : WorkspaceCache E) : Prop :=
  Step fn s op s' ∧
    (∀ order a req acquireStream releaseStream,
      op = .get order a req acquireStream releaseStream →
        ∀ k, (req k).size ≠ 0 → WorkspaceMemCache.Answered fn (a k) (acquireStream k)) ∧
    ∀ k, s.heldCount k + 1 < 2 ^ 31

/-- The counts are those of the memories that are held. -/
structure Counted (s : WorkspaceCache E) : Prop where
  sound : s.Sound
  counts : ∀ k, (s.cache k).outstandingAllocs = Int32.ofNat (s.heldCount k)
  small : ∀ k, s.heldCount k < 2 ^ 31

theorem heldCount_cons (l : WorkspaceLease E) (c : Caches E) :
    heldCount { cache := c, leases := l :: s.leases } k =
      s.heldCount k + if (l.mem k).nonEmpty then 1 else 0 := List.countP_cons

theorem Counted.step (h : s.Counted) (hs : AnsweredStep fn s op s') : s'.Counted := by
  obtain ⟨hs, hans, hsmall⟩ := hs
  have hsound := h.sound.step hs
  suffices hk : ∀ k, (s'.cache k).outstandingAllocs = Int32.ofNat (s'.heldCount k) ∧
      s'.heldCount k ≤ s.heldCount k + 1 by
    exact ⟨hsound, fun k => (hk k).1, fun k => (hk k).2.trans_lt (hsmall k)⟩
  intro k
  cases hs with
  | @get order a req acquireStream releaseStream got c horder hnew ha =>
    have hg := (acquire_ok (horder.nodup_iff.2 (by decide)) ha k).1
      (horder.mem_iff.2 (by cases k <;> decide))
    obtain ⟨mem, hmem, hcount⟩ := (h.sound k).get_answered (hans _ _ _ _ _ rfl k) hg
    cases hmem
    show (c k).outstandingAllocs = _ ∧ _
    rw [heldCount_cons, hcount, h.counts k]
    show _ = Int32.ofNat (s.heldCount k + if (got k).nonEmpty then 1 else 0) ∧
      s.heldCount k + (if (got k).nonEmpty then 1 else 0) ≤ _
    split_ifs
    · exact ⟨(Int32.ofNat_add _ 1).symm, le_rfl⟩
    · exact ⟨Int32.add_zero _, Nat.le_succ _⟩
  | @getThrows order a req acquireStream releaseStream e c horder hnew ha =>
    obtain ⟨⟨k', -, he⟩, -⟩ := acquire_error (horder.nodup_iff.2 (by decide)) ha
    cases hg : (s.cache k').get fn (a k') (req k') (acquireStream k') with
    | mk r ck =>
      obtain ⟨mem, rfl, -⟩ := (h.sound k').get_answered (hans _ _ _ _ _ rfl k') hg
      rw [hg] at he
      cases he
  | @destroy a l before after c hl hnew hr =>
    have hp := held_perm (k := k) hl
    have hcount := (release_owns ((h.sound k).perm hp) (hnew k) (hr k)).2
    have hbefore : s.heldCount k = heldCount { cache := s.cache, leases := before ++ after } k +
        if (l.mem k).nonEmpty then 1 else 0 := by
      rw [heldCount, hp.countP_eq, List.countP_cons]
      rfl
    show ((c k).2.destroy (c k).1).outstandingAllocs =
      Int32.ofNat (heldCount { cache := s.cache, leases := before ++ after } k) ∧
        heldCount { cache := s.cache, leases := before ++ after } k ≤ _
    rw [hcount, h.counts k, hbefore]
    split_ifs
    · refine ⟨?_, by omega⟩
      rw [Int32.ofNat_add]
      exact Int32.add_sub_cancel _ _
    · exact ⟨Int32.sub_zero _, by omega⟩
  | clear =>
    refine ⟨?_, Nat.le_succ _⟩
    rw [WorkspaceMemCache.clear_count]
    exact h.counts k

/-- What is counted, and where the blocks of each kind are. -/
structure Accounted (s : WorkspaceCache E) : Prop where
  counter : ∀ k, (s.cache k).outstandingAllocs.toInt = s.heldCount k
  /-- A block is with one lease, or once in the cache. -/
  live : ∀ k, (s.cache k).heap.live.Perm (((s.cache k).memCache.contents ++
    (s.held k).filter CachedWorkspaceMem.nonEmpty).map CachedWorkspaceMem.block)
  once : ∀ k, ((s.cache k).heap.live.map Block.data).Nodup
  /-- Nothing was freed that was not there, or with another size or alignment. -/
  freed : ∀ k, (s.cache k).heap.faults = []

end WorkspaceCache

/-- **Accounting**, over runs whose calls are answered. -/
theorem leases_accounted {fn : CuStreamGetId} {ops : List (Op E)} {s : WorkspaceCache E}
    (r : Run (WorkspaceCache.AnsweredStep fn) {} ops s) : s.Accounted := by
  have h : s.Counted := r.inv (fun _ _ _ h hs => h.step hs) {
    sound := fun _ => .start
    counts := fun _ => rfl
    small := fun _ => Nat.two_pow_pos 31 }
  refine ⟨fun k => ?_, fun k => (h.sound k).live, fun k => (h.sound k).once,
    fun k => (h.sound k).faults⟩
  rw [h.counts k]
  exact Int32.toInt_ofNat_of_lt (h.small k)

/-- A `get` that asks for memory of the device only, and what the allocator answers. -/
def getCuda (data : Except Exception SizeT) : Op Nat :=
  .get kinds (fun _ => ⟨⟨some 0, 1, fun _ => .ok 7⟩, fun _ _ => true, .ok 1, data⟩)
    (fun k => if k = .cuda then ⟨64, 16⟩ else ⟨0, 1⟩) (fun _ => none) fun _ => none

/-- A block that a lease holds. -/
theorem leases_accounted_one : ∃ s, Run (WorkspaceCache.AnsweredStep .withPseudoDefault) {}
    [getCuda (.ok 4096)] s ∧ s.heldCount .cuda = 1 ∧ s.Accounted := by
  have r : Run (WorkspaceCache.AnsweredStep .withPseudoDefault) {} [getCuda (.ok 4096)] _ :=
    .cons ⟨.get (List.Perm.refl _) (fun _ _ _ => List.not_mem_nil) rfl, fun _ _ _ _ _ h => by
      cases h
      intro k hk
      exact ⟨by simp, ⟨1, rfl⟩, ⟨4096, rfl, by decide⟩⟩, fun _ =>
        show 1 < 2 ^ 31 by decide⟩ (.nil _)
  exact ⟨_, r, rfl, leases_accounted r⟩

/-- An allocation fails: the memory stays counted, and no lease holds it. -/
theorem lost_count :
    ¬∀ (ops : List (Op Nat)) (s : WorkspaceCache Nat),
      Run (Step .withPseudoDefault) {} ops s → s.Accounted := by
  intro h
  have ha := h [getCuda (.error (.nvcv .outOfMemory "out of memory"))] _
    (.cons (.getThrows (List.Perm.refl _) (fun _ _ _ => List.not_mem_nil) rfl) (.nil _))
  have hc := ha.counter .cuda
  revert hc
  decide

end Cvcudapy
