import CvCuda.Cvcuda.StreamCacheSession
import CvCuda.Cvcuda.Proof.PerStreamCache

/-! # Runs of calls of a cache per stream

Where the driver has ids of streams, the newest ready item of a list vouches for all older ones. A
list may have items of several streams, though: puts without a stream share the list of id `-1`,
which is also that of the default stream of every device.

* `Session.Kept`, `payloads_kept`: no payload is lost or returned twice, and `get` finds one that
  there is.
* `skipped_payload`: it does not where a ready item is newer than one that is not.
* `Session.Guarded`, `payloads_safe`: nothing is returned while another stream uses it.
* `shared_list`: something is where the default streams of two devices share a list.
-/

namespace Cvcuda

open Nvcv StreamCachePayload

variable {P E S : Type} [StreamCachePayload P E]

namespace Session

variable {fn : CuStreamGetId} {s s' : Session P E S} {c : Call P E S}

theorem Step.time {done' : E → Bool} (h : s.Later s.done done') :
    Step fn s (.time done') (s.next fn (.time done')) := ⟨h, rfl⟩

theorem Step.put {t : Thread S} {new : Nat} {p : P} {stream : Option MUstream}
    (h : new ∉ s.cache.free ++ s.cache.items.map StreamCacheItem.addr) :
    Step fn s (.put t new p stream) (s.next fn (.put t new p stream)) := ⟨h, rfl⟩

/-- A call of `get` in which no time passes. -/
theorem Step.get {t : Thread S} {query : E → Bool} {minSize minAlignment : Nat}
    {stream : Option MUstream} (h : s.Later s.done query) :
    Step fn s (.get t (fun _ => query) query minSize minAlignment stream)
      (s.next fn (.get t (fun _ => query) query minSize minAlignment stream)) :=
  ⟨fun _ => ⟨h, fun _ _ hd => hd⟩, rfl⟩

theorem StreamStep.get {t : Thread S} {query : E → Bool} {minSize minAlignment : Nat}
    {stream : Option MUstream} (h : s.Later s.done query) (ho : s.InOrder query) :
    StreamStep fn s (.get t (fun _ => query) query minSize minAlignment stream)
      (s.next fn (.get t (fun _ => query) query minSize minAlignment stream)) :=
  ⟨.get h, ho, fun _ => ho⟩

/-! ## What is kept -/

/-- What was put and not returned is in the cache, and every call of `get` was answered right. -/
structure Kept (s : Session P E S) : Prop where
  given : s.given.Perm (s.taken ++ s.cache.contents)
  consistent : s.cache.Consistent
  right : ∀ a ∈ s.answers, a.Right

/-- Behind a ready item that is asked for, all items of a list are ready, or `get` asks each. -/
def Vouched (fn : CuStreamGetId) (s : Session P E S) : Call P E S → Prop
  | .time _ => True
  | .put _ _ _ _ => True
  | .get _ _ _ minSize minAlignment _ => fn.isUnambiguous → ∀ kc ∈ s.cache.perStreamCache,
    kc.2.items.Pairwise fun i j => PerStreamCache.fits minSize minAlignment j.payload →
      completed s.done j.payload → completed s.done i.payload

/-- A step whose call, if it is one of `get`, finds lists in order. -/
def VouchedStep (fn : CuStreamGetId) (s : Session P E S) (c : Call P E S)
    (s' : Session P E S) : Prop :=
  Step fn s c s' ∧ s.Vouched fn c

theorem fits_minSize {minSize minAlignment : Nat} {d : Deposit P S}
    (h : PerStreamCache.fits minSize minAlignment d) : minSize ≤ size d := by
  simp only [PerStreamCache.fits, Bool.and_eq_true, decide_eq_true_eq] at h
  exact h.1

/-- Where `get` returns nothing, there is nothing for it. -/
theorem get_none {t : Thread S} {queries : Nat → E → Bool} {done' : E → Bool}
    {minSize minAlignment : Nat} {stream : Option MUstream}
    {cache : PerStreamCache (Deposit P S)} (hc : s.cache.Consistent)
    (ha : s.Allowed (.get t queries done' minSize minAlignment stream))
    (hv : s.Vouched fn (.get t queries done' minSize minAlignment stream))
    (hg : s.cache.get fn t.caller queries minSize minAlignment stream = .ok (none, cache))
    {d : Deposit P S} (hd : d ∈ s.own fn t stream ++ s.cache.contents.filter (completed s.done)) :
    ¬PerStreamCache.fits minSize minAlignment d := by
  intro hf
  have hm := fits_minSize hf
  rcases hc.get_cases hg with ⟨st, id, p, -, -, hr, -⟩ | ⟨hown, j, s₁, m, he⟩
  · cases hr
  · rcases he with ⟨p, hr, -⟩ | ⟨-, hglobal, hready, -⟩
    · cases hr
    rcases List.mem_append.1 hd with hd | hd
    · -- the list of the stream
      cases stream with
      | none => cases hd
      | some st =>
        obtain ⟨id, hid, ht⟩ := hown st rfl
        simp only [own, hid, PerStreamCache.payloads] at hd
        obtain ⟨i, hi, rfl⟩ := List.mem_map.1 hd
        cases hl : s.cache.perStreamCache.lookup id with
        | none =>
          rw [hl] at hi
          cases hi
        | some c =>
          rw [hl] at hi
          have hn := hc.tryGetPerStream_none ht hl hi hm
          rw [hf] at hn
          cases hn
    · -- a ready payload, of which the last turn finds none
      obtain ⟨hd, hdone⟩ := List.mem_filter.1 hd
      obtain ⟨h₁, hperm⟩ := m.consistent hc
      rcases List.mem_append.1 (hperm.mem_iff.1 hd) with hd₁ | hd₁
      · have hn := h₁.tryGetGlobal_none hglobal hd₁ hm
        rw [hf] at hn
        cases hn
      · obtain ⟨i, hi, rfl⟩ := List.mem_map.1 hd₁
        obtain ⟨kc, hkc, hi⟩ := PerStreamCache.mem_items.1 hi
        obtain ⟨c, hcs, hsub⟩ := m.sublist hc hkc
        have hmem : i ∈ (kc.2.removeAllReady fn.isUnambiguous (queries j)).1 := by
          refine StreamOrderedCache.mem_removeAllReady hi ((ha j).1 _ hd hdone) fun hu => ?_
          refine List.Pairwise.imp_of_mem ?_ ((hv hu _ hcs).sublist hsub)
          rintro i' j' hi' - hij rfl
          have hin : i'.payload ∈ s.cache.contents := by
            refine List.mem_append_right _ (List.mem_map.2 ⟨i', ?_, rfl⟩)
            exact PerStreamCache.mem_items.2 ⟨_, hcs, hsub.subset hi'⟩
          exact (ha j).1 _ hin (hij hf hdone)
        have hall : i ∈ s₁.readyItems fn.isUnambiguous (queries j) :=
          List.mem_flatMap.2 ⟨kc, hkc, hmem⟩
        rw [hready] at hall
        cases hall

theorem Kept.step (h : s.Kept) (hs : VouchedStep fn s c s') : s'.Kept := by
  obtain ⟨⟨ha, rfl⟩, hv⟩ := hs
  cases c with
  | time done' => exact ⟨h.given, h.consistent, h.right⟩
  | put t new p stream =>
    rw [next]
    cases hp : s.cache.put fn t.caller s.done new ⟨p, stream.map t.stream⟩ stream with
    | error e => exact h
    | ok cache =>
      obtain ⟨hperm, hc⟩ := h.consistent.put ha hp
      refine ⟨?_, hc, h.right⟩
      refine (h.given.cons _).trans (List.perm_middle.symm.trans ?_)
      exact hperm.symm.append_left _
  | get t queries done' minSize minAlignment stream =>
    rw [next]
    cases hg : s.cache.get fn t.caller queries minSize minAlignment stream with
    | error e => exact ⟨h.given, h.consistent, h.right⟩
    | ok rc =>
      obtain ⟨r, cache⟩ := rc
      obtain ⟨hperm, hc, hfits⟩ := h.consistent.get hg
      refine ⟨?_, hc, ?_⟩
      · refine h.given.trans ((hperm.append_left _).trans ?_)
        cases r with
        | none => exact List.Perm.refl _
        | some d => exact List.perm_middle
      · intro a hmem
        rcases List.mem_cons.1 hmem with rfl | hmem
        · refine ⟨hfits, ?_⟩
          rintro rfl d hd
          exact get_none h.consistent ha hv hg hd
        · exact h.right a hmem

end Session

/-- **Conservation**, over runs of calls whose lists get ready in order where it matters: what was
put and not returned is in the cache, once and at one place, and `get` returns a payload that is
asked for whenever there is one for it. -/
theorem payloads_kept {fn : CuStreamGetId} {d : E → Bool} {calls : List (Call P E S)}
    {s : Session P E S} (r : Run (Session.VouchedStep fn) { done := d } calls s) : s.Kept :=
  r.inv (fun _ _ _ h hs => h.step hs) ⟨List.Perm.refl _, .empty, by simp⟩

/-- A thread on device `dev`, each of which has streams of its own. -/
def threadOn (dev : Int32) : Thread (Int32 × MUstream) where
  caller := ⟨some dev, 1, fun _ => .ok 7⟩
  stream st := (dev, if st = .null then .legacy else st)

/-- A session of which no event is completed. -/
def fresh : Session DummyPayload Nat (Int32 × MUstream) := { done := fun _ => false }

/-- A payload comes back to the stream that it was put with. -/
theorem payloads_kept_own :
    ((fresh.next .withPseudoDefault (.put (threadOn 0) 1 ⟨64, 1, some 1⟩ (some .legacy))).next
      .withPseudoDefault (.get (threadOn 0) (fun _ => fresh.done) fresh.done 64 1
        (some .legacy))).Kept :=
  payloads_kept (d := fresh.done) (.cons ⟨.put (by decide), trivial⟩
    (.cons ⟨.get (by decide), fun _ => by decide⟩ (.nil _)))

/-- Events are completed, of a third payload before that of the second one. -/
def outOfOrder (ev : Nat) : Bool := ev = 1 ∨ ev = 3

/-- A ready payload is not found where an unready one is newer, and one is older. -/
theorem skipped_payload :
    ¬∀ (calls : List (Call DummyPayload Nat (Int32 × MUstream))) (s : Session _ _ _),
      Run (Session.Step .withPseudoDefault) fresh calls s → s.Kept := by
  intro h
  have hk := h [.put (threadOn 0) 1 ⟨8, 1, some 1⟩ none, .put (threadOn 0) 2 ⟨8, 1, some 2⟩ none,
      .put (threadOn 0) 3 ⟨64, 1, some 3⟩ none, .put (threadOn 0) 4 ⟨8, 1, some 4⟩ none,
      .time outOfOrder, .get (threadOn 0) (fun _ => outOfOrder) outOfOrder 64 1 none] _
    (.cons (.put (by decide)) (.cons (.put (by decide)) (.cons (.put (by decide))
      (.cons (.put (by decide)) (.cons (.time (by decide)) (.cons (.get (by decide)) (.nil _)))))))
  obtain ⟨-, hnone⟩ := hk.right _ List.mem_cons_self
  revert hnone
  decide

/-! ## What is safe -/

namespace Session

variable {fn : CuStreamGetId} {s s' : Session P E S} {c : Call P E S} {done' : E → Bool}

/-- No unready payload is in the global cache, or before one of another stream in a list in which
only the newest ready item is looked for; and what was returned was safe. -/
structure Guarded (fn : CuStreamGetId) (s : Session P E S) : Prop where
  consistent : s.cache.Consistent
  global : ∀ d ∈ s.cache.globalCache, completed s.done d
  lists : fn.isUnambiguous → ∀ kc ∈ s.cache.perStreamCache, kc.2.items.Pairwise fun i j =>
    completed s.done i.payload ∨ i.payload.stream ≠ none ∧ i.payload.stream = j.payload.stream
  safe : ∀ a ∈ s.answers, a.Safe

/-- The payloads of a list that are not ready are of the stream of the call: where an unready one
is put and only the newest ready item is looked for, and, as far as they are asked for, where the
list of a stream is used. -/
def Apart (fn : CuStreamGetId) (s : Session P E S) : Call P E S → Prop
  | .time _ => True
  | .put t _ p stream => fn.isUnambiguous → completed s.done p = false →
    ∀ id, cacheKey fn t.caller stream = .ok id → ∀ d ∈ s.cache.payloads id,
      completed s.done d ∨ stream ≠ none ∧ d.stream = stream.map t.stream
  | .get t _ done' minSize minAlignment stream =>
    ∀ d ∈ s.own fn t stream, PerStreamCache.fits minSize minAlignment d →
      completed done' d ∨ d.stream = stream.map t.stream

/-- A step of streams whose payloads are apart. -/
def ApartStep (fn : CuStreamGetId) (s : Session P E S) (c : Call P E S)
    (s' : Session P E S) : Prop :=
  StreamStep fn s c s' ∧ s.Apart fn c

omit [StreamCachePayload P E] in
theorem mem_contents {kc : BitVec 64 × StreamOrderedCache (Deposit P S)}
    {i : StreamCacheItem (Deposit P S)} (hkc : kc ∈ s.cache.perStreamCache) (hi : i ∈ kc.2.items) :
    i.payload ∈ s.cache.contents :=
  List.mem_append_right _ (List.mem_map.2 ⟨i, PerStreamCache.mem_items.2 ⟨kc, hkc, hi⟩, rfl⟩)

theorem Guarded.time (h : s.Guarded fn) (hl : s.Later s.done done') :
    Guarded fn { s with done := done' } where
  consistent := h.consistent
  global d hd := hl d (List.mem_append_left _ hd) (h.global d hd)
  lists hu kc hkc := (h.lists hu kc hkc).imp_of_mem fun hi _ hij =>
    hij.imp_left (hl _ (mem_contents hkc hi))
  safe := h.safe

theorem Guarded.put {t : Thread S} {new : Nat} {p : P} {stream : Option MUstream}
    (h : s.Guarded fn) (ha : s.Allowed (.put t new p stream))
    (hapart : s.Apart fn (.put t new p stream)) :
    Guarded fn (s.next fn (.put t new p stream)) := by
  rw [next]
  cases hp : s.cache.put fn t.caller s.done new ⟨p, stream.map t.stream⟩ stream with
  | error e => exact h
  | ok cache =>
    have hc := (h.consistent.put ha hp).2
    rcases PerStreamCache.put_cases hp with ⟨id, addr, hid, hready, -, rfl⟩ | ⟨hready, rfl⟩
    · refine ⟨hc, h.global, fun hu kc hkc => ?_, h.safe⟩
      rcases PerStreamCache.upsert_mem hkc with hkc | rfl
      · exact h.lists hu kc hkc
      · have hpay := hapart hu hready id hid
        have hold : ((s.cache.perStreamCache.lookup id).getD {}).items.Pairwise fun i j =>
            completed s.done i.payload ∨
              i.payload.stream ≠ none ∧ i.payload.stream = j.payload.stream := by
          cases hl : s.cache.perStreamCache.lookup id with
          | none => exact List.Pairwise.nil
          | some c => exact h.lists hu _ (PerStreamCache.mem_of_lookup hl)
        refine List.pairwise_append.2 ⟨hold, List.pairwise_singleton _ _, ?_⟩
        intro i hi j hj
        rw [List.mem_singleton] at hj
        subst hj
        have hmem : i.payload ∈ s.cache.payloads id := by
          refine List.mem_map.2 ⟨i, ?_, rfl⟩
          cases hl : s.cache.perStreamCache.lookup id with
          | none =>
            rw [hl] at hi
            cases hi
          | some c =>
            rw [hl] at hi
            exact hi
        refine (hpay _ hmem).imp_right fun ⟨hne, hs⟩ => ⟨?_, hs⟩
        rw [hs]
        simpa using hne
    · refine ⟨hc, fun d hd => ?_, h.lists, h.safe⟩
      rcases List.mem_cons.1 ((PerStreamCache.emplace_perm _ _).mem_iff.1 hd) with rfl | hd
      · exact hready
      · exact h.global d hd

/-- What the lists say of the answers that events give: a ready item vouches for all older ones. -/
theorem Guarded.inOrder {query : E → Bool} (h : s.Guarded fn) (hl : s.Later s.done query)
    (ho : s.InOrder query) (hu : fn.isUnambiguous)
    {kc : BitVec 64 × StreamOrderedCache (Deposit P S)} (hkc : kc ∈ s.cache.perStreamCache) :
    kc.2.items.Pairwise fun i j => j.isReady query → i.isReady query := by
  refine ((h.lists hu kc hkc).and (ho kc hkc)).imp_of_mem ?_
  rintro i j hi - ⟨hdone | ⟨hne, hs⟩, ho⟩ hj
  · exact hl _ (mem_contents hkc hi) hdone
  · exact ho hne hs hj

theorem Guarded.get {t : Thread S} {queries : Nat → E → Bool} {minSize minAlignment : Nat}
    {stream : Option MUstream} (h : s.Guarded fn)
    (ha : s.Allowed (.get t queries done' minSize minAlignment stream))
    (ho : s.Streams (.get t queries done' minSize minAlignment stream))
    (hapart : s.Apart fn (.get t queries done' minSize minAlignment stream)) :
    Guarded fn (s.next fn (.get t queries done' minSize minAlignment stream)) := by
  have hlater : s.Later s.done done' := fun d hd hdone =>
    (ha 0).2 d hd ((ha 0).1 d hd hdone)
  have ht := h.time hlater
  rw [next]
  cases hg : s.cache.get fn t.caller queries minSize minAlignment stream with
  | error e => exact ht
  | ok rc =>
    obtain ⟨r, cache⟩ := rc
    have hc := (h.consistent.get hg).2.1
    rcases h.consistent.get_cases hg with ⟨st, id, d, rfl, hid, rfl, hown⟩ | ⟨-, he⟩
    · -- a payload of the list of the stream
      obtain ⟨c, i, hl, hi, rfl, -, hf, hlists, hglobal, -⟩ :=
        h.consistent.tryGetPerStream_some hown
      have hmem : i.payload ∈ s.own fn t (some st) := by
        simp only [own, hid, PerStreamCache.payloads, hl]
        exact List.mem_map.2 ⟨i, hi, rfl⟩
      refine ⟨hc, fun d hd => ht.global d (hglobal ▸ hd), fun hu kc hkc => ?_, ?_⟩
      · replace hkc : kc ∈ cache.perStreamCache := hkc
        rw [hlists] at hkc
        rcases PerStreamCache.upsert_mem hkc with hkc | rfl
        · exact ht.lists hu kc hkc
        · exact (ht.lists hu _ (PerStreamCache.mem_of_lookup hl)).sublist
            (StreamOrderedCache.remove_sublist c i)
      · intro a ha
        rcases List.mem_cons.1 ha with rfl | ha
        · intro d hd
          cases hd
          exact (hapart _ hmem hf).imp_right fun hs => ⟨by simp, hs⟩
        · exact h.safe a ha
    · -- a payload of the global cache
      obtain ⟨j, s₁, m, hlists, hglobal, hr⟩ := he.moves h.consistent
      have hdone : ∀ d ∈ s₁.globalCache, completed done' d := by
        intro d hd
        have hd₁ := (m.consistent h.consistent).2.mem_iff.2 (List.mem_append_left _ hd)
        rcases m.global h.consistent
          (fun hu k kc hkc => h.inOrder (ha k).1 (ho.2 k) hu hkc) hd with hd | ⟨k, hk⟩
        · exact ht.global d hd
        · exact (ha k).2 d hd₁ hk
      refine ⟨hc, fun d hd => hdone d (hglobal d hd), fun hu kc hkc => ?_, ?_⟩
      · replace hkc : kc ∈ cache.perStreamCache := hkc
        rw [hlists] at hkc
        obtain ⟨c, hcs, hsub⟩ := m.sublist h.consistent hkc
        exact (ht.lists hu _ hcs).sublist hsub
      · intro a ha
        rcases List.mem_cons.1 ha with rfl | ha
        · intro d hd
          cases hd
          exact .inl (hdone d (hr d rfl))
        · exact h.safe a ha

theorem Guarded.step (h : s.Guarded fn) (hs : ApartStep fn s c s') : s'.Guarded fn := by
  obtain ⟨⟨⟨ha, rfl⟩, ho⟩, hapart⟩ := hs
  cases c with
  | time done' => exact h.time ha
  | put t new p stream => exact h.put ha hapart
  | get t queries done' minSize minAlignment stream => exact h.get ha ho hapart

end Session

/-- **Safety**, over runs of calls whose payloads are apart: `get` returns a payload that is ready,
or was put with the same stream. -/
theorem payloads_safe {fn : CuStreamGetId} {d : E → Bool} {calls : List (Call P E S)}
    {s : Session P E S} (r : Run (Session.ApartStep fn) { done := d } calls s) :
    ∀ a ∈ s.answers, a.Safe := by
  have h : s.Guarded fn := r.inv (fun _ _ _ h hs => h.step hs) {
    consistent := .empty
    global := by simp
    lists := by simp
    safe := by simp }
  exact h.safe

/-- A payload comes back to the stream that it was put with, before its event is completed. -/
theorem payloads_safe_own : ∃ s, Run (Session.ApartStep .withPseudoDefault) fresh
    [.put (threadOn 0) 1 ⟨64, 1, some 1⟩ (some .legacy),
      .get (threadOn 0) (fun _ => fresh.done) fresh.done 64 1 (some .legacy)] s ∧
    ∀ a ∈ s.answers, a.Safe := by
  have r : Run (Session.ApartStep .withPseudoDefault) fresh
      [.put (threadOn 0) 1 ⟨64, 1, some 1⟩ (some .legacy),
        .get (threadOn 0) (fun _ => fresh.done) fresh.done 64 1 (some .legacy)] _ :=
    .cons ⟨⟨.put (by decide), trivial⟩, fun _ _ _ _ _ hd => by cases hd⟩
      (.cons ⟨.get (by decide) (by decide), fun d hd _ => .inr (by
        rw [List.mem_singleton.1 hd])⟩ (.nil _))
  exact ⟨_, r, payloads_safe r⟩

/-- A stream of one device gets what the default stream of another one still uses. -/
theorem shared_list :
    ¬∀ (calls : List (Call DummyPayload Nat (Int32 × MUstream))) (s : Session _ _ _),
      Run (Session.StreamStep .withPseudoDefault) fresh calls s → ∀ a ∈ s.answers, a.Safe := by
  intro h
  have hs := h [.put (threadOn 0) 1 ⟨64, 1, some 1⟩ (some .legacy),
      .get (threadOn 1) (fun _ => fresh.done) fresh.done 64 1 (some .legacy)] _
    (.cons ⟨.put (by decide), trivial⟩
      (.cons (.get (by decide) (by decide)) (.nil _)))
    _ List.mem_cons_self ⟨⟨64, 1, some 1⟩, some (0, .legacy)⟩ rfl
  revert hs
  decide

end Cvcuda
