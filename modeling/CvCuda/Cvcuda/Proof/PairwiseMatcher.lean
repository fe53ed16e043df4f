import CvCuda.Cvcuda.PairwiseMatcher
import CvCuda.Lib.BlockOps

/-! # When the nearest points are found

* `localBest_spec`: the first nearest of a thread's points.
* `reduced_spec`, `nearest_iff_spread`: what a block makes of these, for one match and for more.
* `matchAll_iff`, `matchCrossCheck_iff`: the matches of all points.
* `same_thread`: two nearest points that one thread has.
-/

namespace Cvcuda.PairwiseMatcher

open BlockOps Compact

/-! ## Nearest points -/

section
variable {D : Type} [LinearOrder D]

/-- `k` points, or all of them, none of them further than a point left out. -/
structure KNearest (d : Nat → D) (n k : Nat) (idx : Nat → Nat) : Prop where
  lt : ∀ j < min k n, idx j < n
  inj : ∀ i < min k n, ∀ j < min k n, idx i = idx j → i = j
  mono : ∀ i j, i ≤ j → j < min k n → d (idx i) ≤ d (idx j)
  le : ∀ m < n, (∀ j < min k n, idx j ≠ m) → ∀ j < min k n, d (idx j) ≤ d m

/-- Some `k` nearest points have indices that differ modulo 64. -/
def Spread (d : Nat → D) (fltMax : D) (n k : Nat) : Prop :=
  ∃ S ⊆ Finset.range n, S.card = min k n ∧ Set.InjOn (· % kNumThreads) (S : Set Nat) ∧
    (∀ s ∈ S, ∀ m < n, m ∉ S → d s ≤ d m) ∧ ∀ s ∈ S, d s < fltMax

/-- The nearest point, of several the one with the smallest index. -/
def FirstNearest (d : Nat → D) (n j : Nat) : Prop :=
  j < n ∧ ∀ m < n, d j < d m ∨ (d j = d m ∧ j ≤ m)

instance (d : Nat → D) (n j : Nat) : Decidable (FirstNearest d n j) :=
  inferInstanceAs (Decidable (_ ∧ ∀ m < n, _))

theorem FirstNearest.unique {d : Nat → D} {n i j : Nat} (hi : FirstNearest d n i)
    (hj : FirstNearest d n j) : i = j := by
  rcases hi.2 j hj.1 with hlt | ⟨heq, hij⟩
  · rcases hj.2 i hi.1 with hgt | ⟨heq, -⟩
    · exact absurd hgt hlt.asymm
    · exact absurd heq hlt.ne'
  · rcases hj.2 i hi.1 with hgt | ⟨-, hji⟩
    · exact absurd heq hgt.ne'
    · exact le_antisymm hij hji

/-! ## The best point of a list -/

/-- Nothing where no point is nearer than `fltMax`, otherwise the first nearest. -/
def BestOf (d : Nat → D) (fltMax : D) (l : List Nat) (kv : KeyValue D) : Prop :=
  (kv = ⟨fltMax, -1⟩ ∧ ∀ m ∈ l, fltMax ≤ d m) ∨
    ∃ m ∈ l, kv = ⟨d m, m⟩ ∧ d m < fltMax ∧ ∀ m' ∈ l, d m < d m' ∨ (d m = d m' ∧ m ≤ m')

variable {d : Nat → D} {fltMax : D}

theorem BestOf.dist_le {l : List Nat} {kv : KeyValue D} (h : BestOf d fltMax l kv) {m : Nat}
    (hm : m ∈ l) (hlt : d m < fltMax) : kv.dist ≤ d m := by
  rcases h with ⟨-, hall⟩ | ⟨m', -, rfl, -, hmin⟩
  · exact absurd hlt (not_lt.2 (hall m hm))
  · exact (hmin m hm).elim le_of_lt fun h => h.1.le

theorem BestOf.of_lt {l : List Nat} {kv : KeyValue D} (h : BestOf d fltMax l kv)
    (hlt : kv.dist < fltMax) : ∃ m ∈ l, kv = ⟨d m, m⟩ := by
  rcases h with ⟨rfl, -⟩ | ⟨m, hm, heq, -⟩
  · exact absurd hlt (lt_irrefl _)
  · exact ⟨m, hm, heq⟩

theorem bestOf_foldl {l : List Nat} (hl : l.Pairwise (· < ·)) : BestOf d fltMax l
    (l.foldl (fun sorted m => if d m < sorted.dist then ⟨d m, m⟩ else sorted) ⟨fltMax, -1⟩) := by
  induction l using List.reverseRecOn with
  | nil => exact .inl ⟨rfl, fun m hm => absurd hm List.not_mem_nil⟩
  | append_singleton l x ih =>
    obtain ⟨hl, -, hx⟩ := List.pairwise_append.1 hl
    rw [List.foldl_append, List.foldl_cons, List.foldl_nil]
    rcases ih hl with ⟨heq, hall⟩ | ⟨m, hm, heq, hlt, hmin⟩
    · rw [heq]
      split
      · refine .inr ⟨x, by simp, rfl, ‹_›, fun m' hm' => ?_⟩
        rcases List.mem_append.1 hm' with hm' | hm'
        · exact .inl (lt_of_lt_of_le ‹_› (hall m' hm'))
        · exact .inr ⟨by rw [List.mem_singleton.1 hm'], (List.mem_singleton.1 hm').ge⟩
      · refine .inl ⟨rfl, fun m hm => ?_⟩
        rcases List.mem_append.1 hm with hm | hm
        · exact hall m hm
        · rw [List.mem_singleton.1 hm]
          exact not_lt.1 ‹_›
    · rw [heq]
      split
      · refine .inr ⟨x, by simp, rfl, lt_trans ‹_› hlt, fun m' hm' => ?_⟩
        rcases List.mem_append.1 hm' with hm' | hm'
        · exact .inl ((hmin m' hm').elim (lt_trans ‹_›) fun h => h.1 ▸ ‹_›)
        · exact .inr ⟨by rw [List.mem_singleton.1 hm'], (List.mem_singleton.1 hm').ge⟩
      · refine .inr ⟨m, List.mem_append_left _ hm, rfl, hlt, fun m' hm' => ?_⟩
        rcases List.mem_append.1 hm' with hm' | hm'
        · exact hmin m' hm'
        · -- a later point as near does not replace the one found
          rw [List.mem_singleton.1 hm']
          exact (not_lt.1 ‹_›).lt_or_eq.imp_right fun h => ⟨h, (hx m hm x (by simp)).le⟩

theorem mem_indices {t n m : Nat} (ht : t < kNumThreads) :
    m ∈ indices t n ↔ m < n ∧ m % kNumThreads = t := by
  unfold kNumThreads at *
  rw [indices, List.mem_range']
  constructor
  · rintro ⟨i, hi, rfl⟩
    omega
  · rintro ⟨hm, hmod⟩
    exact ⟨m / 64, by omega, by omega⟩

variable {P : Type} {dist : P → P → D} {p1 : P} {set2 : Nat → P}

theorem localBest_spec (n t : Nat) :
    BestOf (fun m => dist p1 (set2 m)) fltMax (indices t n) (localBest fltMax dist p1 set2 n t) :=
  bestOf_foldl (d := fun m => dist p1 (set2 m)) (List.pairwise_lt_range' _ (by decide))

/-! ## One match -/

/-- Distance first, then index. -/
def KeyValue.key (kv : KeyValue D) : D ×ₗ ℤ := toLex (kv.dist, kv.idx)

omit [LinearOrder D] in
theorem KeyValue.key_inj {a b : KeyValue D} (h : a.key = b.key) : a = b := by
  have := toLex.injective h
  cases a
  cases b
  simpa using this

theorem key_le_iff {v v' : D} {m m' : Nat} :
    KeyValue.key ⟨v, m⟩ ≤ KeyValue.key ⟨v', m'⟩ ↔ v < v' ∨ (v = v' ∧ m ≤ m') := by
  rw [KeyValue.key, KeyValue.key, Prod.Lex.toLex_le_toLex]
  simp only [Nat.cast_le]

theorem key_minkey (a b : KeyValue D) : (minkey a b).key = min a.key b.key := by
  have hlt : a.key < b.key ↔ a.dist < b.dist ∨ (a.dist = b.dist ∧ a.idx < b.idx) :=
    Prod.Lex.toLex_lt_toLex
  unfold minkey
  split
  · exact (min_eq_left (hlt.2 ‹_›).le).symm
  · exact (min_eq_right (not_lt.1 fun h => absurd (hlt.1 h) ‹_›)).symm

variable {blockReduce : (KeyValue D → KeyValue D → KeyValue D) → List (KeyValue D) → KeyValue D}

/-- The least of all keys. -/
theorem reduce_minkey (hreduce : ReducesBlock blockReduce) {l : List (KeyValue D)} (hne : l ≠ []) :
    blockReduce minkey l ∈ l ∧ ∀ kv ∈ l, (blockReduce minkey l).key ≤ kv.key := by
  have hcomm : ∀ a b : KeyValue D, minkey a b = minkey b a := fun a b =>
    KeyValue.key_inj (by rw [key_minkey, key_minkey, min_comm])
  have hassoc : ∀ a b c : KeyValue D, minkey (minkey a b) c = minkey a (minkey b c) :=
    fun a b c => KeyValue.key_inj (by simp only [key_minkey, min_assoc])
  refine ⟨hreduce.mem hcomm hassoc hne fun a b => ?_, ?_⟩
  · unfold minkey
    split
    · exact .inl rfl
    · exact .inr rfl
  · exact (hreduce.iff hcomm hassoc hne (P := fun kv => (blockReduce minkey l).key ≤ kv.key)
      fun a b => by rw [key_minkey, le_min_iff]).1 le_rfl

theorem BestOf.key_le {l : List Nat} {kv : KeyValue D} (h : BestOf d fltMax l kv) {m : Nat}
    (hm : m ∈ l) (hlt : d m < fltMax) : kv.key ≤ KeyValue.key ⟨d m, m⟩ := by
  rcases h with ⟨-, hall⟩ | ⟨m', -, rfl, -, hmin⟩
  · exact absurd hlt (not_lt.2 (hall m hm))
  · exact key_le_iff.2 (hmin m hm)

/-- The best of all threads is the best of all points. -/
theorem reduced_spec (hreduce : ReducesBlock blockReduce) (n : Nat) :
    BestOf (fun m => dist p1 (set2 m)) fltMax (List.range n)
      (blockReduce minkey ((List.range kNumThreads).map (localBest fltMax dist p1 set2 n))) := by
  obtain ⟨hmem, hle⟩ := reduce_minkey hreduce
    (l := (List.range kNumThreads).map (localBest fltMax dist p1 set2 n)) (by simp [kNumThreads])
  have hthread : ∀ m < n, m % kNumThreads ∈ List.range kNumThreads ∧
      m ∈ indices (m % kNumThreads) n := fun m hm =>
    have hlt := Nat.mod_lt m (by decide : 0 < kNumThreads)
    ⟨List.mem_range.2 hlt, (mem_indices hlt).2 ⟨hm, rfl⟩⟩
  -- no point has a smaller key
  have hall : ∀ m < n, dist p1 (set2 m) < fltMax → (blockReduce minkey _).key ≤
      KeyValue.key ⟨dist p1 (set2 m), m⟩ := fun m hm hlt =>
    (hle _ (List.mem_map_of_mem (hthread m hm).1)).trans
      ((localBest_spec n _).key_le (hthread m hm).2 hlt)
  obtain ⟨t, ht, heq⟩ := List.mem_map.1 hmem
  rw [← heq] at hall ⊢
  have hbest : BestOf _ fltMax _ (localBest fltMax dist p1 set2 n t) := localBest_spec n t
  rcases hbest with ⟨hnone, -⟩ | ⟨m, hm, hsome, hlt, -⟩
  · refine .inl ⟨hnone, fun m hm => not_lt.1 fun hlt => ?_⟩
    have := hall m (List.mem_range.1 hm) hlt
    rw [hnone, KeyValue.key, KeyValue.key, Prod.Lex.toLex_le_toLex] at this
    exact this.elim (fun h => absurd hlt h.asymm) fun h => absurd hlt h.1.le.not_gt
  · refine .inr ⟨m, ?_, hsome, hlt, fun m' hm' => ?_⟩
    · exact List.mem_range.2 ((mem_indices (List.mem_range.1 ht)).1 hm).1
    · by_cases hlt' : dist p1 (set2 m') < fltMax
      · have := hall m' (List.mem_range.1 hm') hlt'
        rwa [hsome, key_le_iff] at this
      · exact .inl (hlt.trans_le (not_lt.1 hlt'))

/-! ## More matches -/

/-- A thread that has a point has one of its own. -/
theorem localBest_some {n t m : Nat} (ht : t < kNumThreads) {v : D}
    (h : localBest fltMax dist p1 set2 n t = ⟨v, m⟩) :
    m < n ∧ m % kNumThreads = t ∧ v = dist p1 (set2 m) ∧ v < fltMax := by
  have hbest : BestOf (fun m => dist p1 (set2 m)) fltMax _ (localBest fltMax dist p1 set2 n t) :=
    localBest_spec n t
  rw [h] at hbest
  rcases hbest with ⟨hnone, -⟩ | ⟨m', hm', hsome, hlt, -⟩
  · have := congrArg KeyValue.idx hnone
    dsimp only at this
    omega
  · obtain ⟨rfl, hidx⟩ := KeyValue.mk.inj hsome
    obtain rfl : m = m' := by exact_mod_cast hidx
    obtain ⟨hlt', hmod⟩ := (mem_indices ht).1 hm'
    exact ⟨hlt', hmod, rfl, hlt⟩

theorem localBest_of_lt {n t : Nat} (ht : t < kNumThreads)
    (h : (localBest fltMax dist p1 set2 n t).dist < fltMax) :
    ∃ m < n, m % kNumThreads = t ∧ localBest fltMax dist p1 set2 n t = ⟨dist p1 (set2 m), m⟩ := by
  obtain ⟨m, hm, heq⟩ := (localBest_spec n t).of_lt h
  obtain ⟨hlt, hmod⟩ := (mem_indices ht).1 hm
  exact ⟨m, hlt, hmod, heq⟩

/-- Of nearest points on different threads each thread finds one as near, and not another one of
them. -/
theorem spread_local {S : Finset Nat} {n : Nat} (hS : S ⊆ Finset.range n)
    (hinj : Set.InjOn (· % kNumThreads) (S : Set Nat))
    (hnear : ∀ s ∈ S, ∀ m < n, m ∉ S → dist p1 (set2 s) ≤ dist p1 (set2 m))
    (hflt : ∀ s ∈ S, dist p1 (set2 s) < fltMax) {s : Nat} (hs : s ∈ S) :
    ∃ m : Nat, localBest fltMax dist p1 set2 n (s % kNumThreads) = ⟨dist p1 (set2 s), m⟩ ∧
      (m = s ∨ m ∉ S) := by
  have hlt := Nat.mod_lt s (by decide : 0 < kNumThreads)
  have hle := (localBest_spec n _).dist_le ((mem_indices hlt).2 ⟨Finset.mem_range.1 (hS hs), rfl⟩)
    (hflt s hs)
  obtain ⟨m, hm, hmod, heq⟩ := localBest_of_lt hlt (hle.trans_lt (hflt s hs))
  rw [heq] at hle ⊢
  by_cases hmS : m ∈ S
  · obtain rfl : m = s := hinj hmS hs hmod
    exact ⟨m, rfl, .inl rfl⟩
  · have hdist : dist p1 (set2 m) = dist p1 (set2 s) := le_antisymm hle (hnear s hs m hm hmS)
    exact ⟨m, by rw [hdist], .inr hmS⟩

variable {blockSort : List (KeyValue D) → List (KeyValue D)}

/-- What a thread has in the end is what some thread found. -/
theorem sortKeyValue_mem (hreduce : ReducesBlock blockReduce)
    (hsort : SortsBlock KeyValue.dist blockSort) {k n j : Nat} (hk : k ≤ kNumThreads) (hj : j < k) :
    ∃ t < kNumThreads, sortKeyValue fltMax dist blockReduce blockSort p1 set2 k n j =
      localBest fltMax dist p1 set2 n t := by
  have hall : ∀ kv ∈ (List.range kNumThreads).map (localBest fltMax dist p1 set2 n),
      ∃ t < kNumThreads, kv = localBest fltMax dist p1 set2 n t := by
    intro kv hkv
    obtain ⟨t, ht, rfl⟩ := List.mem_map.1 hkv
    exact ⟨t, List.mem_range.1 ht, rfl⟩
  unfold sortKeyValue
  dsimp only
  by_cases h1 : k = 1
  · rw [if_pos h1, if_pos (by omega)]
    exact hall _ (reduce_minkey hreduce (by simp [kNumThreads])).1
  · have hperm := (hsort ((List.range kNumThreads).map (localBest fltMax dist p1 set2 n))).1
    have hlen : j < (blockSort ((List.range kNumThreads).map
        (localBest fltMax dist p1 set2 n))).length := by
      rw [hperm.length_eq, List.length_map, List.length_range]
      omega
    rw [if_neg h1, if_pos hj, List.getD_eq_getElem?_getD,
      List.getElem?_eq_getElem hlen, Option.getD_some]
    exact hall _ (hperm.mem_iff.1 (List.getElem_mem hlen))

/-- Matches that are the nearest points come from different threads. -/
theorem spread_of_nearest (hreduce : ReducesBlock blockReduce)
    (hsort : SortsBlock KeyValue.dist blockSort) {k n : Nat} (hk : k ≤ kNumThreads)
    {idx : Nat → Nat} (h : KNearest (fun m => dist p1 (set2 m)) n k idx)
    (hkv : ∀ j < min k n, sortKeyValue fltMax dist blockReduce blockSort p1 set2 k n j =
      ⟨dist p1 (set2 (idx j)), idx j⟩) :
    Spread (fun m => dist p1 (set2 m)) fltMax n k := by
  have hthread : ∀ j < min k n, idx j % kNumThreads < kNumThreads ∧
      dist p1 (set2 (idx j)) < fltMax ∧
      localBest fltMax dist p1 set2 n (idx j % kNumThreads) =
        ⟨dist p1 (set2 (idx j)), idx j⟩ := by
    intro j hj
    obtain ⟨t, ht, heq⟩ : ∃ t < kNumThreads, sortKeyValue fltMax dist blockReduce blockSort p1 set2
        k n j = localBest fltMax dist p1 set2 n t :=
      sortKeyValue_mem hreduce hsort hk (hj.trans_le (min_le_left ..))
    rw [hkv j hj] at heq
    obtain ⟨-, hmod, -, hlt⟩ := localBest_some ht heq.symm
    exact ⟨hmod ▸ ht, hlt, hmod ▸ heq.symm⟩
  refine ⟨(Finset.range (min k n)).image idx, ?_, ?_, ?_, ?_, ?_⟩
  · intro m hm
    obtain ⟨j, hj, rfl⟩ := Finset.mem_image.1 hm
    exact Finset.mem_range.2 (h.lt j (Finset.mem_range.1 hj))
  · rw [Finset.card_image_of_injOn, Finset.card_range]
    exact fun i hi j hj => h.inj i (Finset.mem_range.1 hi) j (Finset.mem_range.1 hj)
  · intro m hm m' hm' hmod
    obtain ⟨i, hi, rfl⟩ := Finset.mem_image.1 hm
    obtain ⟨j, hj, rfl⟩ := Finset.mem_image.1 hm'
    have hi' := (hthread i (Finset.mem_range.1 hi)).2.2
    have hj' := (hthread j (Finset.mem_range.1 hj)).2.2
    dsimp only at hmod
    rw [hmod, hj'] at hi'
    have hidx : (idx i : ℤ) = idx j := (congrArg KeyValue.idx hi').symm
    exact_mod_cast hidx
  · intro s hs m hm hnot
    obtain ⟨j, hj, rfl⟩ := Finset.mem_image.1 hs
    refine h.le m hm (fun i hi heq => hnot ?_) j (Finset.mem_range.1 hj)
    exact Finset.mem_image.2 ⟨i, Finset.mem_range.2 hi, heq⟩
  · intro s hs
    obtain ⟨j, hj, rfl⟩ := Finset.mem_image.1 hs
    exact (hthread j (Finset.mem_range.1 hj)).2.1

/-- Bests with a point are different for different threads. -/
theorem filter_localBest_nodup (n : Nat) :
    (((List.range kNumThreads).map (localBest fltMax dist p1 set2 n)).filter
      fun kv => kv.dist < fltMax).Nodup := by
  rw [List.filter_map]
  refine List.Nodup.map_on (fun t ht t' ht' heq => ?_) (List.nodup_range.filter _)
  obtain ⟨ht, hlt⟩ := List.mem_filter.1 ht
  obtain ⟨ht', -⟩ := List.mem_filter.1 ht'
  obtain ⟨m, -, hmod, hm⟩ := localBest_of_lt (List.mem_range.1 ht) (of_decide_eq_true hlt)
  obtain ⟨-, hmod', -⟩ := localBest_some (List.mem_range.1 ht') (heq.symm.trans hm)
  exact hmod.symm.trans hmod'

/-- As many threads have a best up to the furthest of the nearest points. -/
theorem spread_count {S : Finset Nat} {n : Nat} (hS : S ⊆ Finset.range n)
    (hinj : Set.InjOn (· % kNumThreads) (S : Set Nat))
    (hnear : ∀ s ∈ S, ∀ m < n, m ∉ S → dist p1 (set2 s) ≤ dist p1 (set2 m))
    (hflt : ∀ s ∈ S, dist p1 (set2 s) < fltMax) {s : Nat}
    (hmax : ∀ m ∈ S, dist p1 (set2 m) ≤ dist p1 (set2 s)) :
    S.card ≤ ((List.range kNumThreads).map (localBest fltMax dist p1 set2 n)).countP
      fun kv => kv.dist ≤ dist p1 (set2 s) := by
  rw [List.countP_map, List.countP_eq_length_filter, ← Finset.card_image_of_injOn hinj]
  refine (Finset.card_le_card fun t ht => ?_).trans (List.toFinset_card_le _)
  obtain ⟨m, hm, rfl⟩ := Finset.mem_image.1 ht
  obtain ⟨m', hm', -⟩ := spread_local hS hinj hnear hflt hm
  refine List.mem_toFinset.2 (List.mem_filter.2 ⟨List.mem_range.2 (Nat.mod_lt _ (by decide)), ?_⟩)
  rw [Function.comp_apply, hm']
  exact decide_eq_true (hmax m hm)

omit [LinearOrder D] in
theorem take_nodup {L : List (KeyValue D)} {p : KeyValue D → Bool} (h : (L.filter p).Nodup) {k : Nat}
    (hp : ∀ kv ∈ L.take k, p kv = true) : (L.take k).Nodup := by
  rw [← List.filter_eq_self.2 hp]
  exact ((List.take_sublist k L).filter p).nodup h

/-- Sorted bests begin with nearest points, if these are on different threads. -/
theorem nearest_sorted (hsort : SortsBlock KeyValue.dist blockSort) {k n : Nat}
    (h : Spread (fun m => dist p1 (set2 m)) fltMax n k) :
    ∃ idx, KNearest (fun m => dist p1 (set2 m)) n k idx ∧
      ∀ j < min k n, (blockSort ((List.range kNumThreads).map
        (localBest fltMax dist p1 set2 n)))[j]? = some ⟨dist p1 (set2 (idx j)), idx j⟩ := by
  obtain ⟨S, hS, hcard, hinj, hnear, hflt⟩ := h
  obtain ⟨hperm, hsorted⟩ := hsort ((List.range kNumThreads).map (localBest fltMax dist p1 set2 n))
  have hnodup := (hperm.filter fun kv => decide (kv.dist < fltMax)).nodup_iff.2
    (filter_localBest_nodup n)
  generalize hL : blockSort ((List.range kNumThreads).map (localBest fltMax dist p1 set2 n)) = L at *
  have hmem : ∀ kv ∈ L, ∃ t < kNumThreads, kv = localBest fltMax dist p1 set2 n t := by
    intro kv hkv
    obtain ⟨t, ht, rfl⟩ := List.mem_map.1 (hperm.mem_iff.1 hkv)
    exact ⟨t, List.mem_range.1 ht, rfl⟩
  rcases S.eq_empty_or_nonempty with rfl | hne
  · rw [Finset.card_empty] at hcard
    refine ⟨fun _ => 0, ⟨?_, ?_, ?_, ?_⟩, ?_⟩ <;> omega
  -- the furthest of the nearest points
  obtain ⟨s, hs, hmax⟩ := S.exists_max_image (fun m => dist p1 (set2 m)) hne
  have hcount : min k n ≤ L.countP fun kv => kv.dist ≤ dist p1 (set2 s) :=
    hcard ▸ hperm.countP_eq _ ▸ spread_count hS hinj hnear hflt hmax
  have hle : ∀ j < min k n, ∀ kv, L[j]? = some kv → kv.dist ≤ dist p1 (set2 s) :=
    fun j hj kv hkv => key_le_of_countP hsorted hcount hj hkv
  have hlen : min k n ≤ L.length := hcount.trans (List.countP_le_length)
  have hget : ∀ j, ∃ m, j < min k n → m < n ∧ L[j]? = some ⟨dist p1 (set2 m), m⟩ := by
    intro j
    by_cases hj : j < min k n
    · have hjL := hj.trans_le hlen
      obtain ⟨t, ht, heq⟩ := hmem L[j] (List.getElem_mem hjL)
      have hdist := hle j hj _ (List.getElem?_eq_getElem hjL)
      rw [heq] at hdist
      obtain ⟨m, hm, -, hbest⟩ := localBest_of_lt ht (hdist.trans_lt (hflt s hs))
      exact ⟨m, fun _ => ⟨hm, by rw [List.getElem?_eq_getElem hjL, heq, hbest]⟩⟩
    · exact ⟨0, fun h => absurd h hj⟩
  choose idx hidx using hget
  refine ⟨idx, ⟨fun j hj => (hidx j hj).1, ?_, ?_, ?_⟩, fun j hj => (hidx j hj).2⟩
  · intro i hi j hj heq
    have htake : (L.take (min k n)).Nodup := by
      refine take_nodup hnodup fun kv hkv => ?_
      obtain ⟨j, hj, rfl⟩ := List.mem_take_iff_getElem.1 hkv
      have hj' : j < min k n := hj.trans_le (min_le_left ..)
      exact decide_eq_true ((hle j hj' _ (List.getElem?_eq_getElem _)).trans_lt (hflt s hs))
    have hi' : (L.take (min k n))[i]? = some ⟨dist p1 (set2 (idx i)), idx i⟩ := by
      rw [List.getElem?_take_of_lt hi, (hidx i hi).2]
    have hj' : (L.take (min k n))[j]? = some ⟨dist p1 (set2 (idx j)), idx j⟩ := by
      rw [List.getElem?_take_of_lt hj, (hidx j hj).2]
    rw [heq, ← hj'] at hi'
    have hlt : i < (L.take (min k n)).length := by
      rw [List.length_take]
      omega
    exact (List.getElem?_inj hlt htake).1 hi'
  · intro i j hij hj
    rcases hij.lt_or_eq with hlt | rfl
    · obtain ⟨hiL, hi⟩ := List.getElem?_eq_some_iff.1 (hidx i (hlt.trans hj)).2
      obtain ⟨hjL, hj⟩ := List.getElem?_eq_some_iff.1 (hidx j hj).2
      have := List.pairwise_iff_getElem.1 hsorted i j hiL hjL hlt
      rwa [hi, hj] at this
    · exact le_rfl
  · intro m hm hnot j hj
    have hj' : dist p1 (set2 (idx j)) ≤ dist p1 (set2 s) := hle j hj _ (hidx j hj).2
    by_cases hmS : m ∈ S
    · obtain ⟨m', hm', hor⟩ := spread_local hS hinj hnear hflt hmS
      have hin : localBest fltMax dist p1 set2 n (m % kNumThreads) ∈ L :=
        hperm.mem_iff.2 (List.mem_map_of_mem (List.mem_range.2 (Nat.mod_lt _ (by decide))))
      obtain ⟨p, hp, hLp⟩ := List.getElem_of_mem hin
      by_cases hpk : p < min k n
      · -- the thread's point is among the matches, so it is another one
        have hpm : idx p = m' := by
          have := (hidx p hpk).2
          rw [List.getElem?_eq_getElem hp, hLp, hm'] at this
          have hcast : (idx p : ℤ) = m' := (congrArg KeyValue.idx (Option.some.inj this)).symm
          exact_mod_cast hcast
        have hm'S : m' ∉ S := hor.resolve_left fun heq => hnot p hpk (hpm.trans heq)
        obtain ⟨hm'n, -, hdist, -⟩ := localBest_some (Nat.mod_lt _ (by decide)) hm'
        exact hj'.trans (hdist ▸ hnear s hs m' hm'n hm'S)
      · obtain ⟨hjL, hj⟩ := List.getElem?_eq_some_iff.1 (hidx j hj).2
        have := List.pairwise_iff_getElem.1 hsorted j p hjL hp (by omega)
        rwa [hj, hLp, hm'] at this
    · exact hj'.trans (hnear s hs m hm hmS)

/-- For one match it is enough that some point is near. -/
theorem nearest_reduced (hreduce : ReducesBlock blockReduce) {n : Nat}
    (h : Spread (fun m => dist p1 (set2 m)) fltMax n 1) :
    ∃ idx, KNearest (fun m => dist p1 (set2 m)) n 1 idx ∧
      ∀ j < min 1 n, sortKeyValue fltMax dist blockReduce blockSort p1 set2 1 n j =
        ⟨dist p1 (set2 (idx j)), idx j⟩ := by
  obtain ⟨S, hS, hcard, -, -, hflt⟩ := h
  rcases Nat.eq_zero_or_pos n with rfl | hn
  · refine ⟨fun _ => 0, ⟨?_, ?_, ?_, ?_⟩, ?_⟩ <;> omega
  have hone : min 1 n = 1 := min_eq_left hn
  obtain ⟨s, hs⟩ := Finset.card_pos.1 (by omega : 0 < S.card)
  have hbest : BestOf (fun m => dist p1 (set2 m)) fltMax _ _ := reduced_spec hreduce n
  rcases hbest with ⟨-, hall⟩ | ⟨m, hm, heq, -, hmin⟩
  · exact absurd (hflt s hs) (not_lt.2 (hall s (List.mem_range.2 (Finset.mem_range.1 (hS hs)))))
  · refine ⟨fun _ => m, ⟨fun _ _ => List.mem_range.1 hm, fun i hi j hj _ => by omega,
      fun _ _ _ _ => le_rfl, fun m' hm' _ _ _ => ?_⟩, fun j hj => ?_⟩
    · exact (hmin m' (List.mem_range.2 hm')).elim le_of_lt fun h => h.1.le
    · unfold sortKeyValue
      dsimp only
      rw [if_pos rfl, if_pos (by omega), heq]

/-- A point's matches are its nearest points if some of these are on different threads. -/
theorem nearest_iff_spread (hreduce : ReducesBlock blockReduce)
    (hsort : SortsBlock KeyValue.dist blockSort) {k : Nat} (hk : k ≤ kNumThreads) (n : Nat) :
    (∃ idx, KNearest (fun m => dist p1 (set2 m)) n k idx ∧
      ∀ j < min k n, sortKeyValue fltMax dist blockReduce blockSort p1 set2 k n j =
        ⟨dist p1 (set2 (idx j)), idx j⟩) ↔
      Spread (fun m => dist p1 (set2 m)) fltMax n k := by
  constructor
  · rintro ⟨idx, hidx, hkv⟩
    exact spread_of_nearest hreduce hsort hk hidx hkv
  · intro h
    by_cases h1 : k = 1
    · subst h1
      exact nearest_reduced hreduce h
    · obtain ⟨idx, hidx, hkv⟩ := nearest_sorted hsort h
      refine ⟨idx, hidx, fun j hj => ?_⟩
      unfold sortKeyValue
      dsimp only
      rw [if_neg h1, if_pos (hj.trans_le (min_le_left ..)), List.getD_eq_getElem?_getD, hkv j hj,
        Option.getD_some]

end

/-! ## All matches -/

section
variable {P D : Type} [LinearOrder D] {fltMax : D} {dist : P → P → D}
  {blockReduce : (KeyValue D → KeyValue D → KeyValue D) → List (KeyValue D) → KeyValue D}
  {blockSort : List (KeyValue D) → List (KeyValue D)} {set1 set2 : PointSet P}

/-- The threads of the blocks that have a point. -/
def threads (n : Nat) : List (Nat × Nat) :=
  (List.range n).flatMap fun set1Idx => (List.range kNumThreads).map fun threadIdx =>
    (set1Idx, threadIdx)

theorem mem_threads {n : Nat} {item : Nat × Nat} :
    item ∈ threads n ↔ item.1 < n ∧ item.2 < kNumThreads := by
  obtain ⟨i, t⟩ := item
  simp [threads]

theorem storeMatch_of_lt {k outCapacity i j : Nat} (hj : j < k) (hout : i * k + j < outCapacity) :
    storeMatch fltMax dist blockReduce blockSort set1 set2 k outCapacity (i, j) =
      some (((i * k + j : ℕ) : ℤ), writeMatch i
        (sortKeyValue fltMax dist blockReduce blockSort (set1.point i) set2.point k set2.size j)) :=
  if_pos ⟨hj, hout⟩

/-- Each match is stored at a place of its own. -/
theorem matchAll_found {k outCapacity : Nat} (hk : k ≤ kNumThreads) {order : List (Nat × Nat)}
    (ho : order.Perm (threads set1.size)) {i j : Nat} (hi : i < set1.size) (hj : j < k)
    (hout : i * k + j < outCapacity) :
    (matchAll fltMax dist blockReduce blockSort set1 set2 k outCapacity order).found
        (i * k + j : ℕ) =
      some (writeMatch i (sortKeyValue fltMax dist blockReduce blockSort (set1.point i) set2.point k
        set2.size j)) := by
  have hin : (i, j) ∈ order := ho.mem_iff.2 (mem_threads.2 ⟨hi, hj.trans_le hk⟩)
  have hmem : _ ∈ order.filterMap
      (storeMatch fltMax dist blockReduce blockSort set1 set2 k outCapacity) :=
    List.mem_filterMap.2 ⟨(i, j), hin, storeMatch_of_lt hj hout⟩
  obtain ⟨d, hd, hfound⟩ := writeAll_mem hmem fun _ => none
  refine hfound.trans (congrArg some ?_)
  obtain ⟨⟨i', j'⟩, -, hw⟩ := List.mem_filterMap.1 hd
  unfold storeMatch at hw
  dsimp only at hw
  split at hw
  · obtain ⟨hplace, rfl⟩ := Prod.mk.inj (Option.some.inj hw)
    have hplace' : i' * k + j' = i * k + j := by exact_mod_cast hplace
    have hj'k : j' < k := And.left ‹_›
    have hii : i' = i := by
      have h1 : (i' * k + j') / k = i' := by
        rw [Nat.mul_comm, Nat.mul_add_div (by omega), Nat.div_eq_of_lt hj'k, Nat.add_zero]
      have h2 : (i * k + j) / k = i := by
        rw [Nat.mul_comm, Nat.mul_add_div (by omega), Nat.div_eq_of_lt hj, Nat.add_zero]
      rw [← h1, hplace', h2]
    subst hii
    obtain rfl : j' = j := by omega
    rfl
  · cases hw

/-- The matches of a point are its nearest points, in the places that are its own. -/
def PointMatched (dist : P → P → D) (set1 set2 : PointSet P) (k i : Nat)
    (found : ℤ → Option (Match D)) : Prop :=
  ∃ idx, KNearest (fun m => dist (set1.point i) (set2.point m)) set2.size k idx ∧
    ∀ j < min k set2.size, found (i * k + j : ℕ) =
      some ⟨i, idx j, dist (set1.point i) (set2.point (idx j))⟩

theorem pointMatched_iff (hreduce : ReducesBlock blockReduce)
    (hsort : SortsBlock KeyValue.dist blockSort) {k outCapacity : Nat} (hk : k ≤ kNumThreads)
    {order : List (Nat × Nat)} (ho : order.Perm (threads set1.size)) {i : Nat} (hi : i < set1.size)
    (hout : (i + 1) * k ≤ outCapacity) :
    PointMatched dist set1 set2 k i
      (matchAll fltMax dist blockReduce blockSort set1 set2 k outCapacity order).found ↔
    Spread (fun m => dist (set1.point i) (set2.point m)) fltMax set2.size k := by
  rw [← nearest_iff_spread hreduce hsort hk set2.size]
  refine exists_congr fun idx => and_congr_right fun _ => forall_congr' fun j =>
    forall_congr' fun hj => ?_
  have hjk : j < k := hj.trans_le (min_le_left ..)
  rw [matchAll_found hk ho hi hjk (by rw [Nat.succ_mul] at hout; omega), writeMatch]
  generalize sortKeyValue fltMax dist blockReduce blockSort (set1.point i) set2.point k set2.size j
    = kv
  cases kv
  simp [Match.mk.injEq, KeyValue.mk.injEq, and_comm]

end

/-! ## Cross check -/

section
variable {P D : Type} [LinearOrder D] {fltMax : D} (metric : Distance P D)
  {blockReduce : (KeyValue D → KeyValue D → KeyValue D) → List (KeyValue D) → KeyValue D}
  {blockSort : List (KeyValue D) → List (KeyValue D)} (set1 set2 : PointSet P)

/-- Each is the other's nearest point. -/
def Mutual (i j : Nat) : Prop :=
  FirstNearest (fun m => metric.dist (set1.point i) (set2.point m)) set2.size j ∧
    FirstNearest (fun m => metric.dist (set2.point j) (set1.point m)) set1.size i

instance (i j : Nat) : Decidable (Mutual metric set1 set2 i j) := inferInstanceAs (Decidable (_ ∧ _))

/-- The matches of all such pairs. -/
def mutualMatches : Finset (Match D) :=
  ((Finset.range set1.size ×ˢ Finset.range set2.size).filter fun p =>
    Mutual metric set1 set2 p.1 p.2).image fun p =>
      ⟨p.1, p.2, metric.dist (set1.point p.1) (set2.point p.2)⟩

variable {metric set1 set2}

theorem mem_mutualMatches {m : Match D} : m ∈ mutualMatches metric set1 set2 ↔
    ∃ i j, Mutual metric set1 set2 i j ∧
      m = ⟨i, j, metric.dist (set1.point i) (set2.point j)⟩ := by
  simp only [mutualMatches, Finset.mem_image, Finset.mem_filter, Finset.mem_product,
    Finset.mem_range]
  constructor
  · rintro ⟨⟨i, j⟩, ⟨-, hm⟩, rfl⟩
    exact ⟨i, j, hm, rfl⟩
  · rintro ⟨i, j, hm, rfl⟩
    exact ⟨(i, j), ⟨⟨hm.2.1, hm.1.1⟩, hm⟩, rfl⟩

omit [LinearOrder D] in
theorem PointSet.size_le (s : PointSet P) : s.size ≤ s.capacity := by
  unfold PointSet.size
  split
  · exact le_rfl
  · split <;> omega

theorem sortKeyValue_one (p : P) (s : Nat → P) (n : Nat) :
    sortKeyValue fltMax metric.dist blockReduce blockSort p s 1 n 0 =
      blockReduce minkey ((List.range kNumThreads).map (localBest fltMax metric.dist p s n)) :=
  rfl

variable (fltMax blockSort) in
/-- A point with no near point has a match outside the set; the others' matches are right. -/
theorem crossCheck_eq (hreduce : ReducesBlock blockReduce) {i : Nat} (hi : i < set1.size) :
    ((∀ j < set2.size, fltMax ≤ metric.dist (set1.point i) (set2.point j)) ∧
      crossCheck fltMax metric.dist blockReduce blockSort set1 set2 i = none) ∨
    ((∃ j < set2.size, metric.dist (set1.point i) (set2.point j) < fltMax) ∧
      ∃ j, FirstNearest (fun m => metric.dist (set1.point i) (set2.point m)) set2.size j ∧
        crossCheck fltMax metric.dist blockReduce blockSort set1 set2 i =
          some (if Mutual metric set1 set2 i j then
            some ⟨i, j, metric.dist (set1.point i) (set2.point j)⟩ else none)) := by
  have hbest : BestOf _ fltMax (List.range set2.size)
      (sortKeyValue fltMax metric.dist blockReduce blockSort (set1.point i) set2.point 1
        set2.size 0) := reduced_spec hreduce set2.size
  unfold crossCheck
  rcases hbest with ⟨heq, hall⟩ | ⟨j, hj, heq, hlt, hmin⟩
  · refine .inl ⟨fun j hj => hall j (List.mem_range.2 hj), ?_⟩
    rw [heq]
    rfl
  · have hj' := List.mem_range.1 hj
    have hfirst : FirstNearest (fun m => metric.dist (set1.point i) (set2.point m)) set2.size j :=
      ⟨hj', fun m hm => hmin m (List.mem_range.2 hm)⟩
    refine .inr ⟨⟨j, hj', hlt⟩, j, hfirst, ?_⟩
    have hload : set2.load j = some (set2.point j) :=
      if_pos ⟨Int.natCast_nonneg j, by exact_mod_cast hj'.trans_le set2.size_le⟩
    have hback : BestOf _ fltMax (List.range set1.size)
        (sortKeyValue fltMax metric.dist blockReduce blockSort (set2.point j) set1.point 1
          set1.size 0) := reduced_spec hreduce set1.size
    rw [heq, Option.bind_eq_bind]
    dsimp only
    rw [hload, Option.bind_some]
    congr 1
    rcases hback with ⟨-, hall⟩ | ⟨i', hi', hidx, -, hmin'⟩
    · have hle : fltMax ≤ metric.dist (set2.point j) (set1.point i) := hall i (List.mem_range.2 hi)
      rw [metric.comm] at hle
      exact absurd hlt (not_lt.2 hle)
    · have hfirst' : FirstNearest (fun m => metric.dist (set2.point j) (set1.point m)) set1.size
          i' := ⟨List.mem_range.1 hi', fun m hm => hmin' m (List.mem_range.2 hm)⟩
      rw [hidx]
      refine if_congr ?_ rfl rfl
      dsimp only
      rw [Nat.cast_inj]
      constructor
      · rintro rfl
        exact ⟨hfirst, hfirst'⟩
      · exact fun hm => hfirst'.unique hm.2

/-- All blocks have a match inside the set if all points are near one. -/
theorem isSome_crossCheck (hreduce : ReducesBlock blockReduce) {i : Nat} (hi : i < set1.size) :
    (crossCheck fltMax metric.dist blockReduce blockSort set1 set2 i).isSome = true ↔
      ∃ j < set2.size, metric.dist (set1.point i) (set2.point j) < fltMax := by
  rcases crossCheck_eq fltMax blockSort hreduce hi with ⟨hall, hnone⟩ | ⟨hex, j, -, hsome⟩
  · rw [hnone]
    constructor
    · exact fun h => absurd h Bool.false_ne_true
    · rintro ⟨j, hj, hlt⟩
      exact absurd hlt (not_lt.2 (hall j hj))
  · rw [hsome]
    exact iff_of_true rfl hex

/-- What a block reports. -/
theorem join_crossCheck (hreduce : ReducesBlock blockReduce) {i : Nat} (hi : i < set1.size)
    {m : Match D} : (crossCheck fltMax metric.dist blockReduce blockSort set1 set2 i).join = some m →
      m.set1Idx = i ∧ m ∈ mutualMatches metric set1 set2 := by
  rcases crossCheck_eq fltMax blockSort hreduce hi with ⟨-, hnone⟩ | ⟨-, j, -, hsome⟩
  · rw [hnone]
    exact fun h => absurd h (by simp)
  · rw [hsome, Option.join_some]
    intro h
    split at h
    · cases h
      exact ⟨rfl, mem_mutualMatches.2 ⟨i, j, ‹_›, rfl⟩⟩
    · cases h

/-- What the blocks report, in an order. -/
theorem reported_spec (hreduce : ReducesBlock blockReduce) {order : List Nat}
    (ho : order.Perm (List.range set1.size))
    (hsome : ∀ i ∈ order,
      (crossCheck fltMax metric.dist blockReduce blockSort set1 set2 i).isSome = true) :
    (order.filterMap fun i =>
      (crossCheck fltMax metric.dist blockReduce blockSort set1 set2 i).join).Nodup ∧
    ∀ m, m ∈ (order.filterMap fun i =>
      (crossCheck fltMax metric.dist blockReduce blockSort set1 set2 i).join) ↔
        m ∈ mutualMatches metric set1 set2 := by
  have hlt : ∀ i ∈ order, i < set1.size := fun i hi => List.mem_range.1 (ho.mem_iff.1 hi)
  constructor
  · refine List.pairwise_filterMap.2 ((ho.nodup_iff.2 List.nodup_range).imp_of_mem ?_)
    intro i i' hi hi' hne m hm m' hm' heq
    obtain ⟨hmi, -⟩ := join_crossCheck hreduce (hlt i hi) hm
    obtain ⟨hmi', -⟩ := join_crossCheck hreduce (hlt i' hi') hm'
    exact hne (hmi.symm.trans ((congrArg Match.set1Idx heq).trans hmi'))
  · intro m
    rw [List.mem_filterMap]
    constructor
    · rintro ⟨i, hi, hm⟩
      exact (join_crossCheck hreduce (hlt i hi) hm).2
    · intro hm
      obtain ⟨i, j, hmut, rfl⟩ := mem_mutualMatches.1 hm
      have hi : i ∈ order := ho.mem_iff.2 (List.mem_range.2 hmut.2.1)
      refine ⟨i, hi, ?_⟩
      have hblock := hsome i hi
      rcases crossCheck_eq fltMax blockSort hreduce hmut.2.1 with
        ⟨-, hnone⟩ | ⟨-, j', hj', heq⟩
      · rw [hnone] at hblock
        cases hblock
      · obtain rfl : j' = j := hj'.unique hmut.1
        rw [heq, if_pos hmut, Option.join_some]

/-- With cross check the matches are the pairs that are each other's nearest points. -/
theorem crossChecked_iff (hreduce : ReducesBlock blockReduce) (outCapacity : Nat) {order : List Nat}
    (ho : order.Perm (List.range set1.size)) :
    (∃ r, matchCrossCheck fltMax metric.dist blockReduce blockSort set1 set2 outCapacity order =
        some r ∧ Complete outCapacity r.numMatches r.found (mutualMatches metric set1 set2)) ↔
      ∀ i < set1.size, ∃ j < set2.size, metric.dist (set1.point i) (set2.point j) < fltMax := by
  have hlt : ∀ i ∈ order, i < set1.size := fun i hi => List.mem_range.1 (ho.mem_iff.1 hi)
  have hall : (∀ i ∈ order,
        (crossCheck fltMax metric.dist blockReduce blockSort set1 set2 i).isSome = true) ↔
      ∀ i < set1.size, ∃ j < set2.size, metric.dist (set1.point i) (set2.point j) < fltMax := by
    constructor
    · exact fun h i hi => (isSome_crossCheck hreduce hi).1 (h i (ho.mem_iff.2 (List.mem_range.2 hi)))
    · exact fun h i hi => (isSome_crossCheck hreduce (hlt i hi)).2 (h i (hlt i hi))
  rw [← hall]
  unfold matchCrossCheck
  dsimp only
  constructor
  · rintro ⟨r, hr, -⟩
    by_contra hnot
    rw [if_neg hnot] at hr
    cases hr
  · intro hsome
    obtain ⟨hnd, hmem⟩ := reported_spec hreduce ho hsome
    refine ⟨_, if_pos hsome, complete_of_ranks hnd hmem rfl (fun n => n) (fun p m hp => ?_)
      fun n hn => ?_⟩
    · obtain ⟨⟨m', n⟩, hzip, hw⟩ := List.mem_filterMap.1 hp
      dsimp only at hw
      split at hw
      · cases hw
        exact ⟨n, List.mem_zipIdx_iff_getElem?.1 hzip, rfl⟩
      · cases hw
    · obtain ⟨m, hm⟩ : ∃ m, _ = some m :=
        ⟨_, List.getElem?_eq_getElem (hn.trans_le (min_le_left ..))⟩
      exact ⟨m, List.mem_filterMap.2 ⟨(m, n), List.mem_zipIdx_iff_getElem?.2 hm,
        if_pos (hn.trans_le (min_le_right ..))⟩⟩

/-- **Pairwise matcher**: without cross check a point's matches are its nearest points if some of
these are on different threads; with it, the matches are the pairs that are each other's nearest
points if all points are near one. -/
theorem matcher_iff (metric : Distance P D) (fltMax : D) (hreduce : ReducesBlock blockReduce)
    (hsort : SortsBlock KeyValue.dist blockSort) (set1 set2 : PointSet P) (outCapacity : Nat) :
    (∀ k ≤ kNumThreads, ∀ order : List (Nat × Nat), order.Perm (threads set1.size) →
      ∀ i < set1.size, (i + 1) * k ≤ outCapacity →
      (PointMatched metric.dist set1 set2 k i
          (matchAll fltMax metric.dist blockReduce blockSort set1 set2 k outCapacity order).found ↔
        Spread (fun m => metric.dist (set1.point i) (set2.point m)) fltMax set2.size k)) ∧
    ∀ order : List Nat, order.Perm (List.range set1.size) →
      ((∃ r, matchCrossCheck fltMax metric.dist blockReduce blockSort set1 set2 outCapacity order =
          some r ∧ Complete outCapacity r.numMatches r.found (mutualMatches metric set1 set2)) ↔
        ∀ i < set1.size, ∃ j < set2.size,
          metric.dist (set1.point i) (set2.point j) < fltMax) :=
  ⟨fun _ hk _ ho _ hi hout => pointMatched_iff hreduce hsort hk ho hi hout,
    fun _ ho => crossChecked_iff hreduce outCapacity ho⟩

end

/-! ## Two points of one thread -/

def reduceInOrder (op : KeyValue Nat → KeyValue Nat → KeyValue Nat) (l : List (KeyValue Nat)) :
    KeyValue Nat :=
  l.tail.foldl op (l.headD ⟨0, -1⟩)

def sortInOrder (l : List (KeyValue Nat)) : List (KeyValue Nat) :=
  l.insertionSort fun a b => a.dist ≤ b.dist

theorem sortInOrder_sorts : SortsBlock KeyValue.dist sortInOrder := fun l =>
  ⟨List.perm_insertionSort _ l, List.pairwise_insertionSort _ l⟩

/-- A point at 0. -/
def origin : PointSet (Nat → Nat) := ⟨fun _ _ => 0, 1, none⟩

/-- Points at 0 and 1, a stride of the block apart, and others at 100. -/
def strided : PointSet (Nat → Nat) :=
  ⟨fun m _ => if m = 0 then 0 else if m = 64 then 1 else 100, 65, none⟩

/-- The matches of near points, in order. -/
theorem matcher_strided :
    (PointMatched (integerDistance .l1 1).dist origin strided 1 0
      (matchAll 1000 (integerDistance .l1 1).dist reduceInOrder sortInOrder origin strided 1 10
        (threads 1)).found ↔
      Spread (fun m => (integerDistance .l1 1).dist (origin.point 0) (strided.point m)) 1000 65 1) ∧
    ∃ r, matchCrossCheck 1000 (integerDistance .l1 1).dist reduceInOrder sortInOrder origin strided 10
        (List.range 1) = some r ∧
      Complete 10 r.numMatches r.found (mutualMatches (integerDistance .l1 1) origin strided) := by
  have hreduce : ReducesBlock reduceInOrder := fun _ _ _ _ _ => rfl
  obtain ⟨hall, hcross⟩ := matcher_iff (integerDistance .l1 1) 1000 hreduce sortInOrder_sorts origin
    strided 10
  exact ⟨hall 1 (by decide) (threads 1) (.refl _) 0 (by decide) (by decide),
    (hcross (List.range 1) (.refl _)).2 (by decide)⟩

/-- The nearest two points are both the first thread's, which keeps one. -/
theorem same_thread : ¬PointMatched (integerDistance .l1 1).dist origin strided 2 0
    (matchAll 1000 (integerDistance .l1 1).dist reduceInOrder sortInOrder origin strided 2 10
      (threads 1)).found := by
  have hreduce : ReducesBlock reduceInOrder := fun _ _ _ _ _ => rfl
  intro h
  obtain ⟨S, hS, hcard, hinj, hnear, -⟩ := (pointMatched_iff hreduce sortInOrder_sorts (k := 2)
    (by decide) (.refl _) (by decide) (by decide)).1 h
  have hdist : ∀ m, (integerDistance .l1 1).dist (origin.point 0) (strided.point m) =
      if m = 0 then 0 else if m = 64 then 1 else 100 := by
    intro m
    simp only [integerDistance, origin, strided, computeDistance, absdiff, List.range_one,
      List.foldl_cons, List.foldl_nil]
    split
    · rfl
    · split <;> rfl
  simp only [hdist] at hnear
  have hcard2 : S.card = 2 := hcard
  have h0 : 0 ∈ S := by
    by_contra h0
    have hsub : S ⊆ {0} := fun s hs => by
      have := hnear s hs 0 (by decide) h0
      simp only [if_true] at this
      split at this
      · simp [*]
      · split at this <;> omega
    have := Finset.card_le_card hsub
    simp at this
    omega
  have h64 : 64 ∈ S := by
    by_contra h64
    have hsub : S ⊆ {0} := fun s hs => by
      have := hnear s hs 64 (by decide) h64
      simp only [if_true] at this
      split at this
      · simp [*]
      · split at this
        · exact absurd (‹s = 64› ▸ hs) h64
        · simp at this
    have := Finset.card_le_card hsub
    simp at this
    omega
  exact absurd (hinj h0 h64 rfl) (by decide)

end Cvcuda.PairwiseMatcher
