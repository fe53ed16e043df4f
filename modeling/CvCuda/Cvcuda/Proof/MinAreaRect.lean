import CvCuda.Cvcuda.MinAreaRect
import CvCuda.Lib.Int32

/-! # The smallest rectangle in any order of steps

* `areas_settled`: the stored areas, if bounds are read when no point is outside them any more.
* `minLoop_le_iff`: what the halving loop compares.
* `rect_minimal`: both, for a whole run.
* `stale_area`: an area stored late.
-/

namespace Cvcuda.MinAreaRect

/-! ## The halving loop -/

theorem halve_of_le {stride i : Nat} (h : stride ≤ i) (buf : Buf) : halve stride buf i = buf i :=
  if_neg fun hi => absurd hi.1 (not_lt.2 h)

theorem le_halve_iff {stride i : Nat} (h : i < stride) (buf : Buf) (c : ℤ) :
    c ≤ (halve stride buf i).1 ↔ c ≤ (buf i).1 ∧ c ≤ (buf (i + stride)).1 := by
  unfold halve
  split
  · omega
  · omega

theorem exists_halve {stride i : Nat} (h : i < stride) (buf : Buf) :
    ∃ j < 2 * stride, halve stride buf i = buf j := by
  unfold halve
  split
  · exact ⟨i + stride, by omega, rfl⟩
  · exact ⟨i, by omega, rfl⟩

theorem absorbOdd_of_ne {i : Nat} (h : i ≠ 0) (stride : Nat) (buf : Buf) :
    absorbOdd stride buf i = buf i := by
  unfold absorbOdd
  split
  · exact Function.update_of_ne h ..
  · rfl

theorem le_absorbOdd_iff (stride : Nat) (buf : Buf) (c : ℤ) :
    c ≤ (absorbOdd stride buf 0).1 ↔
      c ≤ (buf 0).1 ∧ (stride % 2 = 1 → c ≤ (buf (stride - 1)).1) := by
  unfold absorbOdd
  split
  · rw [Function.update_self]
    omega
  · omega

theorem exists_absorbOdd {stride : Nat} (h : stride ≠ 0) (buf : Buf) :
    ∃ j < stride, absorbOdd stride buf 0 = buf j := by
  unfold absorbOdd
  split
  · exact ⟨stride - 1, by omega, Function.update_self ..⟩
  · exact ⟨0, by omega, rfl⟩

/-- What is left to compare after one pass bounds what was before. -/
theorem pass_le_iff {stride : Nat} (h : stride ≠ 0) (buf : Buf) (c : ℤ) :
    (∀ i < max 1 (2 * (stride / 2)), c ≤ (absorbOdd stride (halve stride buf) i).1) ↔
      ∀ i < max 1 (2 * stride), c ≤ (buf i).1 := by
  have hhalf : (∀ i < stride, c ≤ (halve stride buf i).1) ↔
      ∀ i < max 1 (2 * stride), c ≤ (buf i).1 := by
    constructor
    · intro hc i hi
      by_cases his : i < stride
      · exact ((le_halve_iff his buf c).1 (hc i his)).1
      · have hlt : i - stride < stride := by omega
        have := ((le_halve_iff hlt buf c).1 (hc _ hlt)).2
        rwa [Nat.sub_add_cancel (by omega)] at this
    · exact fun hc i hi => (le_halve_iff hi buf c).2 ⟨hc i (by omega), hc _ (by omega)⟩
  rw [← hhalf]
  constructor
  · intro hc i hi
    obtain ⟨h0, hodd⟩ := (le_absorbOdd_iff stride _ c).1 (hc 0 (by omega))
    rcases Nat.eq_zero_or_pos i with rfl | hpos
    · exact h0
    · by_cases hlt : i < 2 * (stride / 2)
      · have := hc i (by omega)
        rwa [absorbOdd_of_ne (by omega)] at this
      · -- the entry that is left out below an odd stride
        have hi' : i = stride - 1 := by omega
        rw [hi']
        exact hodd (by omega)
  · intro hc i hi
    rcases Nat.eq_zero_or_pos i with rfl | hpos
    · exact (le_absorbOdd_iff stride _ c).2 ⟨hc 0 (by omega), fun _ => hc _ (by omega)⟩
    · rw [absorbOdd_of_ne (by omega)]
      exact hc i (by omega)

/-- The first entry is in the end one of those compared, of the least area. -/
theorem minLoop_le_iff (stride : Nat) (buf : Buf) (c : ℤ) :
    c ≤ (minLoop stride buf 0).1 ↔ ∀ i < max 1 (2 * stride), c ≤ (buf i).1 := by
  induction stride using Nat.strong_induction_on generalizing buf with
  | _ stride ih =>
    rw [minLoop]
    by_cases h : stride = 0
    · rw [if_pos h]
      constructor
      · intro hc i hi
        rwa [(by omega : i = 0)]
      · exact fun hc => hc 0 (by omega)
    · rw [if_neg h, ih (stride / 2) (by omega), pass_le_iff h]

theorem exists_minLoop (stride : Nat) (buf : Buf) :
    ∃ j < max 1 (2 * stride), minLoop stride buf 0 = buf j := by
  induction stride using Nat.strong_induction_on generalizing buf with
  | _ stride ih =>
    rw [minLoop]
    by_cases h : stride = 0
    · rw [if_pos h]
      exact ⟨0, by omega, rfl⟩
    · rw [if_neg h]
      obtain ⟨i, hi, heq⟩ := ih (stride / 2) (by omega) (absorbOdd stride (halve stride buf))
      have hpass : ∃ j < stride, absorbOdd stride (halve stride buf) i = halve stride buf j := by
        rcases Nat.eq_zero_or_pos i with rfl | hpos
        · exact exists_absorbOdd h _
        · exact ⟨i, by omega, absorbOdd_of_ne (by omega) ..⟩
      obtain ⟨j, hj, hij⟩ := hpass
      obtain ⟨k, hk, hjk⟩ := exists_halve hj buf
      exact ⟨k, by omega, heq.trans (hij.trans hjk)⟩

/-- Entries from the first stride on stay. -/
theorem minLoop_of_le {stride i : Nat} (h : stride ≤ i) (hi : i ≠ 0 ∨ stride = 0) (buf : Buf) :
    minLoop stride buf i = buf i := by
  induction stride using Nat.strong_induction_on generalizing buf with
  | _ stride ih =>
    rw [minLoop]
    by_cases h0 : stride = 0
    · rw [if_pos h0]
    · have hne : i ≠ 0 := by omega
      rw [if_neg h0, ih (stride / 2) (by omega) (by omega) (.inl hne), absorbOdd_of_ne hne, halve_of_le h]

/-! ## After the last barrier -/

/-- What the first thread selects, of the first entry and the last one. -/
def Chosen (numOfDegrees : Nat) (first last : ℤ × ℤ) (angle : ℤ) : Prop :=
  (¬(numOfDegrees % 2 = 1 ∧ last.1 < first.1) ∧ angle = first.2) ∨
    ((numOfDegrees % 2 = 1 ∧ last.1 < first.1) ∧ angle = last.2)

/-- The first thread reads the rotation of an entry, not while it is half one and half another. -/
def LastOk (first last : ℤ × ℤ) (f : Last) (t : Nat) : Prop :=
  f.pcs t = .readAngle → f.entry = first ∨ f.entry = last

instance (first last : ℤ × ℤ) (f : Last) (t : Nat) : Decidable (LastOk first last f t) :=
  inferInstanceAs (Decidable (_ → _))

/-- The first entry on its way to the last one, if that has the smaller area. -/
structure LastInv (numOfDegrees : Nat) (first last : ℤ × ℤ) (f : Last) : Prop where
  kept : ¬(numOfDegrees % 2 = 1 ∧ last.1 < first.1) → f.entry = first
  area : f.entry.1 = first.1 ∨ f.entry.1 = last.1
  writes : ∀ t, f.pcs t = .writeArea ∨ f.pcs t = .writeAngle →
    numOfDegrees % 2 = 1 ∧ last.1 < first.1
  written : ∀ t, f.pcs t = .writeAngle ∨ f.pcs t = .readAngle →
    ¬(numOfDegrees % 2 = 1 ∧ last.1 < f.entry.1)
  chosen : ∀ angle, f.minRotateAngle = some angle → Chosen numOfDegrees first last angle

/-- One thread goes on; the facts about the positions of the others stay. -/
theorem forall_update {P : LastPc → Prop} {Q : Prop} {pcs : Nat → LastPc} {t : Nat} {pc : LastPc}
    (h : ∀ t, P (pcs t) → Q) (hpc : P pc → Q) (t' : Nat) :
    P (Function.update pcs t pc t') → Q := by
  rw [Function.update_apply]
  split
  · exact hpc
  · exact h t'

theorem lastStep_inv {numOfDegrees : Nat} {first last : ℤ × ℤ} {f f' : Last} {t : Nat}
    (h : LastInv numOfDegrees first last f) (hok : LastOk first last f t)
    (hs : lastStep numOfDegrees last f t = some f') : LastInv numOfDegrees first last f' := by
  unfold lastStep at hs
  split at hs
  · cases hs
  dsimp only at hs
  cases hpc : f.pcs t with
  | compare =>
    rw [hpc] at hs
    cases hs
    refine ⟨h.kept, h.area, ?_, ?_, h.chosen⟩
    · refine forall_update (P := fun pc => pc = .writeArea ∨ pc = .writeAngle) h.writes ?_
      intro hw
      have hcond : numOfDegrees % 2 = 1 ∧ last.1 < f.entry.1 := by
        by_contra hnot
        rw [if_neg hnot] at hw
        split at hw <;> simp at hw
      rcases h.area with harea | harea
      · exact ⟨hcond.1, harea ▸ hcond.2⟩
      · omega
    · refine forall_update (P := fun pc => pc = .writeAngle ∨ pc = .readAngle) h.written ?_
      intro hw hcond
      rw [if_pos hcond] at hw
      simp at hw
  | writeArea =>
    rw [hpc] at hs
    cases hs
    have hcond := h.writes t (.inl hpc)
    refine ⟨fun hnot => absurd hcond hnot, .inr rfl, fun _ _ => hcond, ?_, h.chosen⟩
    exact fun _ _ hlt => absurd hlt.2 (lt_irrefl _)
  | writeAngle =>
    rw [hpc] at hs
    cases hs
    have hcond := h.writes t (.inr hpc)
    refine ⟨fun hnot => absurd hcond hnot, h.area, fun _ _ => hcond, ?_, h.chosen⟩
    exact forall_update (P := fun pc => pc = .writeAngle ∨ pc = .readAngle) h.written fun _ =>
      h.written t (.inl hpc)
  | readAngle =>
    rw [hpc] at hs
    cases hs
    refine ⟨h.kept, h.area, ?_, ?_, ?_⟩
    · exact forall_update (P := fun pc => pc = .writeArea ∨ pc = .writeAngle) h.writes (by simp)
    · exact forall_update (P := fun pc => pc = .writeAngle ∨ pc = .readAngle) h.written (by simp)
    · intro angle hangle
      cases hangle
      by_cases hcond : numOfDegrees % 2 = 1 ∧ last.1 < first.1
      · rcases hok hpc with hentry | hentry
        · exact absurd (hentry ▸ hcond) (h.written t (.inr hpc))
        · exact .inr ⟨hcond, by rw [hentry]⟩
      · exact .inl ⟨hcond, by rw [h.kept hcond]⟩
  | done =>
    rw [hpc] at hs
    cases hs

theorem lastInv_start (numOfDegrees : Nat) (buf : Buf) (last : ℤ × ℤ) :
    LastInv numOfDegrees (minLoop (numOfDegrees / 2) buf 0) last (.start numOfDegrees buf) where
  kept := fun _ => rfl
  area := .inl rfl
  writes := by simp [Last.start]
  written := by simp [Last.start]
  chosen := by simp [Last.start]

/-- Whichever of the two entries is chosen, no rotation has a smaller area. -/
theorem chosen_minimal {numOfDegrees : Nat} (hn : 1 ≤ numOfDegrees) (buf : Buf) {angle : ℤ}
    (h : Chosen numOfDegrees (minLoop (numOfDegrees / 2) buf 0)
      (minLoop (numOfDegrees / 2) buf (numOfDegrees - 1)) angle) :
    ∃ a < numOfDegrees, angle = (buf a).2 ∧ ∀ b < numOfDegrees, (buf a).1 ≤ (buf b).1 := by
  obtain ⟨j, hj, hfirst⟩ := exists_minLoop (numOfDegrees / 2) buf
  have hmin : ∀ i < max 1 (2 * (numOfDegrees / 2)), (buf j).1 ≤ (buf i).1 :=
    (minLoop_le_iff _ buf _).1 (hfirst ▸ le_rfl)
  have hend : minLoop (numOfDegrees / 2) buf (numOfDegrees - 1) = buf (numOfDegrees - 1) :=
    minLoop_of_le (by omega) (by omega) buf
  rw [hend, hfirst] at h
  rcases h with ⟨hcond, rfl⟩ | ⟨⟨hodd, hlt⟩, rfl⟩
  · refine ⟨j, by omega, rfl, fun b hb => ?_⟩
    by_cases hlast : b < max 1 (2 * (numOfDegrees / 2))
    · exact hmin b hlast
    · have hb' : b = numOfDegrees - 1 := by omega
      rw [hb']
      exact not_lt.1 fun hlt => hcond ⟨by omega, hlt⟩
  · refine ⟨numOfDegrees - 1, by omega, rfl, fun b hb => ?_⟩
    by_cases hlast : b < max 1 (2 * (numOfDegrees / 2))
    · exact hlt.le.trans (hmin b hlast)
    · rw [(by omega : b = numOfDegrees - 1)]

/-! ## Areas -/

section
variable {Point : Type} {rotate : Nat → Point → Int32 × Int32} {points : List Point}
  {numOfDegrees : Nat}

/-- The bounds of some rotated points. -/
structure Box where
  xmin : ℤ
  ymin : ℤ
  xmax : ℤ
  ymax : ℤ
  deriving DecidableEq

def Box.width (b : Box) : ℤ := b.xmax - b.xmin

def Box.height (b : Box) : ℤ := b.ymax - b.ymin

/-- The points, rotated, reach as far as the bounds and no further. -/
structure Extent (rotate : Nat → Point → Int32 × Int32) (points : List Point) (a : Nat) (b : Box) :
    Prop where
  xmin : IsLeast {x | ∃ p ∈ points, (rotate a p).1.toInt = x} b.xmin
  ymin : IsLeast {y | ∃ p ∈ points, (rotate a p).2.toInt = y} b.ymin
  xmax : IsGreatest {x | ∃ p ∈ points, (rotate a p).1.toInt = x} b.xmax
  ymax : IsGreatest {y | ∃ p ∈ points, (rotate a p).2.toInt = y} b.ymax

/-- No point is outside the bounds in a cell. -/
def Settled (rotate : Nat → Point → Int32 × Int32) (points : List Point) (a : Nat) (c : Cell) :
    Prop :=
  ∀ p ∈ points, c.xmin ≤ (rotate a p).1.toInt ∧ c.ymin ≤ (rotate a p).2.toInt ∧
    (rotate a p).1.toInt ≤ c.xmax ∧ (rotate a p).2.toInt ≤ c.ymax

instance (a : Nat) (c : Cell) : Decidable (Settled rotate points a c) :=
  inferInstanceAs (Decidable (∀ p ∈ points, _))

/-- A thread reads bounds only when they are settled. -/
def StepOk (rotate : Nat → Point → Int32 × Int32) (points : List Point) (s : State) (t : Nat × Nat) :
    Prop :=
  (s.pcs t.1 t.2).loads = true → Settled rotate points t.1 (s.cells t.1)

instance (s : State) (t : Nat × Nat) : Decidable (StepOk rotate points s t) :=
  inferInstanceAs (Decidable (_ → _))

/-- The bounds in a cell are not beyond the points. -/
structure Within (b : Box) (c : Cell) : Prop where
  xmin : b.xmin ≤ c.xmin
  ymin : b.ymin ≤ c.ymin
  xmax : c.xmax ≤ b.xmax
  ymax : c.ymax ≤ b.ymax

/-- The area that should be stored, as an `int`. -/
def Box.stored (b : Box) : ℤ := wrap (wrap b.width * wrap b.height)

/-- How far a thread is. -/
def Pc.rank : Pc → Nat
  | .atomicMinX => 0
  | .atomicMinY => 1
  | .atomicMaxX => 2
  | .atomicMaxY => 3
  | .loadXmax => 4
  | .loadXmin _ => 5
  | .loadYmax _ => 6
  | .loadYmin _ _ => 7
  | .storeArea _ _ => 8
  | .storeAngle => 9
  | .done => 10

/-- What a thread has read is right. -/
def Pc.Right (b : Box) : Pc → Prop
  | .loadXmin xmax => xmax = b.xmax
  | .loadYmax w => w = wrap b.width
  | .loadYmin w ymax => w = wrap b.width ∧ ymax = b.ymax
  | .storeArea w h => w = wrap b.width ∧ h = wrap b.height
  | _ => True

/-- What a thread has done to its cell. -/
structure ThreadInv (a : Nat) (b : Box) (px py : ℤ) (c : Cell) (pc : Pc) : Prop where
  xmin : 0 < pc.rank → c.xmin ≤ px
  ymin : 1 < pc.rank → c.ymin ≤ py
  xmax : 2 < pc.rank → px ≤ c.xmax
  ymax : 3 < pc.rank → py ≤ c.ymax
  right : pc.Right b
  area : 8 < pc.rank → c.area = b.stored
  angle : 9 < pc.rank → c.angle = a

/-- What a step of any thread leaves of a cell. -/
structure Kept (a : Nat) (b : Box) (c c' : Cell) : Prop where
  xmin : c'.xmin ≤ c.xmin
  ymin : c'.ymin ≤ c.ymin
  xmax : c.xmax ≤ c'.xmax
  ymax : c.ymax ≤ c'.ymax
  area : c'.area = c.area ∨ c'.area = b.stored
  angle : c'.angle = c.angle ∨ c'.angle = a

theorem Kept.refl (a : Nat) (b : Box) (c : Cell) : Kept a b c c :=
  ⟨le_rfl, le_rfl, le_rfl, le_rfl, .inl rfl, .inl rfl⟩

theorem ThreadInv.kept {a : Nat} {b : Box} {px py : ℤ} {c c' : Cell} {pc : Pc}
    (h : ThreadInv a b px py c pc) (hk : Kept a b c c') : ThreadInv a b px py c' pc where
  xmin := fun hr => hk.xmin.trans (h.xmin hr)
  ymin := fun hr => hk.ymin.trans (h.ymin hr)
  xmax := fun hr => (h.xmax hr).trans hk.xmax
  ymax := fun hr => (h.ymax hr).trans hk.ymax
  right := h.right
  area := fun hr => hk.area.elim (fun heq => heq.trans (h.area hr)) id
  angle := fun hr => hk.angle.elim (fun heq => heq.trans (h.angle hr)) id

/-- Settled bounds that are not beyond the points are the points' own. -/
theorem Within.eq_of_settled {a : Nat} {b : Box} {c : Cell} (h : Within b c)
    (he : Extent rotate points a b) (hs : Settled rotate points a c) :
    c.xmin = b.xmin ∧ c.ymin = b.ymin ∧ c.xmax = b.xmax ∧ c.ymax = b.ymax := by
  obtain ⟨p1, hp1, h1⟩ := he.xmin.1
  obtain ⟨p2, hp2, h2⟩ := he.ymin.1
  obtain ⟨p3, hp3, h3⟩ := he.xmax.1
  obtain ⟨p4, hp4, h4⟩ := he.ymax.1
  refine ⟨le_antisymm ?_ h.xmin, le_antisymm ?_ h.ymin, le_antisymm h.xmax ?_,
    le_antisymm h.ymax ?_⟩
  · exact h1 ▸ (hs p1 hp1).1
  · exact h2 ▸ (hs p2 hp2).2.1
  · exact h3 ▸ (hs p3 hp3).2.2.1
  · exact h4 ▸ (hs p4 hp4).2.2.2

/-- A step of a thread, by what it does next. -/
theorem advance_inv {a : Nat} {b : Box} {p : Point} {c c' : Cell} {pc pc' : Pc}
    (he : Extent rotate points a b) (hp : p ∈ points) (hw : Within b c)
    (ht : ThreadInv a b (rotate a p).1.toInt (rotate a p).2.toInt c pc)
    (hok : pc.loads = true → Settled rotate points a c)
    (h : advance a (rotate a p).1.toInt (rotate a p).2.toInt c pc = some (c', pc')) :
    Within b c' ∧ Kept a b c c' ∧
      ThreadInv a b (rotate a p).1.toInt (rotate a p).2.toInt c' pc' := by
  have hx := he.xmin.2 ⟨p, hp, rfl⟩
  have hy := he.ymin.2 ⟨p, hp, rfl⟩
  have hX := he.xmax.2 ⟨p, hp, rfl⟩
  have hY := he.ymax.2 ⟨p, hp, rfl⟩
  obtain ⟨w1, w2, w3, w4⟩ := hw
  obtain ⟨t1, t2, t3, t4, t5, t6, t7⟩ := ht
  have hset : pc.loads = true →
      c.xmin = b.xmin ∧ c.ymin = b.ymin ∧ c.xmax = b.xmax ∧ c.ymax = b.ymax :=
    fun hl => Within.eq_of_settled ⟨w1, w2, w3, w4⟩ he (hok hl)
  cases pc with
  | atomicMinX =>
    cases h
    refine ⟨⟨le_min w1 hx, w2, w3, w4⟩, ⟨min_le_left .., le_rfl, le_rfl, le_rfl, .inl rfl, .inl rfl⟩,
      ⟨fun _ => min_le_right .., ?_, ?_, ?_, trivial, ?_, ?_⟩⟩ <;> simp [Pc.rank]
  | atomicMinY =>
    cases h
    refine ⟨⟨w1, le_min w2 hy, w3, w4⟩, ⟨le_rfl, min_le_left .., le_rfl, le_rfl, .inl rfl, .inl rfl⟩,
      ⟨fun _ => t1 (by decide), fun _ => min_le_right .., ?_, ?_, trivial, ?_, ?_⟩⟩ <;>
      simp [Pc.rank]
  | atomicMaxX =>
    cases h
    refine ⟨⟨w1, w2, max_le w3 hX, w4⟩, ⟨le_rfl, le_rfl, le_max_left .., le_rfl, .inl rfl, .inl rfl⟩,
      ⟨fun _ => t1 (by decide), fun _ => t2 (by decide), fun _ => le_max_right .., ?_, trivial, ?_,
        ?_⟩⟩ <;> simp [Pc.rank]
  | atomicMaxY =>
    cases h
    refine ⟨⟨w1, w2, w3, max_le w4 hY⟩, ⟨le_rfl, le_rfl, le_rfl, le_max_left .., .inl rfl, .inl rfl⟩,
      ⟨fun _ => t1 (by decide), fun _ => t2 (by decide), fun _ => t3 (by decide),
        fun _ => le_max_right .., trivial, ?_, ?_⟩⟩ <;> simp [Pc.rank]
  | loadXmax =>
    cases h
    obtain ⟨-, -, hxmax, -⟩ := hset rfl
    refine ⟨⟨w1, w2, w3, w4⟩, .refl .., ⟨fun _ => t1 (by decide), fun _ => t2 (by decide),
      fun _ => t3 (by decide), fun _ => t4 (by decide), hxmax, ?_, ?_⟩⟩ <;> simp [Pc.rank]
  | loadXmin xmax =>
    cases h
    obtain ⟨hxmin, -, -, -⟩ := hset rfl
    have hxmax : xmax = b.xmax := t5
    refine ⟨⟨w1, w2, w3, w4⟩, .refl .., ⟨fun _ => t1 (by simp [Pc.rank]),
      fun _ => t2 (by simp [Pc.rank]), fun _ => t3 (by simp [Pc.rank]),
      fun _ => t4 (by simp [Pc.rank]), by rw [hxmin, hxmax]; rfl, ?_, ?_⟩⟩ <;> simp [Pc.rank]
  | loadYmax w =>
    cases h
    obtain ⟨-, -, -, hymax⟩ := hset rfl
    refine ⟨⟨w1, w2, w3, w4⟩, .refl .., ⟨fun _ => t1 (by simp [Pc.rank]),
      fun _ => t2 (by simp [Pc.rank]), fun _ => t3 (by simp [Pc.rank]),
      fun _ => t4 (by simp [Pc.rank]), ⟨t5, hymax⟩, ?_, ?_⟩⟩ <;> simp [Pc.rank]
  | loadYmin w ymax =>
    cases h
    obtain ⟨-, hymin, -, -⟩ := hset rfl
    obtain ⟨hwidth, hymax⟩ : w = wrap b.width ∧ ymax = b.ymax := t5
    refine ⟨⟨w1, w2, w3, w4⟩, .refl .., ⟨fun _ => t1 (by simp [Pc.rank]),
      fun _ => t2 (by simp [Pc.rank]), fun _ => t3 (by simp [Pc.rank]),
      fun _ => t4 (by simp [Pc.rank]), ⟨hwidth, by rw [hymin, hymax]; rfl⟩, ?_, ?_⟩⟩ <;>
      simp [Pc.rank]
  | storeArea w ht =>
    cases h
    obtain ⟨hwidth, hheight⟩ : w = wrap b.width ∧ ht = wrap b.height := t5
    have harea : wrap (w * ht) = b.stored := by rw [hwidth, hheight]; rfl
    refine ⟨⟨w1, w2, w3, w4⟩, ⟨le_rfl, le_rfl, le_rfl, le_rfl, .inr harea, .inl rfl⟩,
      ⟨fun _ => t1 (by simp [Pc.rank]), fun _ => t2 (by simp [Pc.rank]),
        fun _ => t3 (by simp [Pc.rank]), fun _ => t4 (by simp [Pc.rank]), trivial,
        fun _ => harea, ?_⟩⟩
    simp [Pc.rank]
  | storeAngle =>
    cases h
    exact ⟨⟨w1, w2, w3, w4⟩, ⟨le_rfl, le_rfl, le_rfl, le_rfl, .inl rfl, .inr rfl⟩,
      ⟨fun _ => t1 (by decide), fun _ => t2 (by decide), fun _ => t3 (by decide),
        fun _ => t4 (by decide), trivial, fun _ => t6 (by decide), fun _ => rfl⟩⟩
  | done => cases h

/-- A rotation's cell and its threads. -/
structure CellInv (rotate : Nat → Point → Int32 × Int32) (points : List Point) (a : Nat) (b : Box)
    (s : State) : Prop where
  within : Within b (s.cells a)
  threads : ∀ i p, points[i]? = some p →
    ThreadInv a b (rotate a p).1.toInt (rotate a p).2.toInt (s.cells a) (s.pcs a i)

theorem cellInv_start {a : Nat} {b : Box} (he : Extent rotate points a b) :
    CellInv rotate points a b .start where
  within := by
    obtain ⟨p1, -, h1⟩ := he.xmin.1
    obtain ⟨p2, -, h2⟩ := he.ymin.1
    obtain ⟨p3, -, h3⟩ := he.xmax.1
    obtain ⟨p4, -, h4⟩ := he.ymax.1
    refine ⟨?_, ?_, ?_, ?_⟩
    · exact h1 ▸ Int.le_sub_one_of_lt (Int32.toInt_lt _)
    · exact h2 ▸ Int.le_sub_one_of_lt (Int32.toInt_lt _)
    · exact h3 ▸ Int32.le_toInt _
    · exact h4 ▸ Int32.le_toInt _
  threads := by
    intro i p _
    refine ⟨?_, ?_, ?_, ?_, trivial, ?_, ?_⟩ <;> simp [State.start, Pc.rank]

/-- A step, of whichever thread, keeps what is known of a rotation. -/
theorem step_cellInv {a : Nat} {b : Box} (he : Extent rotate points a b) {s s' : State}
    {t : Nat × Nat} (hi : CellInv rotate points a b s) (hok : StepOk rotate points s t)
    (h : step rotate points numOfDegrees s t = some s') : CellInv rotate points a b s' := by
  obtain ⟨a', i⟩ := t
  unfold step at h
  obtain ⟨p, hp, h⟩ := Option.bind_eq_some_iff.1 h
  split at h
  · obtain ⟨⟨c, pc⟩, hadv, h⟩ := Option.bind_eq_some_iff.1 h
    cases h
    by_cases ha : a = a'
    · subst ha
      obtain ⟨hw, hk, ht⟩ := advance_inv he (List.mem_of_getElem? hp) hi.within
        (hi.threads i p hp) hok hadv
      refine ⟨?_, fun i' p' hp' => ?_⟩
      · simpa only [Function.update_self] using hw
      · simp only [Function.update_self]
        by_cases hii : i' = i
        · subst hii
          obtain rfl : p = p' := Option.some.inj (hp.symm.trans hp')
          simpa only [Function.update_self] using ht
        · rw [Function.update_of_ne hii]
          exact (hi.threads i' p' hp').kept hk
    · refine ⟨?_, ?_⟩
      · simpa only [Function.update_of_ne ha] using hi.within
      · simpa only [Function.update_of_ne ha] using hi.threads
  · cases h

/-- The steps of a run in which bounds are read when they are settled. -/
def Reads (rotate : Nat → Point → Int32 × Int32) (points : List Point) (numOfDegrees : Nat)
    (s : State) (t : Nat × Nat) (s' : State) : Prop :=
  step rotate points numOfDegrees s t = some s' ∧ StepOk rotate points s t

theorem run_cellInv {a : Nat} {b : Box} (he : Extent rotate points a b) {s : State}
    {ts : List (Nat × Nat)} (r : Run (Reads rotate points numOfDegrees) .start ts s) :
    CellInv rotate points a b s :=
  r.inv (fun _ _ _ hi h => step_cellInv he hi h.2 h.1) (cellInv_start he)

/-- When all threads are done, a rotation has its area and its index. -/
theorem areas_settled {a : Nat} {b : Box} (he : Extent rotate points a b) (ha : a < numOfDegrees)
    {s : State} {ts : List (Nat × Nat)} (r : Run (Reads rotate points numOfDegrees) .start ts s)
    (hf : s.Finished points numOfDegrees) : s.buf a = (b.stored, (a : ℤ)) := by
  obtain ⟨p, hp, -⟩ := he.xmin.1
  obtain ⟨i, hi, hget⟩ := List.getElem_of_mem hp
  have ht := (run_cellInv he r).threads i p (hget ▸ List.getElem?_eq_getElem hi)
  rw [hf a ha i hi] at ht
  exact Prod.ext (ht.area (by decide)) (ht.angle (by decide))

/-- The product of what two differences wrap to wraps to what the product does. -/
theorem Box.stored_eq (b : Box) : b.stored = wrap (b.width * b.height) := by
  simp only [Box.stored, wrap, Int.mul_bmod_bmod, Int.bmod_mul_bmod]

theorem Box.stored_eq_area_iff {b : Box} (hw : 0 ≤ b.width) (hh : 0 ≤ b.height) :
    b.stored = b.width * b.height ↔ b.width * b.height < 2 ^ 31 := by
  rw [stored_eq, wrap, Int.bmod_eq_iff (by decide)]
  have : 0 ≤ b.width * b.height := mul_nonneg hw hh
  omega

theorem Extent.width_nonneg {a : Nat} {b : Box} (he : Extent rotate points a b) : 0 ≤ b.width := by
  obtain ⟨p, hp, h⟩ := he.xmin.1
  have : b.xmin ≤ b.xmax := h ▸ he.xmax.2 ⟨p, hp, rfl⟩
  unfold Box.width
  omega

theorem Extent.height_nonneg {a : Nat} {b : Box} (he : Extent rotate points a b) :
    0 ≤ b.height := by
  obtain ⟨p, hp, h⟩ := he.ymin.1
  have : b.ymin ≤ b.ymax := h ▸ he.ymax.2 ⟨p, hp, rfl⟩
  unfold Box.height
  omega

theorem exists_isLeast (hne : points ≠ []) (f : Point → ℤ) :
    ∃ m, IsLeast {x | ∃ p ∈ points, f p = x} m := by
  obtain ⟨p, hp, hmin⟩ := Set.exists_min_image {p | p ∈ points} f (List.finite_toSet points)
    (List.exists_mem_of_ne_nil points hne)
  exact ⟨f p, ⟨p, hp, rfl⟩, fun _ ⟨q, hq, heq⟩ => heq ▸ hmin q hq⟩

theorem exists_isGreatest (hne : points ≠ []) (f : Point → ℤ) :
    ∃ m, IsGreatest {x | ∃ p ∈ points, f p = x} m := by
  obtain ⟨p, hp, hmax⟩ := Set.exists_max_image {p | p ∈ points} f (List.finite_toSet points)
    (List.exists_mem_of_ne_nil points hne)
  exact ⟨f p, ⟨p, hp, rfl⟩, fun _ ⟨q, hq, heq⟩ => heq ▸ hmax q hq⟩

theorem exists_extent (rotate : Nat → Point → Int32 × Int32) (hne : points ≠ []) (a : Nat) :
    ∃ b, Extent rotate points a b := by
  obtain ⟨xmin, h1⟩ := exists_isLeast hne fun p => (rotate a p).1.toInt
  obtain ⟨ymin, h2⟩ := exists_isLeast hne fun p => (rotate a p).2.toInt
  obtain ⟨xmax, h3⟩ := exists_isGreatest hne fun p => (rotate a p).1.toInt
  obtain ⟨ymax, h4⟩ := exists_isGreatest hne fun p => (rotate a p).2.toInt
  exact ⟨⟨xmin, ymin, xmax, ymax⟩, h1, h2, h3, h4⟩

/-- The steps after the last barrier, the rotation not read while its entry is being written. -/
def LastReads (numOfDegrees : Nat) (buf : Buf) (f : Last) (t : Nat) (f' : Last) : Prop :=
  let first := minLoop (numOfDegrees / 2) buf 0
  let last := minLoop (numOfDegrees / 2) buf (numOfDegrees - 1)
  lastStep numOfDegrees last f t = some f' ∧ LastOk first last f t

/-- **Minimum-area rectangle**: with the bounds read settled, the area of a rotation is stored if
it fits an `int`; with the rotation of a whole entry read, a least stored area is selected. -/
theorem rect_minimal (hn : 1 ≤ numOfDegrees) (hne : points ≠ []) {s : State}
    {ts : List (Nat × Nat)} (r : Run (Reads rotate points numOfDegrees) .start ts s)
    (hf : s.Finished points numOfDegrees) :
    (∀ a < numOfDegrees, ∀ b, Extent rotate points a b →
      ((s.cells a).area = b.width * b.height ↔ b.width * b.height < 2 ^ 31)) ∧
    ∀ ls f angle, Run (LastReads numOfDegrees s.buf) (.start numOfDegrees s.buf) ls f →
      f.minRotateAngle = some angle →
      ∃ a < numOfDegrees, angle = a ∧ ∀ b < numOfDegrees, (s.cells a).area ≤ (s.cells b).area := by
  refine ⟨fun a ha b he => ?_, fun ls f angle r' hangle => ?_⟩
  · rw [← Box.stored_eq_area_iff he.width_nonneg he.height_nonneg]
    exact (congrArg Prod.fst (areas_settled he ha r hf)).congr_left
  · have hinv : LastInv numOfDegrees (minLoop (numOfDegrees / 2) s.buf 0)
        (minLoop (numOfDegrees / 2) s.buf (numOfDegrees - 1)) f :=
      r'.inv (fun _ _ _ hi h => lastStep_inv hi h.2 h.1) (lastInv_start ..)
    obtain ⟨a, ha, heq, hmin⟩ := chosen_minimal hn s.buf (hinv.chosen angle hangle)
    obtain ⟨b, he⟩ := exists_extent rotate hne a
    exact ⟨a, ha, heq.trans (congrArg Prod.snd (areas_settled he ha r hf)), hmin⟩

end

/-- Two corners, which the first rotation leaves where they are. -/
def corners : List (Int32 × Int32) := [(0, 0), (10, 10)]

def cornerBox : Box := ⟨0, 0, 10, 10⟩

theorem corners_extent : Extent (fun _ p => p) corners 0 cornerBox := by
  have hb : ∀ p ∈ corners, 0 ≤ p.1.toInt ∧ 0 ≤ p.2.toInt ∧ p.1.toInt ≤ 10 ∧ p.2.toInt ≤ 10 :=
    forall_mem_of_all (by decide)
  refine ⟨⟨⟨(0, 0), by decide, by decide⟩, ?_⟩, ⟨⟨(0, 0), by decide, by decide⟩, ?_⟩,
    ⟨⟨(10, 10), by decide, by decide⟩, ?_⟩, ⟨⟨(10, 10), by decide, by decide⟩, ?_⟩⟩
  · rintro _ ⟨p, hp, rfl⟩
    exact (hb p hp).1
  · rintro _ ⟨p, hp, rfl⟩
    exact (hb p hp).2.1
  · rintro _ ⟨p, hp, rfl⟩
    exact (hb p hp).2.2.1
  · rintro _ ⟨p, hp, rfl⟩
    exact (hb p hp).2.2.2

/-- The threads of the corners take turns. -/
theorem corners_turns : ∃ s, Run (Reads (fun _ p => p) corners 1) .start
    (List.replicate 10 [(0, 0), (0, 1)]).flatten s ∧ s.Finished corners 1 := by
  have h : ((Run.exec (step (fun _ p => p) corners 1) (StepOk (fun _ p => p) corners) .start
      (List.replicate 10 [(0, 0), (0, 1)]).flatten).any
        fun s => decide (s.Finished corners 1)) = true := by
    decide +kernel
  exact Run.exists_of_exec h

/-- For one rotation the first thread compares its entry with itself and reads it. -/
theorem one_rotation (buf : Buf) : ∃ f, Run (LastReads 1 buf) (.start 1 buf) [0, 0] f ∧
    f.minRotateAngle = some (buf 0).2 := by
  have hbuf : minLoop 0 buf 0 = buf 0 := minLoop_of_le le_rfl (.inr rfl) buf
  have hcompare : LastReads 1 buf (.start 1 buf) 0
      ⟨buf 0, Function.update (fun _ => .compare) 0 .readAngle, none⟩ := by
    refine ⟨?_, ?_⟩
    · simp [lastStep, Last.start, hbuf]
    · simp [LastOk, Last.start]
  exact ⟨_, .cons hcompare (.cons ⟨rfl, fun _ => .inl hbuf.symm⟩ (.nil _)), rfl⟩

theorem rect_minimal_corners : ∃ s : State, s.Finished corners 1 ∧
    ((s.cells 0).area = cornerBox.width * cornerBox.height ↔
      cornerBox.width * cornerBox.height < 2 ^ 31) ∧
    ∃ angle : ℤ, ∃ a < 1, angle = (a : ℕ) ∧ ∀ b < 1, (s.cells a).area ≤ (s.cells b).area := by
  obtain ⟨s, r, hf⟩ := corners_turns
  obtain ⟨hareas, hselect⟩ := rect_minimal le_rfl (by decide) r hf
  obtain ⟨f, hrun, hangle⟩ := one_rotation s.buf
  exact ⟨s, hf, hareas 0 Nat.zero_lt_one cornerBox corners_extent, _, hselect _ f _ hrun hangle⟩

/-- The first thread stores the area it made of its own corner alone, after the other is done. -/
theorem stale_area : ∃ s ts, Run (fun s t s' => step (fun _ p => p) corners 1 s t = some s')
    .start ts s ∧ s.Finished corners 1 ∧ Extent (fun _ p => p) corners 0 cornerBox ∧
      (s.cells 0).area = 0 ∧ cornerBox.width * cornerBox.height = 100 := by
  have h : ((Run.exec (step (fun _ p => p) corners 1) (fun _ _ => True) .start
      (List.replicate 8 (0, 0) ++ List.replicate 10 (0, 1) ++ List.replicate 2 (0, 0))).any
        fun s => decide (s.Finished corners 1 ∧ (s.cells 0).area = 0)) = true := by
    decide +kernel
  obtain ⟨s, r, hf, harea⟩ := Run.exists_of_exec h
  exact ⟨s, _, r.mono fun _ _ _ h => h.1, hf, corners_extent, harea, rfl⟩

end Cvcuda.MinAreaRect
