import CvCuda.Cvcuda.Proof.HistogramEq
import CvCuda.Cvcuda.Proof.PillowResize
import CvCuda.Cvcuda.PillowResizeVarShape

/-! # Which tables the passes read

* `Filled`: what a thread or a block of the coefficient kernel leaves; `holds_of_coeffs`: what the
  kernel leaves for an image.
* `Strip.own_iff`: when a strip of threads reads the entries of its image.
* `alwaysOwn_iff`: for which batches both passes do.
-/

namespace Cvcuda.PillowResize

open Kernel

namespace Pass

variable {p : Pass} {weights : ℚ → ℚ} {normalizeCoeff : Bool} {tables tables' : Tables}

/-- The output indices of a job. -/
def Job.Rows (p : Pass) : Job → Nat → Prop
  | .thread t, xx => xx = t.1 * coefBlock + t.2 ∧ xx < p.outSize
  | .block b, xx => xx / coefBlock = b ∧ xx < p.outSize

theorem Job.Rows.lt {job : Job} {xx : Nat} (h : job.Rows p xx) : xx < p.outSize := by
  cases job <;> exact h.2

theorem filled_of_thread (h : p.Rows) (t : Nat × Nat) (tables : Tables) :
    p.Filled weights normalizeCoeff ((Job.thread t).Rows p) tables
      (p.threadDirect weights normalizeCoeff t tables) := by
  have hbounds := direct_bounds p weights normalizeCoeff [t] tables
  have hkk := direct_kk p weights normalizeCoeff [t] tables
  simp only [List.foldl_cons, List.foldl_nil] at hbounds hkk
  constructor
  · rw [hbounds]
    refine Wrote.congr (writes_bounds (p := p) (t.1 * coefBlock + t.2) tables.bounds)
      (fun c => ?_) fun _ _ => rfl
    exact ⟨fun ⟨hc, hlt⟩ => ⟨hc, hc ▸ hlt⟩, fun ⟨hc, hlt⟩ => ⟨hc, hc ▸ hlt⟩⟩
  · rw [hkk]
    refine Wrote.congr (writes_row weights normalizeCoeff h 0 (t.1 * coefBlock + t.2) tables.kk)
      (fun k => ?_) fun k _ => ?_
    · rw [Nat.zero_add]
      exact ⟨fun ⟨hk, hlt⟩ => ⟨hk, hk ▸ hlt⟩, fun ⟨hk, hlt⟩ => ⟨hk, hk ▸ hlt⟩⟩
    · rw [Nat.zero_add]

/-- What a job leaves. -/
theorem filled_of_does (h : p.Rows) {job : Job}
    (hj : p.Does weights normalizeCoeff tables job tables') :
    p.Filled weights normalizeCoeff (job.Rows p) tables tables' := by
  cases job with
  | thread t =>
    obtain rfl : tables' = _ := hj
    exact filled_of_thread h t tables
  | block b => exact filled_of_block h hj

variable (p weights normalizeCoeff) in
theorem exists_does (job : Job) (tables : Tables) :
    ∃ tables', p.Does weights normalizeCoeff tables job tables' := by
  cases job with
  | thread t => exact ⟨_, rfl⟩
  | block b => exact ⟨_, fun _ => 0, _, _, .refl _, .refl _, rfl⟩

theorem exists_job (useShareMem : Bool) {grid xx : Nat} (hgrid : xx < grid * coefBlock)
    (hxx : xx < p.outSize) : ∃ job ∈ jobs useShareMem grid, job.Rows p xx := by
  cases useShareMem with
  | true =>
    refine ⟨.block (xx / coefBlock), List.mem_map.2 ⟨_, List.mem_range.2 ?_, rfl⟩, rfl, hxx⟩
    exact Nat.div_lt_of_lt_mul (by rwa [Nat.mul_comm])
  | false =>
    obtain ⟨t, ht, heq⟩ := exists_thread.2 hgrid
    exact ⟨.thread t, List.mem_map.2 ⟨t, ht, rfl⟩, heq, hxx⟩

end Pass

namespace VarShape

/-! ## Tables of one's own -/

/-- The tables of two images do not meet. -/
def Slot.Apart (s s' : Slot) : Prop :=
  (s.boundsOffset + s.pass.outSize * 2 ≤ s'.boundsOffset ∧
      s.kkOffset + s.pass.outSize * s.pass.kSize ≤ s'.kkOffset) ∨
    (s'.boundsOffset + s'.pass.outSize * 2 ≤ s.boundsOffset ∧
      s'.kkOffset + s'.pass.outSize * s'.pass.kSize ≤ s.kkOffset)

/-- The tables of the images of a direction, one after another. -/
def slotsFrom : Nat → Nat → List Pass → List Slot
  | _, _, [] => []
  | kkTotal, boundsTotal, p :: ps =>
    ⟨p, kkTotal, boundsTotal⟩ ::
      slotsFrom (kkTotal + p.outSize * p.kSize) (boundsTotal + p.outSize * 2) ps

theorem le_of_mem_slotsFrom {kkTotal boundsTotal : Nat} {ps : List Pass} {s : Slot}
    (h : s ∈ slotsFrom kkTotal boundsTotal ps) :
    kkTotal ≤ s.kkOffset ∧ boundsTotal ≤ s.boundsOffset := by
  induction ps generalizing kkTotal boundsTotal with
  | nil => cases h
  | cons p ps ih =>
    rcases List.mem_cons.1 h with rfl | h
    · exact ⟨le_rfl, le_rfl⟩
    · obtain ⟨hkk, hbounds⟩ := ih h
      exact ⟨(Nat.le_add_right _ _).trans hkk, (Nat.le_add_right _ _).trans hbounds⟩

theorem pairwise_slotsFrom (kkTotal boundsTotal : Nat) (ps : List Pass) :
    (slotsFrom kkTotal boundsTotal ps).Pairwise Slot.Apart := by
  induction ps generalizing kkTotal boundsTotal with
  | nil => exact .nil
  | cons p ps ih =>
    refine .cons (fun s hs => ?_) (ih _ _)
    obtain ⟨hkk, hbounds⟩ := le_of_mem_slotsFrom hs
    exact .inl ⟨hbounds, hkk⟩

theorem mem_slotsFrom_pass {kkTotal boundsTotal : Nat} {ps : List Pass} {s : Slot}
    (h : s ∈ slotsFrom kkTotal boundsTotal ps) : s.pass ∈ ps := by
  induction ps generalizing kkTotal boundsTotal with
  | nil => cases h
  | cons p ps ih =>
    rcases List.mem_cons.1 h with rfl | h
    · exact List.mem_cons_self
    · exact List.mem_cons_of_mem p (ih h)

instance : Std.Symm Slot.Apart := ⟨fun _ _ => Or.symm⟩

variable {weights : ℚ → ℚ} {normalizeCoeff : Bool} {s s' : Slot} {tables tables' : Tables}

/-- The bounds of some output indices of an image are in its table. -/
def Slot.Holds (s : Slot) (rows : Nat → Prop) (tables : Tables) : Prop :=
  ∀ xx, rows xx → tables.bounds (s.boundsOffset + xx * 2) = (s.pass.window xx).xmin ∧
    tables.bounds (s.boundsOffset + (xx * 2 + 1)) = (s.pass.window xx).xmax

theorem bound_even (p : Pass) (xx : Nat) : p.bound (xx * 2) = (p.window xx).xmin := by
  rw [Pass.bound, if_pos (by omega), Nat.mul_div_cancel _ (by decide)]

theorem bound_odd (p : Pass) (xx : Nat) : p.bound (xx * 2 + 1) = (p.window xx).xmax := by
  rw [Pass.bound, if_neg (by omega), show (xx * 2 + 1) / 2 = xx by omega]

/-- A job of the image itself. -/
theorem holds_own {rows : Nat → Prop} {job : Pass.Job} (h : s.pass.Rows) (hs : s.Holds rows tables)
    (hstep : Step weights normalizeCoeff tables (s, job) tables') :
    s.Holds (fun xx => rows xx ∨ job.Rows s.pass xx) tables' := by
  obtain ⟨own, hown, rfl⟩ := hstep
  have hfilled : ∀ c, (job.Rows s.pass (c / 2) → own.bounds c = s.pass.bound c) ∧
      (¬job.Rows s.pass (c / 2) → own.bounds c = (s.view tables).bounds c) :=
    (Pass.filled_of_does h hown).bounds
  have heven : ∀ xx, xx * 2 / 2 = xx := fun xx => Nat.mul_div_cancel xx (by decide)
  have hodd : ∀ xx, (xx * 2 + 1) / 2 = xx := fun xx => by omega
  have hcell : ∀ c, (s.putBack tables own).bounds (s.boundsOffset + c) = own.bounds c := by
    intro c
    rw [Slot.putBack]
    dsimp only
    rw [if_pos (Nat.le_add_right _ _), Nat.add_sub_cancel_left]
  intro xx hxx
  rw [hcell, hcell]
  by_cases hjob : job.Rows s.pass xx
  · constructor
    · rw [← bound_even]
      exact (hfilled _).1 (by rwa [heven])
    · rw [← bound_odd]
      exact (hfilled _).1 (by rwa [hodd])
  · obtain ⟨hmin, hmax⟩ := hs xx (hxx.resolve_right hjob)
    constructor
    · rw [← hmin]
      exact (hfilled _).2 (by rwa [heven])
    · rw [← hmax]
      exact (hfilled _).2 (by rwa [hodd])

/-- A job of another image. -/
theorem holds_other {rows : Nat → Prop} {job : Pass.Job} (h' : s'.pass.Rows) (hapart : s'.Apart s)
    (hlt : ∀ xx, rows xx → xx < s.pass.outSize) (hs : s.Holds rows tables)
    (hstep : Step weights normalizeCoeff tables (s', job) tables') : s.Holds rows tables' := by
  obtain ⟨own, hown, rfl⟩ := hstep
  have hfilled := (Pass.filled_of_does h' hown).bounds
  -- the job leaves what is not in its own table
  have hcell : ∀ c, c < s.pass.outSize * 2 →
      (s'.putBack tables own).bounds (s.boundsOffset + c) = tables.bounds (s.boundsOffset + c) := by
    intro c hc
    rw [Slot.putBack]
    dsimp only
    split
    · have hrow : ¬job.Rows s'.pass ((s.boundsOffset + c - s'.boundsOffset) / 2) := by
        intro hrow
        have := hrow.lt
        rcases hapart with ⟨hle, -⟩ | ⟨hle, -⟩ <;> omega
      rw [(hfilled _).2 hrow, Slot.view]
      dsimp only
      congr 1
      omega
    · rfl
  intro xx hxx
  have := hlt xx hxx
  rw [hcell _ (by omega), hcell _ (by omega)]
  exact hs xx hxx

theorem holds_of_run {slots : List Slot} (hpass : ∀ s ∈ slots, s.pass.Rows)
    (hapart : slots.Pairwise Slot.Apart) (hmem : s ∈ slots) {order : List (Slot × Pass.Job)}
    (horder : ∀ job ∈ order, job.1 ∈ slots)
    (hrun : Run (Step weights normalizeCoeff) tables order tables') (rows : Nat → Prop)
    (hlt : ∀ xx, rows xx → xx < s.pass.outSize) (hs : s.Holds rows tables) :
    s.Holds (fun xx => rows xx ∨ ∃ job, (s, job) ∈ order ∧ job.Rows s.pass xx) tables' := by
  induction hrun generalizing rows with
  | nil tables =>
    intro xx hxx
    exact hs xx (hxx.resolve_right fun ⟨job, hjob, _⟩ => by cases hjob)
  | @cons tables tables₁ tables' first order hstep _ ih =>
    obtain ⟨s', job⟩ := first
    have hmem' : s' ∈ slots := horder _ List.mem_cons_self
    have hrest : ∀ job ∈ order, job.1 ∈ slots := fun j hj => horder j (List.mem_cons_of_mem _ hj)
    by_cases heq : s' = s
    · subst heq
      have hfirst := holds_own (hpass s' hmem) hs hstep
      have hdone := ih hrest _ (fun xx hxx => hxx.elim (hlt xx) Pass.Job.Rows.lt) hfirst
      intro xx hxx
      refine hdone xx ?_
      rcases hxx with hxx | ⟨j, hj, hrow⟩
      · exact .inl (.inl hxx)
      · rcases List.mem_cons.1 hj with heq | hj
        · obtain rfl : j = job := (Prod.mk.inj heq).2
          exact .inl (.inr hrow)
        · exact .inr ⟨j, hj, hrow⟩
    · have hdisjoint : s'.Apart s :=
        hapart.forall hmem' hmem heq
      have hdone := ih hrest rows hlt (holds_other (hpass s' hmem') hdisjoint hlt hs hstep)
      intro xx hxx
      refine hdone xx (hxx.imp_right ?_)
      rintro ⟨j, hj, hrow⟩
      rcases List.mem_cons.1 hj with heq' | hj
      · exact absurd (Prod.mk.inj heq').1.symm heq
      · exact ⟨j, hj, hrow⟩

/-- What the coefficient kernel leaves for an image. -/
theorem holds_of_coeffs {slots : List Slot} (hpass : ∀ s ∈ slots, s.pass.Rows)
    (hapart : slots.Pairwise Slot.Apart) (hmem : s ∈ slots) {useShareMem : Bool} {grid : Nat}
    (h : Coeffs weights normalizeCoeff slots useShareMem grid tables tables') :
    s.Holds (fun xx => xx < s.pass.outSize ∧ xx < grid * Pass.coefBlock) tables' := by
  obtain ⟨order, hperm, hrun⟩ := h
  have horder : ∀ job ∈ order, job.1 ∈ slots := by
    intro job hjob
    obtain ⟨s', hs', hjob⟩ := List.mem_flatMap.1 (hperm.mem_iff.1 hjob)
    obtain ⟨j, -, rfl⟩ := List.mem_map.1 hjob
    exact hs'
  have hdone := holds_of_run hpass hapart hmem horder hrun (fun _ => False) (fun _ h => h.elim)
    (fun _ h => h.elim)
  rintro xx ⟨hxx, hgrid⟩
  obtain ⟨job, hjob, hrow⟩ := Pass.exists_job useShareMem hgrid hxx
  refine hdone xx (.inr ⟨job, hperm.mem_iff.2 ?_, hrow⟩)
  exact List.mem_flatMap.2 ⟨s, hmem, List.mem_map.2 ⟨job, hjob, rfl⟩⟩

variable (weights normalizeCoeff) in
theorem exists_coeffs (slots : List Slot) (useShareMem : Bool) (grid : Nat) (tables : Tables) :
    ∃ tables', Coeffs weights normalizeCoeff slots useShareMem grid tables tables' := by
  have hrun : ∀ (order : List (Slot × Pass.Job)) (tables : Tables),
      ∃ tables', Run (Step weights normalizeCoeff) tables order tables' := by
    intro order
    induction order with
    | nil => exact fun tables => ⟨tables, .nil tables⟩
    | cons job order ih =>
      intro tables
      obtain ⟨own, hown⟩ := Pass.exists_does job.1.pass weights normalizeCoeff job.2
        (job.1.view tables)
      obtain ⟨tables', hrest⟩ := ih (job.1.putBack tables own)
      exact ⟨tables', .cons ⟨own, hown, rfl⟩ hrest⟩
  obtain ⟨tables', hrun⟩ := hrun _ tables
  exact ⟨tables', _, .refl _, hrun⟩

/-! ## Strips -/

/-- A read of an entry that the coefficient kernel wrote for the image. -/
def Slot.Owns (s : Slot) (grid : Nat) : Read → Prop
  | .bound c => ∃ row, row < s.pass.outSize ∧ row < grid * Pass.coefBlock ∧
      (c = s.boundsOffset + row * 2 ∨ c = s.boundsOffset + (row * 2 + 1))
  | .coeff c => ∃ row tap, row < s.pass.outSize ∧ row < grid * Pass.coefBlock ∧
      tap < s.pass.kSize ∧ c = s.kkOffset + (row * s.pass.kSize + tap)
  | .stale _ => False

namespace Strip

variable {b : Strip} {grid : Nat}

/-- The coefficients that a strip loads are those of its threads' output indices. -/
theorem owns_loads (hk : 0 < b.slot.pass.kSize) {i : Nat} (hi : b.Loads i)
    (h : ∀ row, row < b.offset + b.blockSize → row < b.extent →
      row < b.slot.pass.outSize ∧ row < grid * Pass.coefBlock) :
    b.slot.Owns grid (.coeff (b.cell i)) := by
  have hblock := (Nat.div_lt_iff_lt_mul hk).2 hi.1
  have hlast := (Nat.div_lt_iff_lt_mul hk).2 hi.2
  have hrow := h (b.offset + i / b.slot.pass.kSize) (Nat.add_lt_add_left hblock _)
    (Nat.add_lt_of_lt_sub' hlast)
  refine ⟨_, i % b.slot.pass.kSize, hrow.1, hrow.2, Nat.mod_lt i hk, ?_⟩
  rw [cell, Nat.add_mul, Nat.add_assoc, Nat.div_add_mod']

/-- The taps of a thread inside are loaded. -/
theorem loads_of_lt {localId x : Nat} (hlocal : localId < b.blockSize)
    (hin : b.offset + localId < b.extent) (hx : x < b.slot.pass.kSize) :
    b.Loads (localId * b.slot.pass.kSize + x) := by
  have hlt : ∀ n, localId < n → localId * b.slot.pass.kSize + x < n * b.slot.pass.kSize := by
    intro n hn
    have := Nat.mul_le_mul_right b.slot.pass.kSize hn
    rw [Nat.succ_mul] at this
    omega
  exact ⟨hlt _ hlocal, hlt _ (by omega)⟩

theorem fetch_of_loads {i : Nat} (h : b.Loads i) : b.fetch i = .coeff (b.cell i) := by
  unfold fetch
  rw [if_pos h, ite_self]

/-- What a thread inside reads, when its image has all the strip's output indices. -/
theorem owns_of_mem (h : b.slot.pass.Rows) {tables : Tables}
    (hholds : b.slot.Holds (fun xx => xx < b.slot.pass.outSize ∧ xx < grid * Pass.coefBlock) tables)
    (hrows : ∀ row, row < b.offset + b.blockSize → row < b.extent →
      row < b.slot.pass.outSize ∧ row < grid * Pass.coefBlock)
    {localTid localId channels : Nat} (hlocal : localId < b.blockSize)
    {inside : Prop} [Decidable inside] (hinside : inside → b.offset + localId < b.extent)
    {skips : ℤ → Bool} {r : Read}
    (hr : r ∈ b.loads localTid ++
      if inside then b.taps tables.bounds channels localId skips else []) : b.slot.Owns grid r := by
  have hk := h.pos
  rcases List.mem_append.1 hr with hr | hr
  · unfold loads at hr
    split at hr
    · obtain ⟨i, hi, rfl⟩ := List.mem_map.1 hr
      exact owns_loads hk (of_decide_eq_true (List.mem_filter.1 hi).2) hrows
    · cases hr
  · split at hr
    · have hin := hinside ‹_›
      obtain ⟨hout, hgrid⟩ := hrows (b.offset + localId) (by omega) hin
      obtain ⟨-, hmax⟩ := hholds _ ⟨hout, hgrid⟩
      rcases List.mem_append.1 hr with hr | hr
      · simp only [List.mem_cons, List.not_mem_nil, or_false] at hr
        rcases hr with rfl | rfl
        · exact ⟨_, hout, hgrid, .inl rfl⟩
        · exact ⟨_, hout, hgrid, .inr rfl⟩
      · obtain ⟨-, -, hr⟩ := List.mem_flatMap.1 hr
        obtain ⟨x, hx, rfl⟩ := List.mem_map.1 hr
        have hx := List.mem_range.1 (List.mem_filter.1 hx).1
        rw [hmax] at hx
        have htap : x < b.slot.pass.kSize := by
          have := h.taps _ hout
          omega
        have hcell : b.slot.Owns grid
            (.coeff (b.cell (localId * b.slot.pass.kSize + x))) := by
          refine ⟨_, x, hout, hgrid, htap, ?_⟩
          rw [cell, Nat.add_mul, Nat.add_assoc]
        rwa [fetch_of_loads (loads_of_lt hlocal hin htap)]
    · cases hr

/-- A thread inside reads a bound past its image's. -/
theorem not_owns_bound (row : Nat) (h : b.slot.pass.outSize ≤ row) :
    ¬b.slot.Owns grid (.bound (b.slot.boundsOffset + row * 2)) := by
  rintro ⟨row', hlt, -, heq | heq⟩ <;> omega

end Strip

/-! ## Batches -/

namespace Call

variable {call : Call}

theorem entries_h (totals : Totals) (items : List Item) :
    (call.entriesFrom totals items).map Entry.h =
      slotsFrom totals.hKkTotal totals.hBoundsTotal (items.map call.hPass) := by
  induction items generalizing totals with
  | nil => rfl
  | cons item items ih => exact congrArg _ (ih _)

theorem entries_v (totals : Totals) (items : List Item) :
    (call.entriesFrom totals items).map Entry.v =
      slotsFrom totals.vKkTotal totals.vBoundsTotal (items.map call.vPass) := by
  induction items generalizing totals with
  | nil => rfl
  | cons item items ih => exact congrArg _ (ih _)

/-- An image's entries are those of its sizes. -/
theorem entries_getElem? {totals : Totals} {items : List Item} {i : Nat} {e : Entry}
    (h : (call.entriesFrom totals items)[i]? = some e) :
    items[i]? = some e.item ∧ e.h.pass = call.hPass e.item ∧ e.v.pass = call.vPass e.item := by
  induction items generalizing totals i with
  | nil => cases h
  | cons item items ih =>
    cases i with
    | zero =>
      obtain rfl := Option.some.inj h
      exact ⟨rfl, rfl, rfl⟩
    | succ i => exact ih h

theorem exists_entry (totals : Totals) {items : List Item} {i : Nat} {item : Item}
    (h : items[i]? = some item) :
    ∃ e, (call.entriesFrom totals items)[i]? = some e ∧ e.item = item := by
  induction items generalizing totals i with
  | nil => cases h
  | cons first items ih =>
    cases i with
    | zero => exact ⟨_, rfl, Option.some.inj h⟩
    | succ i => exact ih _ h

/-- Every thread of the passes reads entries that the coefficient kernels wrote for its image. -/
structure OwnTables (call : Call) (h v : Tables) : Prop where
  horizontal : ∀ t ∈ call.hThreads, ∀ e, call.entries[t.blockIdx.2.2]? = some e →
    ∀ r ∈ call.horizontalReads e h.bounds t, e.h.Owns call.hGrid r
  vertical : ∀ t ∈ call.vThreads, ∀ e, call.entries[t.blockIdx.2.2]? = some e →
    ∀ r ∈ call.verticalReads e v.bounds t, e.v.Owns call.vGrid r

/-- An image has the columns that the horizontal pass makes of each. -/
def Covers (call : Call) (item : Item) : Prop :=
  min call.maxWidth (divUp call.maxWidth 32 * 32) ≤ item.outCols

theorem le_foldl_max (f : Item → Nat) (items : List Item) (m : Nat) :
    m ≤ items.foldl (fun m item => max m (f item)) m ∧
      ∀ item ∈ items, f item ≤ items.foldl (fun m item => max m (f item)) m := by
  induction items generalizing m with
  | nil => exact ⟨le_rfl, fun _ h => by cases h⟩
  | cons first items ih =>
    obtain ⟨hle, hall⟩ := ih (max m (f first))
    refine ⟨(le_max_left _ _).trans hle, fun item hitem => ?_⟩
    rcases List.mem_cons.1 hitem with rfl | hitem
    · exact (le_max_right _ _).trans hle
    · exact hall item hitem

theorem rows_hPass (item : Item) : (call.hPass item).Rows :=
  rows_pass call.filter item.cols item.outCols_pos

theorem rows_vPass (item : Item) : (call.vPass item).Rows :=
  rows_pass call.filter item.rows item.outRows_pos

variable {weights : ℚ → ℚ} {normalizeCoeff : Bool} {tables h v h₀ v₀ : Tables} {e : Entry} {i : Nat}

theorem holds_h (hcoeffs : Coeffs weights normalizeCoeff (call.entries.map Entry.h)
    call.hUseShareMem call.hGrid h₀ h) (he : call.entries[i]? = some e) :
    e.h.Holds (fun xx => xx < e.h.pass.outSize ∧ xx < call.hGrid * Pass.coefBlock) h := by
  refine holds_of_coeffs (fun s hs => ?_) ?_ ?_ hcoeffs
  · rw [entries, entries_h] at hs
    obtain ⟨item, -, hitem⟩ := List.mem_map.1 (mem_slotsFrom_pass hs)
    exact hitem ▸ rows_hPass item
  · rw [entries, entries_h]
    exact pairwise_slotsFrom _ _ _
  · exact List.mem_map_of_mem (List.mem_of_getElem? he)

theorem holds_v (hcoeffs : Coeffs weights normalizeCoeff (call.entries.map Entry.v)
    call.vUseShareMem call.vGrid v₀ v) (he : call.entries[i]? = some e) :
    e.v.Holds (fun xx => xx < e.v.pass.outSize ∧ xx < call.vGrid * Pass.coefBlock) v := by
  refine holds_of_coeffs (fun s hs => ?_) ?_ ?_ hcoeffs
  · rw [entries, entries_v] at hs
    obtain ⟨item, -, hitem⟩ := List.mem_map.1 (mem_slotsFrom_pass hs)
    exact hitem ▸ rows_vPass item
  · rw [entries, entries_v]
    exact pairwise_slotsFrom _ _ _
  · exact List.mem_map_of_mem (List.mem_of_getElem? he)

/-- A strip of 32 in the horizontal pass. -/
theorem owns_horizontal (hcov : ∀ item ∈ call.items, call.Covers item)
    (hcoeffs : Coeffs weights normalizeCoeff (call.entries.map Entry.h) call.hUseShareMem
      call.hGrid h₀ h) {t : Thread} (ht : t ∈ call.hThreads)
    (he : call.entries[t.blockIdx.2.2]? = some e) {r : Read}
    (hr : r ∈ call.horizontalReads e h.bounds t) : e.h.Owns call.hGrid r := by
  obtain ⟨⟨hx, -, -⟩, htx, -⟩ := mem_launch.1 ht
  obtain ⟨hitem, hpass, -⟩ := entries_getElem? he
  have hc : min call.maxWidth (divUp call.maxWidth 32 * 32) ≤ e.item.outCols :=
    hcov _ (List.mem_of_getElem? hitem)
  have hgrid := divUp_mul_le call.maxWidth (b := 32) (k := 1) (by norm_num)
  have hrows : e.h.pass.Rows := hpass ▸ rows_hPass e.item
  have hout : e.h.pass.outSize = e.item.outCols := by rw [hpass]; rfl
  refine Strip.owns_of_mem (b := ⟨e.h, call.hvUseShareMem, 32, t.blockIdx.1 * 32, call.maxWidth⟩)
    hrows (holds_h hcoeffs he) (fun row hrow hext => ?_) htx (fun hin => hin.1) hr
  dsimp only at hrow hext
  rw [hout]
  have hlt : row < divUp call.maxWidth 32 * 32 := by omega
  exact ⟨by omega, hlt.trans_le hgrid⟩

/-- A strip of 8 in the vertical pass, which ends where its image does. -/
theorem owns_vertical (hcoeffs : Coeffs weights normalizeCoeff (call.entries.map Entry.v)
      call.vUseShareMem call.vGrid v₀ v) {t : Thread} (ht : t ∈ call.vThreads)
    (he : call.entries[t.blockIdx.2.2]? = some e) {r : Read}
    (hr : r ∈ call.verticalReads e v.bounds t) : e.v.Owns call.vGrid r := by
  obtain ⟨⟨-, hy, -⟩, -, hty⟩ := mem_launch.1 ht
  obtain ⟨-, -, hpass⟩ := entries_getElem? he
  have hgrid := divUp_mul_le call.maxHeight (b := 8) (k := 3) (by norm_num)
  have hrows : e.v.pass.Rows := hpass ▸ rows_vPass e.item
  have hout : e.v.pass.outSize = e.item.outRows := by rw [hpass]; rfl
  refine Strip.owns_of_mem
    (b := ⟨e.v, call.hvUseShareMem, 8, t.blockIdx.2.1 * 8, e.item.outRows⟩)
    hrows (holds_v hcoeffs he) (fun row hrow hext => ?_) hty (fun hin => hin.2) hr
  dsimp only at hrow hext
  rw [hout]
  have hlt : row < divUp call.maxHeight 8 * 8 := by omega
  exact ⟨hext, hlt.trans_le hgrid⟩

/-- The thread of an output index past an image's own reads past its bounds. -/
theorem covers_of_owns (hheight : 0 < call.maxInputHeight)
    (hown : ∀ t ∈ call.hThreads, ∀ e, call.entries[t.blockIdx.2.2]? = some e →
      ∀ r ∈ call.horizontalReads e h.bounds t, e.h.Owns call.hGrid r) {item : Item}
    (hitem : item ∈ call.items) : call.Covers item := by
  by_contra hcov
  unfold Covers at hcov
  obtain ⟨i, hi⟩ := List.getElem?_of_mem hitem
  obtain ⟨e, he, rfl⟩ := exists_entry {} hi
  obtain ⟨-, hpass, -⟩ := entries_getElem? he
  have hlen := (List.getElem?_eq_some_iff.1 hi).1
  have hrows := divUp_pos hheight (b := 8) (by decide)
  have hmem : (⟨(e.item.outCols / 32, 0, i), (e.item.outCols % 32, 0)⟩ : Thread) ∈ call.hThreads :=
    mem_launch.2 ⟨⟨by dsimp only; omega, hrows, hlen⟩, Nat.mod_lt _ (by decide), Nat.succ_pos 7⟩
  have hdst : e.item.outCols / 32 * 32 + e.item.outCols % 32 = e.item.outCols :=
    Nat.div_add_mod' _ _
  refine Strip.not_owns_bound (b := ⟨e.h, call.hvUseShareMem, 32, e.item.outCols / 32 * 32,
    call.maxWidth⟩) e.item.outCols (le_of_eq ?_) (hown _ hmem e he _ ?_)
  · dsimp only
    rw [hpass]
    rfl
  · refine List.mem_append.2 (.inr ?_)
    dsimp only
    rw [if_pos ⟨by omega, by omega⟩]
    refine List.mem_append.2 (.inl ?_)
    dsimp only
    rw [hdst]
    exact List.mem_cons_self

/-- The tables are an image's own, whatever the weights and the order of the coefficient kernels'
threads. -/
def AlwaysOwn (call : Call) : Prop :=
  ∀ weights normalizeCoeff h₀ v₀ h v,
    call.Coefficients weights normalizeCoeff h₀ v₀ h v → call.OwnTables h v

theorem covers_of_alwaysOwn (hown : call.AlwaysOwn) (hheight : 0 < call.maxInputHeight)
    {item : Item} (hitem : item ∈ call.items) : call.Covers item := by
  let tables : Tables := ⟨fun _ => 0, fun _ => 0⟩
  obtain ⟨h, hh⟩ := exists_coeffs (fun _ => 0) false (call.entries.map Entry.h)
    call.hUseShareMem call.hGrid tables
  obtain ⟨v, hv⟩ := exists_coeffs (fun _ => 0) false (call.entries.map Entry.v)
    call.vUseShareMem call.vGrid tables
  exact covers_of_owns hheight (hown _ _ _ _ h v ⟨hh, hv⟩).horizontal hitem

/-- Images of one pixel, resized to one column and to two. -/
def unequal : Call where
  filter := .bilinear
  items := [⟨1, 1, 1, 1, by decide, by decide⟩, ⟨1, 1, 2, 1, by decide, by decide⟩]
  channels := 1

end Call

end VarShape

end Cvcuda.PillowResize
