import CvCuda.Cvcuda.Proof.PillowResizeVarShape
import CvCuda.Cvcuda.PillowResizeWorkspace

/-! # The workspace suffices

* `mul_kSize_le`: the rows of a pass, for any ratio of its sizes.
* `totals_le`: the tables of a batch.
* `workspace_fits`: the buffers of both paths, where a batch has a sample at least.
-/

namespace Cvcuda.PillowResize

open Rounding

variable {filter : Filter} {inSize outSize : Nat}

/-! ## Tables -/

theorem Filter.support_le (filter : Filter) : filter.support ≤ 3 := by
  cases filter <;> norm_num [Filter.support]

/-- The rows of a pass. -/
theorem mul_kSize_le (filter : Filter) (inSize : Nat) (hout : 0 < outSize) :
    outSize * (pass filter inSize outSize).kSize ≤ 6 * inSize + 7 * outSize := by
  have houtQ : (0 : ℚ) < outSize := by exact_mod_cast hout
  have hsupport := filter.support_le
  have hhalf := filter.half_le_support
  simp only [pass]
  split_ifs with hscale
  · have hceil : ⌈filter.support * 1⌉ ≤ 3 := Int.ceil_le.2 (by push_cast; linarith)
    have hk : ⌈filter.support * 1⌉.toNat * 2 + 1 ≤ 7 := by omega
    exact (Nat.mul_le_mul_left outSize hk).trans (by omega)
  · generalize hratio : (inSize : ℚ) / outSize = r at hscale
    have hr : 1 ≤ r := not_lt.1 hscale
    have hpos : 0 ≤ ⌈filter.support * r⌉ := Int.ceil_nonneg (by positivity)
    have hceil := Int.ceil_lt_add_one (filter.support * r)
    have hmul : filter.support * r ≤ 3 * r := mul_le_mul_of_nonneg_right hsupport (by linarith)
    have hin : r * outSize = inSize := by
      rw [← hratio, div_mul_cancel₀ _ houtQ.ne']
    have hcast : ((⌈filter.support * r⌉.toNat : ℤ) : ℚ) = (⌈filter.support * r⌉ : ℚ) := by
      rw [Int.toNat_of_nonneg hpos]
    have hle : (outSize : ℚ) * (⌈filter.support * r⌉.toNat * 2 + 1) ≤ 6 * inSize + 7 * outSize := by
      push_cast at hcast
      rw [hcast, ← hin]
      nlinarith
    exact_mod_cast hle

/-- What the requirement has for a direction. -/
theorem tableSize_eq (maxInput maxOutput : DataShape) (hh : 0 < maxOutput.h)
    (hw : 0 < maxOutput.w) :
    ⌈tableSize 3 maxInput maxOutput⌉.toNat =
      24 * maxInput.h + 36 * maxOutput.h + (24 * maxInput.w + 36 * maxOutput.w) := by
  have hhQ : (maxOutput.h : ℚ) ≠ 0 := by exact_mod_cast hh.ne'
  have hwQ : (maxOutput.w : ℚ) ≠ 0 := by exact_mod_cast hw.ne'
  have hsize : tableSize 3 maxInput maxOutput =
      (24 * maxInput.h + 36 * maxOutput.h + (24 * maxInput.w + 36 * maxOutput.w) : Nat) := by
    unfold tableSize
    push_cast
    field_simp
    ring
  rw [hsize, Int.ceil_natCast, Int.toNat_natCast]

/-- The sizes of a sample are at most the maxima. -/
structure VarShape.Item.Within (item : VarShape.Item) (maxIn maxOut : Nat × Nat) : Prop where
  cols : item.cols ≤ maxIn.1
  rows : item.rows ≤ maxIn.2
  outCols : item.outCols ≤ maxOut.1
  outRows : item.outRows ≤ maxOut.2

/-- What the tables of a sample of the maximum sizes take. -/
def maxTables (maxIn maxOut : Nat × Nat) : Nat :=
  24 * maxIn.2 + 36 * maxOut.2 + (24 * maxIn.1 + 36 * maxOut.1)

/-- The tables of a sample, whatever its ratios. -/
theorem tables_le (filter : Filter) {item : VarShape.Item} {maxIn maxOut : Nat × Nat}
    (h : item.Within maxIn maxOut) :
    4 * (item.outCols * (pass filter item.cols item.outCols).kSize +
        item.outRows * (pass filter item.rows item.outRows).kSize) +
      4 * (item.outCols * 2 + item.outRows * 2) ≤ maxTables maxIn maxOut := by
  have hcols := mul_kSize_le filter item.cols item.outCols_pos
  have hrows := mul_kSize_le filter item.rows item.outRows_pos
  obtain ⟨hc, hr, hoc, hor⟩ := h
  unfold maxTables
  omega

namespace VarShape.Call

variable {call : Call} {maxIn maxOut : Nat × Nat}

theorem totals_foldl {items : List Item} (h : ∀ item ∈ items, item.Within maxIn maxOut)
    (t : Totals) :
    4 * ((items.foldl call.next t).hKkTotal + (items.foldl call.next t).vKkTotal) +
        4 * ((items.foldl call.next t).hBoundsTotal + (items.foldl call.next t).vBoundsTotal) ≤
      4 * (t.hKkTotal + t.vKkTotal) + 4 * (t.hBoundsTotal + t.vBoundsTotal) +
        items.length * maxTables maxIn maxOut := by
  induction items generalizing t with
  | nil => simp
  | cons item items ih =>
    have hrest := ih (fun item hitem => h item (List.mem_cons_of_mem _ hitem)) (call.next t item)
    have hitem := tables_le call.filter (h item List.mem_cons_self)
    rw [List.foldl_cons, List.length_cons, Nat.add_one_mul items.length]
    have hkk : (call.next t item).hKkTotal + (call.next t item).vKkTotal =
        t.hKkTotal + t.vKkTotal + (item.outCols * (pass call.filter item.cols item.outCols).kSize +
          item.outRows * (pass call.filter item.rows item.outRows).kSize) := by
      simp only [next, hPass, vPass]
      omega
    have hbounds : (call.next t item).hBoundsTotal + (call.next t item).vBoundsTotal =
        t.hBoundsTotal + t.vBoundsTotal + (item.outCols * 2 + item.outRows * 2) := by
      simp only [next]
      omega
    omega

/-- The tables of a batch. -/
theorem currentBufferSize_le (h : ∀ item ∈ call.items, item.Within maxIn maxOut) :
    call.currentBufferSize ≤ (96 + maxTables maxIn maxOut) * call.items.length := by
  have htotals : 4 * (call.totals.hKkTotal + call.totals.vKkTotal) +
      4 * (call.totals.hBoundsTotal + call.totals.vBoundsTotal) ≤
      0 + call.items.length * maxTables maxIn maxOut := totals_foldl h {}
  rw [currentBufferSize, Nat.add_mul 96, Nat.mul_comm (maxTables maxIn maxOut)]
  omega

theorem foldl_max_le (f : Item → Nat) {items : List Item} {m bound : Nat} (hm : m ≤ bound)
    (h : ∀ item ∈ items, f item ≤ bound) :
    items.foldl (fun m item => max m (f item)) m ≤ bound := by
  induction items generalizing m with
  | nil => exact hm
  | cons item items ih =>
    exact ih (max_le hm (h item List.mem_cons_self))
      fun item hitem => h item (List.mem_cons_of_mem _ hitem)

end VarShape.Call

/-! ## Buffers -/

theorem end_le_of_mem_carve {offset : Nat} {sizes : List Nat} {b : Buffer}
    (h : b ∈ carve offset sizes) : b.offset + b.size ≤ offset + sizes.sum := by
  induction sizes generalizing offset with
  | nil => cases h
  | cons size sizes ih =>
    rw [List.sum_cons]
    rcases List.mem_cons.1 h with rfl | h
    · exact Nat.add_le_add_left (Nat.le_add_right _ _) _
    · have := ih h
      omega

theorem le_maxMemReq {a b : MemRequirements} (hb : 0 < b.alignment) :
    b.size ≤ (maxMemReq a b).size := by
  unfold maxMemReq
  dsimp only
  refine le_trans ?_ (le_roundUp _ ?_)
  · split <;> omega
  · split <;> omega

variable {maxBatch channels dataSize : Nat} {maxIn maxOut : Nat × Nat}

variable (maxBatch channels dataSize maxIn) in
/-- The requirements, without their rounding. -/
theorem le_requirements (hh : 0 < maxOut.2) (hw : 0 < maxOut.1) :
    (96 + maxTables maxIn maxOut) * maxBatch ≤
        (getWorkspaceRequirements maxBatch maxIn maxOut channels dataSize).hostMem.size ∧
      (96 + maxTables maxIn maxOut) * maxBatch +
          maxBatch * channels * maxIn.2 * maxOut.1 * 4 ≤
        (getWorkspaceRequirements maxBatch maxIn maxOut channels dataSize).musaMem.size := by
  have hsize := tableSize_eq ⟨maxBatch, channels, maxIn.2, maxIn.1⟩
    ⟨maxBatch, channels, maxOut.2, maxOut.1⟩ hh hw
  have hhost : (96 + maxTables maxIn maxOut) * maxBatch =
      (varShapeRequirements ⟨maxBatch, channels, maxIn.2, maxIn.1⟩
        ⟨maxBatch, channels, maxOut.2, maxOut.1⟩).hostMem.size := by
    unfold varShapeRequirements
    dsimp only
    rw [hsize]
    rfl
  have hmusa : (96 + maxTables maxIn maxOut) * maxBatch +
      maxBatch * channels * maxIn.2 * maxOut.1 * 4 =
      (varShapeRequirements ⟨maxBatch, channels, maxIn.2, maxIn.1⟩
        ⟨maxBatch, channels, maxOut.2, maxOut.1⟩).musaMem.size := by
    rw [hhost]
    rfl
  rw [hmusa, hhost]
  exact ⟨le_maxMemReq (by decide : 0 < 16), le_maxMemReq (by decide : 0 < 256)⟩

/-- A tensor of a maximum batch of one sample at least. -/
theorem tensor_fits (call : TensorCall) (hbatch : 0 < maxBatch)
    (hsamples : call.numSamples ≤ maxBatch) (hchannels : call.channels ≤ channels)
    (helem : call.elemSize ≤ 4) (hsize : call.item.Within maxIn maxOut) {b : Buffer}
    (hb : b ∈ call.deviceBuffers) :
    b.offset + b.size ≤
      (getWorkspaceRequirements maxBatch maxIn maxOut channels dataSize).musaMem.size := by
  obtain ⟨-, hmusa⟩ := le_requirements maxBatch channels dataSize maxIn
    (call.item.outRows_pos.trans_le hsize.outRows) (call.item.outCols_pos.trans_le hsize.outCols)
  have htables := tables_le call.filter hsize
  have hdata : call.numSamples * call.item.rows * call.item.outCols * call.channels *
      call.elemSize ≤ maxBatch * channels * maxIn.2 * maxOut.1 * 4 := by
    calc call.numSamples * call.item.rows * call.item.outCols * call.channels * call.elemSize
        ≤ maxBatch * maxIn.2 * maxOut.1 * channels * 4 :=
          Nat.mul_le_mul (Nat.mul_le_mul (Nat.mul_le_mul (Nat.mul_le_mul hsamples hsize.rows)
            hsize.outCols) hchannels) helem
      _ = maxBatch * channels * maxIn.2 * maxOut.1 * 4 := by ring
  have hsample : maxTables maxIn maxOut ≤ (96 + maxTables maxIn maxOut) * maxBatch :=
    (Nat.le_add_left _ 96).trans (Nat.le_mul_of_pos_right _ hbatch)
  have hend := end_le_of_mem_carve hb
  simp only [List.sum_cons, List.sum_nil, TensorCall.hPass, TensorCall.vPass] at hend
  omega

theorem sum_arraySizes (call : VarShape.Call) : call.arraySizes.sum = 96 * call.items.length := by
  simp only [VarShape.Call.arraySizes, List.sum_append, List.sum_replicate, smul_eq_mul]
  omega

/-- A batch of images. -/
theorem varShape_fits (call : VarShape.Call) (hbatch : call.items.length ≤ maxBatch)
    (hchannels : call.channels ≤ channels) (hsize : ∀ item ∈ call.items, item.Within maxIn maxOut) :
    (∀ b ∈ call.hostBuffers, b.offset + b.size ≤
      (getWorkspaceRequirements maxBatch maxIn maxOut channels dataSize).hostMem.size) ∧
    ∀ b ∈ call.deviceBuffers, b.offset + b.size ≤
      (getWorkspaceRequirements maxBatch maxIn maxOut channels dataSize).musaMem.size := by
  have hcurrent := VarShape.Call.currentBufferSize_le hsize
  have harrays := sum_arraySizes call
  have hscale : (96 + maxTables maxIn maxOut) * call.items.length ≤
      (96 + maxTables maxIn maxOut) * maxBatch := Nat.mul_le_mul_left _ hbatch
  have hwide := VarShape.Call.foldl_max_le VarShape.Item.outCols (Nat.zero_le maxOut.1)
    fun item hitem => (hsize item hitem).outCols
  have hhigh := VarShape.Call.foldl_max_le VarShape.Item.rows (Nat.zero_le maxIn.2)
    fun item hitem => (hsize item hitem).rows
  have hdata : call.items.length * call.maxInputHeight * call.maxWidth * call.channels * 4 ≤
      maxBatch * channels * maxIn.2 * maxOut.1 * 4 := by
    calc call.items.length * call.maxInputHeight * call.maxWidth * call.channels * 4
        ≤ maxBatch * maxIn.2 * maxOut.1 * channels * 4 :=
          Nat.mul_le_mul_right 4 (Nat.mul_le_mul (Nat.mul_le_mul (Nat.mul_le_mul hbatch hhigh)
            hwide) hchannels)
      _ = maxBatch * channels * maxIn.2 * maxOut.1 * 4 := by ring
  -- where the buffers end, whatever the requirements
  have hhost : ∀ b ∈ call.hostBuffers, b.offset + b.size ≤
      (96 + maxTables maxIn maxOut) * call.items.length := by
    intro b hb
    rcases List.mem_append.1 hb with hb | hb
    · have hend := end_le_of_mem_carve hb
      rw [harrays] at hend
      rw [Nat.add_mul]
      omega
    · obtain rfl := List.mem_singleton.1 hb
      dsimp only
      omega
  have hdevice : ∀ b ∈ call.deviceBuffers, b.offset + b.size ≤
      (96 + maxTables maxIn maxOut) * call.items.length +
        call.items.length * call.maxInputHeight * call.maxWidth * call.channels * 4 := by
    intro b hb
    rcases List.mem_append.1 hb with hb | hb
    · have hend := end_le_of_mem_carve hb
      rw [List.sum_append, harrays] at hend
      simp only [List.sum_cons, List.sum_nil] at hend
      unfold VarShape.Call.currentBufferSize at hcurrent
      omega
    · simp only [List.mem_cons, List.not_mem_nil, or_false] at hb
      rcases hb with rfl | rfl
      · dsimp only
        omega
      · dsimp only
        omega
  by_cases hnil : call.items = []
  · -- no images, no buffers
    rw [hnil] at hhost hdevice
    simp only [List.length_nil, Nat.mul_zero, Nat.zero_mul, Nat.add_zero] at hhost hdevice
    exact ⟨fun b hb => (hhost b hb).trans (Nat.zero_le _),
      fun b hb => (hdevice b hb).trans (Nat.zero_le _)⟩
  · obtain ⟨item, hmem⟩ := List.exists_mem_of_ne_nil _ hnil
    have hitem := hsize item hmem
    obtain ⟨hreqHost, hreqMusa⟩ := le_requirements maxBatch channels dataSize maxIn
      (item.outRows_pos.trans_le hitem.outRows) (item.outCols_pos.trans_le hitem.outCols)
    refine ⟨fun b hb => ?_, fun b hb => ?_⟩
    · have := hhost b hb
      omega
    · have := hdevice b hb
      omega

/-- **The workspace suffices** for the batches of images up to the maxima, and for the tensors where
the maximum batch has a sample. -/
theorem workspace_fits (maxBatch channels dataSize : Nat) (maxIn maxOut : Nat × Nat) :
    (0 < maxBatch → ∀ call : TensorCall, call.numSamples ≤ maxBatch → call.channels ≤ channels →
      call.elemSize ≤ 4 → call.item.Within maxIn maxOut → ∀ b ∈ call.deviceBuffers,
        b.offset + b.size ≤
          (getWorkspaceRequirements maxBatch maxIn maxOut channels dataSize).musaMem.size) ∧
    ∀ call : VarShape.Call, call.items.length ≤ maxBatch → call.channels ≤ channels →
      (∀ item ∈ call.items, item.Within maxIn maxOut) →
      (∀ b ∈ call.hostBuffers, b.offset + b.size ≤
        (getWorkspaceRequirements maxBatch maxIn maxOut channels dataSize).hostMem.size) ∧
      ∀ b ∈ call.deviceBuffers, b.offset + b.size ≤
        (getWorkspaceRequirements maxBatch maxIn maxOut channels dataSize).musaMem.size :=
  ⟨fun hbatch call hsamples hchannels helem hsize _ hb =>
    tensor_fits call hbatch hsamples hchannels helem hsize hb, varShape_fits⟩

/-- A hundred columns and rows, kept as they are. -/
def hundred : VarShape.Item where
  cols := 100
  rows := 100
  outCols := 100
  outRows := 100
  outCols_pos := by decide
  outRows_pos := by decide

/-- One such sample. -/
theorem workspace_fits_hundred :
    (∀ b ∈ (TensorCall.mk .lanczos 1 1 1 hundred).deviceBuffers, b.offset + b.size ≤
      (getWorkspaceRequirements 1 (100, 100) (100, 100) 1 1).musaMem.size) ∧
    ∀ b ∈ (VarShape.Call.mk .lanczos [hundred] 1).hostBuffers, b.offset + b.size ≤
      (getWorkspaceRequirements 1 (100, 100) (100, 100) 1 1).hostMem.size := by
  have hsize : hundred.Within (100, 100) (100, 100) := ⟨le_rfl, le_rfl, le_rfl, le_rfl⟩
  obtain ⟨htensor, hvarShape⟩ := workspace_fits 1 1 1 (100, 100) (100, 100)
  refine ⟨htensor (by decide) _ le_rfl le_rfl (by decide) hsize, ?_⟩
  refine (hvarShape (VarShape.Call.mk .lanczos [hundred] 1) le_rfl le_rfl ?_).1
  intro item hitem
  rw [List.mem_singleton.1 hitem]
  exact hsize

theorem kSize_hundred : (pass .lanczos 100 100).kSize = 7 := by
  simp only [pass, Filter.support]
  norm_num
  rfl

theorem tableSize_hundred : tableSize 1 ⟨0, 1, 100, 100⟩ ⟨0, 1, 100, 100⟩ = 5600 := by
  norm_num [tableSize]

/-- The tables of no samples outgrow the requirement of no samples. -/
theorem no_samples_short :
    ¬∀ b ∈ (TensorCall.mk .lanczos 0 1 1 hundred).deviceBuffers, b.offset + b.size ≤
      (getWorkspaceRequirements 0 (100, 100) (100, 100) 1 1).musaMem.size := by
  have hreq : (getWorkspaceRequirements 0 (100, 100) (100, 100) 1 1).musaMem.size = 5632 := by
    simp only [getWorkspaceRequirements, maxWorkspaceReq, tensorRequirements, varShapeRequirements,
      tableSize_hundred]
    norm_num [maxMemReq, roundUp]
    rfl
  have hh : (TensorCall.mk .lanczos 0 1 1 hundred).hPass.kSize = 7 := kSize_hundred
  have hv : (TensorCall.mk .lanczos 0 1 1 hundred).vPass.kSize = 7 := kSize_hundred
  intro h
  rw [hreq] at h
  have hbounds := h ⟨6400, 800⟩ (by
    rw [TensorCall.deviceBuffers, hh, hv]
    decide)
  exact absurd hbounds (by decide)

end Cvcuda.PillowResize
