import CvCuda.Lib.Int32
import CvCuda.Cvcuda.Erase
import CvCuda.Cvcuda.Proof.HistogramEq

/-! # What erasing leaves

* `extent`: how many places of an area the launch has threads for (`mem_stores`).
* `place`: where a thread's sum of a coordinate ends up, which is beside the image where an anchor
  is negative: only the far sides of an image are looked at.
* `infer_erases_iff`: what is erased are the elements asked for if and only if each has a thread
  (`Covered`) and no thread is before the first row or column (`Inside`).
-/

namespace Cvcuda.Erase

open Kernel FloatRound

variable {F V : Type} {maxGridZ maxNumErasingArea : Nat} {cast : SaturateCast F V} {call : Call}
  {values : Nat → F} {input output : Cell → V} {a : Area} {k : Cell}

/-! ## What is asked for -/

/-- An element of an area's image, in the area and in a channel of its mask. -/
structure Target (call : Call) (a : Area) (k : Cell) : Prop where
  batch : k.batch = a.imgIdx.toInt
  x_le : a.anchor.x.toInt ≤ k.x
  x_lt : k.x < a.anchor.x.toInt + a.erasing.x.toInt
  y_le : a.anchor.y.toInt ≤ k.y
  y_lt : k.y < a.anchor.y.toInt + a.erasing.y.toInt
  mask : a.erasing.z.toBitVec.getLsbD k.c = true
  element : call.Element k

/-- `m` has the areas' values in the elements asked for, and everything else as it was. -/
structure Erases (cast : SaturateCast F V) (call : Call) (values : Nat → F)
    (input output m : Cell → V) : Prop where
  erased : ∀ (i : Nat) a k, call.areas[i]? = some a → Target call a k →
    m k = cast.ofFloat (values (i * call.numChannels + k.c))
  kept : ∀ k, call.Element k → (∀ a ∈ call.areas, ¬Target call a k) → m k = input k
  beside : ∀ k, ¬call.Element k → m k = if call.inplace then input k else output k

/-- What a caller keeps to. -/
structure Valid (call : Call) : Prop where
  random : call.random = false
  numChannels : call.numChannels ≤ 32
  imgIdx : ∀ a ∈ call.areas, 0 ≤ a.imgIdx.toInt ∧ a.imgIdx.toInt < call.numSamples
  width : ∀ a ∈ call.areas, 0 ≤ a.erasing.x.toInt
  height : ∀ a ∈ call.areas, 0 ≤ a.erasing.y.toInt
  size : ∀ a ∈ call.areas, a.erasing.y.toInt * a.erasing.x.toInt < 2 ^ 32
  disjoint : ∀ (i j : Nat) a b k, call.areas[i]? = some a → call.areas[j]? = some b → Target call a k →
    Target call b k → i = j

/-! ## The launch -/

/-- The threads side by side of a launch for areas of at most this height and width. -/
def extent (maxEh maxEw : Int32) : Nat :=
  let size := (maxEh.toInt * maxEw.toInt).bmod (2 ^ 32)
  if 0 < size then divUp size.toNat 1024 * min size.toNat 1024 else 0

/-- The largest width and height that areas have. -/
def Call.maxValues (call : Call) : Int3 := (call.areas.map Area.erasing).foldl maxWH ⟨0, 0, 0⟩

/-- The threads side by side of the launch for the areas. -/
def Call.extent (call : Call) (maxGridZ : Nat) : Nat :=
  if call.areas.length ≤ maxGridZ then Erase.extent call.maxValues.y call.maxValues.x else 0

theorem mem_threads {blockSize gridX gridY gridZ : Nat} {t : Thread} :
    t ∈ threads blockSize gridX gridY gridZ ↔
      (t.z < gridZ ∧ t.y < gridY) ∧ t.x < gridX ∧ t.threadIdx < blockSize := by
  simp only [threads, List.mem_flatMap, List.mem_map, List.mem_range]
  constructor
  · rintro ⟨z, hz, y, hy, x, hx, i, hi, rfl⟩
    exact ⟨⟨hz, hy⟩, hx, hi⟩
  · rintro ⟨⟨hz, hy⟩, hx, hi⟩
    exact ⟨t.z, hz, t.y, hy, t.x, hx, t.threadIdx, hi, rfl⟩

/-! ## A thread -/

/-- A coordinate that a thread comes to, at a distance from an anchor. -/
def place (anchor : Int32) (d : Nat) : ℤ := (anchor.toInt + d).bmod (2 ^ 32)

theorem place_of_lt {anchor : Int32} {d : Nat} (h : anchor.toInt + d < 2 ^ 31) :
    place anchor d = anchor.toInt + d := by
  have hle := anchor.le_toInt
  exact Int.bmod_eq_of_le (by omega) (by omega)

/-- A sum that wraps around is negative. -/
theorem place_of_nonneg {anchor : Int32} {d : Nat} (hd : d < 2 ^ 31) (h : 0 ≤ place anchor d) :
    place anchor d = anchor.toInt + d := by
  by_cases hlt : anchor.toInt + d < 2 ^ 31
  · exact place_of_lt hlt
  · have hanchor := anchor.toInt_lt
    have hwrap : place anchor d = anchor.toInt + d - 2 ^ 32 := by
      unfold place
      rw [Int.bmod_def]
      omega
    omega

theorem toInt_toInt32 {u : UInt32} (h : u.toNat < 2 ^ 31) : u.toInt32.toInt = u.toNat := by
  have hbmod : u.toInt32.toInt = (u.toNat : ℤ).bmod (2 ^ 32) := by
    simp [Int32.toInt, UInt32.toInt32, BitVec.toInt_eq_toNat_bmod]
    rfl
  rw [hbmod]
  exact Int.bmod_eq_of_le (by omega) (by omega)

theorem toInt_add_toInt32 {anchor : Int32} {u : UInt32} (h : u.toNat < 2 ^ 31) :
    (anchor + u.toInt32).toInt = place anchor u.toNat := by
  rw [Int32.toInt_add, toInt_toInt32 h]
  rfl

theorem toNat_toUInt32 {v : Int32} (h : 0 ≤ v.toInt) : v.toUInt32.toNat = v.toInt.toNat := by
  have hlt := v.toInt_lt
  have hbmod : v.toInt = (v.toUInt32.toNat : ℤ).bmod (2 ^ 32) := by
    simp [Int32.toInt, BitVec.toInt_eq_toNat_bmod]
    rfl
  have hn : v.toUInt32.toNat < 2 ^ 32 := v.toUInt32.toNat_lt
  rw [Int.bmod_def] at hbmod
  omega

theorem mask_iff {z : BitVec 32} {c : Nat} (hc : c < 32) :
    1#32 &&& z.sshiftRight c = 1#32 ↔ z.getLsbD c = true := by
  have hbit : (z.sshiftRight c).getLsbD 0 = z.getLsbD c := by
    rw [BitVec.getLsbD_sshiftRight]
    simp [hc]
  rw [← hbit]
  constructor
  · intro h
    have h0 := congrArg (fun v => BitVec.getLsbD v 0) h
    simpa using h0
  · intro h
    apply BitVec.eq_of_getLsbD_eq
    intro i hi
    rcases Nat.eq_zero_or_pos i with rfl | hpos
    · simpa using h
    · have hone : (1#32).getLsbD i = false := by
        simp [BitVec.getLsbD_one]
        omega
      rw [BitVec.getLsbD_and, hone, Bool.false_and]

/-- Where the thread for the place `(x, y)` of an area stores in a channel. -/
def cellOf (a : Area) (x y c : Nat) : Cell :=
  ⟨a.imgIdx.toInt, place a.anchor.y y, place a.anchor.x x, c⟩

/-- The thread for the place `(x, y)` of an area stores in a channel. -/
structure Placed (call : Call) (a : Area) (x y c : Nat) : Prop where
  x_lt : x < a.erasing.x.toInt
  y_lt : y < a.erasing.y.toInt
  mask : a.erasing.z.toBitVec.getLsbD c = true
  col_lt : place a.anchor.x x < call.numCols.toInt
  row_lt : place a.anchor.y y < call.numRows.toInt

theorem erase_eq_some (hv : Valid call) {t : Thread} (ha : call.areas[t.z]? = some a)
    (hc : t.y < call.numChannels) {blockDim : UInt32} {s : Cell × V} :
    erase cast call values blockDim t = some s ↔ ∃ x y : Nat,
      ((UInt32.ofNat t.threadIdx + UInt32.ofNat t.x * blockDim).toNat : ℤ) =
          y * a.erasing.x.toInt + x ∧ Placed call a x y t.y ∧
        s = (cellOf a x y t.y, cast.ofFloat (values (t.z * call.numChannels + t.y))) := by
  have hmem := List.mem_of_getElem? ha
  obtain ⟨w, hw⟩ := Int.eq_ofNat_of_zero_le (hv.width a hmem)
  obtain ⟨h, hh⟩ := Int.eq_ofNat_of_zero_le (hv.height a hmem)
  have hw31 := a.erasing.x.toInt_lt
  have hh31 := a.erasing.y.toInt_lt
  have hsize : h * w < 2 ^ 32 := by
    have hz := hv.size a hmem
    rw [hw, hh] at hz
    exact_mod_cast hz
  have hwU : a.erasing.x.toUInt32.toNat = w := by
    rw [toNat_toUInt32 (by omega)]
    omega
  have hhU : a.erasing.y.toUInt32.toNat = h := by
    rw [toNat_toUInt32 (by omega)]
    omega
  have hprod : (a.erasing.y * a.erasing.x).toUInt32.toNat = h * w := by
    change (a.erasing.y.toUInt32 * a.erasing.x.toUInt32).toNat = h * w
    rw [UInt32.toNat_mul, hwU, hhU, Nat.mod_eq_of_lt hsize]
  have hfill : fill cast call values blockDim t =
      cast.ofFloat (values (t.z * call.numChannels + t.y)) := by
    simp [fill, hv.random]
  unfold erase
  rw [ha, Option.bind_some]
  generalize UInt32.ofNat t.threadIdx + UInt32.ofNat t.x * blockDim = id
  rw [hfill]
  dsimp only
  by_cases hid : id.toNat < h * w
  · have hw0 : 0 < w := Nat.pos_of_ne_zero fun h0 => by simp [h0] at hid
    have hmod : (id % a.erasing.x.toUInt32).toNat = id.toNat % w := by rw [UInt32.toNat_mod, hwU]
    have hdiv : (id / a.erasing.x.toUInt32).toNat = id.toNat / w := by rw [UInt32.toNat_div, hwU]
    have hmodlt : id.toNat % w < w := Nat.mod_lt _ hw0
    have hdivlt : id.toNat / w < h := (Nat.div_lt_iff_lt_mul hw0).2 hid
    have hx : (a.anchor.x + (id % a.erasing.x.toUInt32).toInt32).toInt =
        place a.anchor.x (id.toNat % w) := by
      rw [toInt_add_toInt32 (by omega), hmod]
    have hy : (a.anchor.y + (id / a.erasing.x.toUInt32).toInt32).toInt =
        place a.anchor.y (id.toNat / w) := by
      rw [toInt_add_toInt32 (by omega), hdiv]
    have hmask := mask_iff (z := a.erasing.z.toBitVec) (hc.trans_le hv.numChannels)
    simp only [Int32.lt_iff_toInt_lt, hx, hy]
    have hlt : id < (a.erasing.y * a.erasing.x).toUInt32 :=
      UInt32.lt_iff_toNat_lt.2 (hprod ▸ hid)
    constructor
    · intro hs
      split_ifs at hs with hbit hclip
      refine ⟨id.toNat % w, id.toNat / w, ?_, ⟨by omega, by omega, hmask.1 hbit.2, hclip.1,
        hclip.2⟩, (Option.some.inj hs).symm⟩
      rw [hw]
      exact_mod_cast (Nat.div_add_mod' id.toNat w).symm
    · rintro ⟨x, y, heq, hp, rfl⟩
      have hxlt : x < w := by have := hp.x_lt; omega
      have hideq : id.toNat = y * w + x := by
        rw [hw] at heq
        exact_mod_cast heq
      have hxeq : id.toNat % w = x := by
        rw [hideq, Nat.mul_comm, Nat.mul_add_mod, Nat.mod_eq_of_lt hxlt]
      have hyeq : id.toNat / w = y := by
        rw [hideq, Nat.mul_comm, Nat.mul_add_div hw0, Nat.div_eq_of_lt hxlt, Nat.add_zero]
      rw [hxeq, hyeq, if_pos ⟨hlt, hmask.2 hp.mask⟩, if_pos ⟨hp.col_lt, hp.row_lt⟩]
      rfl
  · -- the area has no place for the thread
    have hlt : ¬id < (a.erasing.y * a.erasing.x).toUInt32 := fun hlt =>
      hid (hprod ▸ UInt32.lt_iff_toNat_lt.1 hlt)
    rw [if_neg fun hand => hlt hand.1]
    constructor
    · intro hs
      cases hs
    rintro ⟨x, y, heq, hp, -⟩
    have hxlt : x < w := by have := hp.x_lt; omega
    have hylt : y + 1 ≤ h := by have := hp.y_lt; omega
    rw [hw] at heq
    have hmul := Nat.mul_le_mul_right w hylt
    rw [Nat.succ_mul] at hmul
    have hid' : id.toNat = y * w + x := by exact_mod_cast heq
    omega

/-! ## The stores of a launch -/

theorem toNat_id (i x : Nat) (blockDim : UInt32) :
    (UInt32.ofNat i + UInt32.ofNat x * blockDim).toNat = (i + x * blockDim.toNat) % 2 ^ 32 := by
  have hsum : UInt32.ofNat i + UInt32.ofNat x * blockDim =
      UInt32.ofNat (i + x * blockDim.toNat) := by
    rw [UInt32.ofNat_add, UInt32.ofNat_mul, UInt32.ofNat_toNat]
  rw [hsum, UInt32.toNat_ofNat']

/-- One of so many threads is the one for a place of an area, and stores. -/
def Reached (call : Call) (ext : Nat) (a : Area) (x y c : Nat) : Prop :=
  c < call.numChannels ∧ y * a.erasing.x.toInt + x < ext ∧ Placed call a x y c

theorem not_reached_zero {x y c : Nat} (hw : 0 ≤ a.erasing.x.toInt) : ¬Reached call 0 a x y c := by
  rintro ⟨-, hid, -⟩
  have hnonneg : 0 ≤ y * a.erasing.x.toInt := by positivity
  omega

/-- An area of the list comes with a value for each channel. -/
def storeOf (cast : SaturateCast F V) (call : Call) (values : Nat → F) (i : Nat) (a : Area)
    (x y c : Nat) : Cell × V :=
  (cellOf a x y c, cast.ofFloat (values (i * call.numChannels + c)))

theorem lt_of_mem_grid {i x b n : Nat} (hi : i < b) (hx : x < n) : i + x * b < n * b := by
  have hle := Nat.mul_le_mul_right b hx
  rw [Nat.succ_mul] at hle
  omega

theorem mem_eraseCaller (hv : Valid call) {maxEh maxEw : Int32} {s : Cell × V} :
    s ∈ eraseCaller maxGridZ cast call values maxEh maxEw ↔ ∃ (i : Nat) (a : Area) (x y c : Nat),
      call.areas[i]? = some a ∧
        Reached call (if call.areas.length ≤ maxGridZ then extent maxEh maxEw else 0) a x y c ∧
          s = storeOf cast call values i a x y c := by
  unfold eraseCaller extent
  dsimp only
  rw [← Int32.toInt_mul]
  generalize hp : maxEh * maxEw = p
  have h1024 : (1024 : Int32).toInt = 1024 := by decide
  have h0 : (0 : Int32).toInt = 0 := by decide
  have hblock : (if p < 1024 then p else 1024).toInt = min p.toInt 1024 := by
    split_ifs with h
    · rw [Int32.lt_iff_toInt_lt, h1024] at h
      omega
    · rw [Int32.lt_iff_toInt_lt, h1024] at h
      omega
  generalize (if p < 1024 then p else 1024) = blockSize at *
  have hpos : 0 < blockSize ↔ 0 < p.toInt := by
    rw [Int32.lt_iff_toInt_lt, h0, hblock]
    omega
  by_cases hlaunch : 0 < blockSize ∧ call.areas.length ≤ maxGridZ
  · rw [if_pos hlaunch, if_pos hlaunch.2, if_pos (hpos.1 hlaunch.1)]
    have hp0 := hpos.1 hlaunch.1
    have hb : blockSize.toInt.toNat = min p.toInt.toNat 1024 := by omega
    have hbU : blockSize.toUInt32.toNat = min p.toInt.toNat 1024 := by
      rw [toNat_toUInt32 (by omega), hb]
    have hb0 : 0 < min p.toInt.toNat 1024 := by omega
    rw [hb]
    generalize min p.toInt.toNat 1024 = b at *
    generalize divUp p.toInt.toNat 1024 = gridSize
    simp only [List.mem_filterMap, mem_threads]
    constructor
    · rintro ⟨t, ⟨⟨hz, hy⟩, hx, hi⟩, ht⟩
      obtain ⟨a, ha⟩ : ∃ a, call.areas[t.z]? = some a := ⟨_, List.getElem?_eq_getElem hz⟩
      obtain ⟨x, y, hid, hplaced, rfl⟩ := (erase_eq_some hv ha hy).1 ht
      rw [toNat_id, hbU] at hid
      refine ⟨t.z, a, x, y, t.y, ha, ⟨hy, hid ▸ ?_, hplaced⟩, rfl⟩
      exact_mod_cast (Nat.mod_le _ _).trans_lt (lt_of_mem_grid hi hx)
    · rintro ⟨i, a, x, y, c, ha, ⟨hc, hid, hplaced⟩, rfl⟩
      have hmem := List.mem_of_getElem? ha
      have hw := hv.width a hmem
      have hnonneg : 0 ≤ y * a.erasing.x.toInt := by positivity
      obtain ⟨id, hideq⟩ := Int.eq_ofNat_of_zero_le (by omega : 0 ≤ y * a.erasing.x.toInt + x)
      have hid32 : id < 2 ^ 32 := by
        have hsize := hv.size a hmem
        have hx := hplaced.x_lt
        have hle : ((y : ℤ) + 1) * a.erasing.x.toInt ≤ a.erasing.y.toInt * a.erasing.x.toInt :=
          Int.mul_le_mul_of_nonneg_right hplaced.y_lt hw
        rw [add_mul, one_mul] at hle
        omega
      have hidext : id < gridSize * b := by
        rw [hideq] at hid
        exact_mod_cast hid
      have hi : i < call.areas.length := (List.getElem?_eq_some_iff.1 ha).1
      refine ⟨⟨id % b, id / b, c, i⟩, ⟨⟨hi, hc⟩, (Nat.div_lt_iff_lt_mul hb0).2 hidext,
        Nat.mod_lt _ hb0⟩, ?_⟩
      refine (erase_eq_some hv ha hc).2 ⟨x, y, ?_, hplaced, rfl⟩
      rw [toNat_id, hbU, Nat.mod_add_div', Nat.mod_eq_of_lt hid32, hideq]
  · rw [if_neg hlaunch]
    have hnone : (if call.areas.length ≤ maxGridZ then
        if 0 < p.toInt then divUp p.toInt.toNat 1024 * min p.toInt.toNat 1024 else 0 else 0) =
          0 := by
      split_ifs with hlen hpos'
      · exact absurd ⟨hpos.2 hpos', hlen⟩ hlaunch
      · rfl
      · rfl
    rw [hnone]
    constructor
    · intro hs
      cases hs
    · rintro ⟨i, a, x, y, c, ha, hreached, -⟩
      exact absurd hreached (not_reached_zero (hv.width a (List.mem_of_getElem? ha)))

/-- What the launch of a call stores. -/
theorem mem_stores (hcheck : check maxNumErasingArea call = none) (hv : Valid call)
    {s : Cell × V} :
    s ∈ (infer maxGridZ maxNumErasingArea cast call values input output).stores ↔
      ∃ (i : Nat) (a : Area) (x y c : Nat), call.areas[i]? = some a ∧
        Reached call (call.extent maxGridZ) a x y c ∧ s = storeOf cast call values i a x y c := by
  unfold infer
  rw [hcheck]
  dsimp only
  generalize (if call.inplace then input else fun k => if call.Element k then input k else output k)
    = copied
  split_ifs with hlen hzero
  · constructor
    · intro hs
      cases hs
    · rintro ⟨i, a, x, y, c, ha, -⟩
      rw [List.length_eq_zero_iff.1 hlen] at ha
      cases ha
  · -- nothing has both a width and a height
    have hext : call.extent maxGridZ = 0 := by
      have hsize : call.maxValues.y.toInt * call.maxValues.x.toInt = 0 := by
        unfold Call.maxValues
        rcases hzero with h | h
        · rw [h]
          exact mul_zero _
        · rw [h]
          exact zero_mul _
      unfold Call.extent extent
      dsimp only
      rw [hsize]
      simp
    rw [hext]
    constructor
    · intro hs
      cases hs
    · rintro ⟨i, a, x, y, c, ha, hreached, -⟩
      exact absurd hreached (not_reached_zero (hv.width a (List.mem_of_getElem? ha)))
  · exact mem_eraseCaller hv

/-! ## The elements that are erased -/

/-- Every element asked for has a thread. -/
def Covered (call : Call) (ext : Nat) : Prop := ∀ a ∈ call.areas, ∀ k, Target call a k →
  (k.y - a.anchor.y.toInt) * a.erasing.x.toInt + (k.x - a.anchor.x.toInt) < ext

/-- No thread that stores is before the first column or row. -/
def Inside (call : Call) (ext : Nat) : Prop := ∀ a ∈ call.areas, ∀ x y c, Reached call ext a x y c →
  0 ≤ place a.anchor.x x ∧ 0 ≤ place a.anchor.y y

/-- A thread that does not end up before the image has an element asked for. -/
theorem target_of_reached (hv : Valid call) (ha : a ∈ call.areas) {ext x y c : Nat}
    (hr : Reached call ext a x y c) (hx : 0 ≤ place a.anchor.x x) (hy : 0 ≤ place a.anchor.y y) :
    Target call a (cellOf a x y c) := by
  obtain ⟨hc, -, hp⟩ := hr
  have hxlt := hp.x_lt
  have hylt := hp.y_lt
  have hw := a.erasing.x.toInt_lt
  have hh := a.erasing.y.toInt_lt
  have hxeq := place_of_nonneg (by omega) hx
  have hyeq := place_of_nonneg (by omega) hy
  refine ⟨rfl, ?_, ?_, ?_, ?_, hp.mask, hv.imgIdx a ha, ⟨hy, hp.row_lt⟩, ⟨hx, hp.col_lt⟩, hc⟩
  · change a.anchor.x.toInt ≤ place a.anchor.x x
    omega
  · change place a.anchor.x x < _
    omega
  · change a.anchor.y.toInt ≤ place a.anchor.y y
    omega
  · change place a.anchor.y y < _
    omega

theorem reached_of_target {ext : Nat} (ht : Target call a k)
    (hext : (k.y - a.anchor.y.toInt) * a.erasing.x.toInt + (k.x - a.anchor.x.toInt) < ext) :
    ∃ x y, Reached call ext a x y k.c ∧ cellOf a x y k.c = k := by
  obtain ⟨hbatch, hxle, hxlt, hyle, hylt, hmask, -, ⟨-, hrow⟩, ⟨-, hcol⟩, hc⟩ := ht
  obtain ⟨x, hx⟩ := Int.eq_ofNat_of_zero_le (by omega : 0 ≤ k.x - a.anchor.x.toInt)
  obtain ⟨y, hy⟩ := Int.eq_ofNat_of_zero_le (by omega : 0 ≤ k.y - a.anchor.y.toInt)
  have hcols := call.numCols.toInt_lt
  have hrows := call.numRows.toInt_lt
  have hpx : place a.anchor.x x = k.x := by
    rw [place_of_lt (by omega)]
    omega
  have hpy : place a.anchor.y y = k.y := by
    rw [place_of_lt (by omega)]
    omega
  refine ⟨x, y, ⟨hc, ?_, by omega, by omega, hmask, hpx ▸ hcol, hpy ▸ hrow⟩, ?_⟩
  · rw [← hx, ← hy]
    exact hext
  · rw [cellOf, hpx, hpy, ← hbatch]

theorem copied_eq (hcheck : check maxNumErasingArea call = none) :
    (infer maxGridZ maxNumErasingArea cast call values input output).copied =
      if call.inplace then input else fun k => if call.Element k then input k else output k := by
  unfold infer
  rw [hcheck]
  dsimp only
  generalize (if call.inplace then input else fun k => if call.Element k then input k else output k)
    = copied
  split_ifs with hlen hzero
  · rfl
  · rfl
  · rfl

theorem leaves_stores {r : Result V} : r.Leaves (store r.stores r.copied) :=
  ⟨r.stores, .refl _, rfl⟩

theorem stores_congr (hcheck : check maxNumErasingArea call = none) (input' output' : Cell → V) :
    (infer maxGridZ maxNumErasingArea cast call values input output).stores =
      (infer maxGridZ maxNumErasingArea cast call values input' output').stores := by
  unfold infer
  rw [hcheck]
  dsimp only
  split_ifs
  all_goals rfl

/-- A store to an element comes from an area that asks for it. -/
theorem target_of_mem_stores (hcheck : check maxNumErasingArea call = none) (hv : Valid call)
    {s : Cell × V}
    (hs : s ∈ (infer maxGridZ maxNumErasingArea cast call values input output).stores)
    (hx : 0 ≤ s.1.x) (hy : 0 ≤ s.1.y) :
    ∃ (i : Nat) (a : Area) (x y c : Nat), call.areas[i]? = some a ∧ Target call a s.1 ∧
      Reached call (call.extent maxGridZ) a x y c ∧ s = storeOf cast call values i a x y c := by
  obtain ⟨i, a, x, y, c, ha, hr, rfl⟩ := (mem_stores hcheck hv).1 hs
  exact ⟨i, a, x, y, c, ha, target_of_reached hv (List.mem_of_getElem? ha) hr hx hy, hr, rfl⟩

theorem covered_of_erases [Nontrivial V] (hcheck : check maxNumErasingArea call = none)
    (hv : Valid call)
    (h : ∀ input output m,
      (infer maxGridZ maxNumErasingArea cast call values input output).Leaves m →
        Erases cast call values input output m) : Covered call (call.extent maxGridZ) := by
  intro a ha k ht
  obtain ⟨i, hi⟩ := List.mem_iff_getElem?.1 ha
  obtain ⟨v, hne⟩ := exists_ne (cast.ofFloat (values (i * call.numChannels + k.c)))
  -- an element that held another value is stored to
  have hm := (h (fun _ => v) (fun _ => v) _ leaves_stores).erased i a k hi ht
  obtain ⟨s, hs, hsk⟩ : ∃ s ∈ (infer maxGridZ maxNumErasingArea cast call values (fun _ => v)
      fun _ => v).stores, s.1 = k := by
    by_contra hnone
    rw [store_of_notMem fun s hs hk => hnone ⟨s, hs, hk⟩, copied_eq hcheck] at hm
    split_ifs at hm
    · exact hne hm
    · exact hne (by simpa using hm)
  obtain ⟨-, ⟨hy0, -⟩, ⟨hx0, -⟩, -⟩ := ht.element
  obtain ⟨j, b, x, y, c, hj, htarget, hr, rfl⟩ :=
    target_of_mem_stores hcheck hv hs (hsk ▸ hx0) (hsk ▸ hy0)
  subst hsk
  -- which only its own area does
  obtain rfl := hv.disjoint i j a b _ hi hj ht htarget
  obtain rfl : a = b := Option.some.inj (hi.symm.trans hj)
  obtain ⟨-, hext, hp⟩ := hr
  have hx := place_of_nonneg (by have := hp.x_lt; have := a.erasing.x.toInt_lt; omega) hx0
  have hy := place_of_nonneg (by have := hp.y_lt; have := a.erasing.y.toInt_lt; omega) hy0
  have hkx : (storeOf cast call values i a x y c).1.x - a.anchor.x.toInt = x := by
    change place a.anchor.x x - _ = _
    omega
  have hky : (storeOf cast call values i a x y c).1.y - a.anchor.y.toInt = y := by
    change place a.anchor.y y - _ = _
    omega
  rw [hkx, hky]
  exact hext

theorem inside_of_erases [Nontrivial V] (hcheck : check maxNumErasingArea call = none)
    (hv : Valid call)
    (h : ∀ input output m,
      (infer maxGridZ maxNumErasingArea cast call values input output).Leaves m →
        Erases cast call values input output m) : Inside call (call.extent maxGridZ) := by
  intro a ha x y c hr
  by_contra hout
  have hbeside : ¬call.Element (cellOf a x y c) := fun hel => hout ⟨hel.2.2.1.1, hel.2.1.1⟩
  obtain ⟨i, hi⟩ := List.mem_iff_getElem?.1 ha
  obtain ⟨v, w, hne⟩ := exists_pair_ne V
  have hmem : storeOf cast call values i a x y c ∈
      (infer maxGridZ maxNumErasingArea cast call values (fun _ => v) fun _ => v).stores :=
    (mem_stores hcheck hv).2 ⟨i, a, x, y, c, hi, hr, rfl⟩
  have hv' := (h (fun _ => v) (fun _ => v) _ leaves_stores).beside _ hbeside
  have hw' := (h (fun _ => w) (fun _ => w) _ leaves_stores).beside _ hbeside
  -- what is stored beside the image does not depend on what was there
  rw [stores_congr hcheck (fun _ => v) fun _ => v, ite_self] at hw'
  rw [ite_self] at hv'
  exact hne (hv'.symm.trans ((store_congr ⟨_, hmem, rfl⟩ _ _).trans hw'))

theorem erases_of_covered (hcheck : check maxNumErasingArea call = none) (hv : Valid call)
    (hcov : Covered call (call.extent maxGridZ)) (hin : Inside call (call.extent maxGridZ))
    {m : Cell → V}
    (h : (infer maxGridZ maxNumErasingArea cast call values input output).Leaves m) :
    Erases cast call values input output m := by
  obtain ⟨order, hperm, rfl⟩ := h
  have hstored : ∀ s ∈ order, ∃ (i : Nat) (a : Area) (x y c : Nat), call.areas[i]? = some a ∧
      Target call a s.1 ∧ s = storeOf cast call values i a x y c := by
    intro s hs
    obtain ⟨i, a, x, y, c, ha, hr, rfl⟩ := (mem_stores hcheck hv).1 (hperm.mem_iff.1 hs)
    have hmem := List.mem_of_getElem? ha
    obtain ⟨hx, hy⟩ := hin a hmem x y c hr
    exact ⟨i, a, x, y, c, ha, target_of_reached hv hmem hr hx hy, rfl⟩
  constructor
  · intro i a k ha ht
    obtain ⟨x, y, hr, hk⟩ := reached_of_target ht (hcov a (List.mem_of_getElem? ha) k ht)
    refine store_of_mem ⟨storeOf cast call values i a x y k.c, ?_, hk⟩ ?_ _
    · exact hperm.mem_iff.2 ((mem_stores hcheck hv).2 ⟨i, a, x, y, k.c, ha, hr, rfl⟩)
    · intro s hs hsk
      obtain ⟨j, b, x, y, c, hb, htarget, rfl⟩ := hstored s hs
      subst hsk
      obtain rfl := hv.disjoint i j a b _ ha hb ht htarget
      rfl
  · intro k hk hnone
    rw [store_of_notMem ?_, copied_eq hcheck]
    · split_ifs
      · rfl
      · exact if_pos hk
    · intro s hs hsk
      obtain ⟨i, a, x, y, c, ha, htarget, rfl⟩ := hstored s hs
      exact hnone a (List.mem_of_getElem? ha) (hsk ▸ htarget)
  · intro k hk
    rw [store_of_notMem ?_, copied_eq hcheck]
    · split_ifs
      · rfl
      · exact if_neg hk
    · intro s hs hsk
      obtain ⟨i, a, x, y, c, ha, htarget, rfl⟩ := hstored s hs
      exact hk (hsk ▸ htarget.element)

/-! ## Where they are -/

theorem le_foldl_maxWH (l : List Int3) (e : Int3) :
    (e.x.toInt ≤ (l.foldl maxWH e).x.toInt ∧ e.y.toInt ≤ (l.foldl maxWH e).y.toInt) ∧
      ∀ d ∈ l, d.x.toInt ≤ (l.foldl maxWH e).x.toInt ∧ d.y.toInt ≤ (l.foldl maxWH e).y.toInt := by
  induction l generalizing e with
  | nil => exact ⟨⟨le_rfl, le_rfl⟩, fun d hd => by cases hd⟩
  | cons d l ih =>
    rw [List.foldl_cons]
    obtain ⟨⟨hx, hy⟩, hmem⟩ := ih (maxWH e d)
    have hmx : (maxWH e d).x.toInt = max e.x.toInt d.x.toInt := Int32.toInt_max _ _
    have hmy : (maxWH e d).y.toInt = max e.y.toInt d.y.toInt := Int32.toInt_max _ _
    refine ⟨⟨by omega, by omega⟩, ?_⟩
    intro d' hd'
    rcases List.mem_cons.1 hd' with rfl | hd'
    · exact ⟨by omega, by omega⟩
    · exact hmem d' hd'

/-- Up to where `float` is exact there is a thread for each place. -/
theorem le_extent {maxEh maxEw : Int32} (h0 : 0 ≤ maxEh.toInt * maxEw.toInt)
    (h : maxEh.toInt * maxEw.toInt ≤ 2 ^ 24) :
    maxEh.toInt * maxEw.toInt ≤ extent maxEh maxEw := by
  unfold extent
  dsimp only
  rw [Int.bmod_eq_of_le (by omega) (by omega)]
  obtain ⟨n, hn⟩ := Int.eq_ofNat_of_zero_le h0
  rw [hn] at h ⊢
  split_ifs with hpos
  · have hle := le_divUp_mul (a := n) (b := 1024) (by omega) (by norm_num) (by norm_num)
    rw [Int.toNat_natCast]
    rcases Nat.le_total n 1024 with hsmall | hbig
    · -- one block, of the size
      rw [Nat.min_eq_left hsmall]
      have hone : 1 ≤ divUp n 1024 := by omega
      exact_mod_cast Nat.le_mul_of_pos_left n hone
    · rw [Nat.min_eq_right hbig]
      exact_mod_cast hle
  · push_cast
    omega

/-- There are threads for all areas if the largest height times the largest width is small. -/
theorem covered_of_le (hv : Valid call) (hlen : call.areas.length ≤ maxGridZ)
    (h : call.maxValues.y.toInt * call.maxValues.x.toInt ≤ 2 ^ 24) :
    Covered call (call.extent maxGridZ) := by
  intro a ha k ht
  obtain ⟨⟨hx0, hy0⟩, hmem⟩ := le_foldl_maxWH (call.areas.map Area.erasing) ⟨0, 0, 0⟩
  obtain ⟨hx, hy⟩ := hmem a.erasing (List.mem_map_of_mem ha)
  have hext : call.maxValues.y.toInt * call.maxValues.x.toInt ≤ call.extent maxGridZ := by
    unfold Call.extent
    rw [if_pos hlen]
    exact le_extent (Int.mul_nonneg hy0 hx0) h
  refine lt_of_lt_of_le ?_ hext
  have hxlt := ht.x_lt
  have hrow : (k.y - a.anchor.y.toInt + 1) * a.erasing.x.toInt ≤
      a.erasing.y.toInt * a.erasing.x.toInt :=
    Int.mul_le_mul_of_nonneg_right (by have := ht.y_lt; omega) (hv.width a ha)
  have harea : a.erasing.y.toInt * a.erasing.x.toInt ≤
      call.maxValues.y.toInt * call.maxValues.x.toInt :=
    Int.mul_le_mul hy hx (hv.width a ha) hy0
  rw [add_mul, one_mul] at hrow
  omega

/-- No thread is before an image if no anchor is, and no area ends past the last `int`. -/
theorem inside_of_nonneg {ext : Nat}
    (hx : ∀ a ∈ call.areas, 0 ≤ a.anchor.x.toInt ∧
      a.anchor.x.toInt + a.erasing.x.toInt ≤ 2 ^ 31)
    (hy : ∀ a ∈ call.areas, 0 ≤ a.anchor.y.toInt ∧
      a.anchor.y.toInt + a.erasing.y.toInt ≤ 2 ^ 31) : Inside call ext := by
  rintro a ha x y c ⟨-, -, hp⟩
  obtain ⟨hx0, hxend⟩ := hx a ha
  obtain ⟨hy0, hyend⟩ := hy a ha
  have hxlt := hp.x_lt
  have hylt := hp.y_lt
  rw [place_of_lt (by omega), place_of_lt (by omega)]
  exact ⟨by omega, by omega⟩

/-- Areas of different images have no element in common. -/
theorem disjoint_of_nodup (h : (call.areas.map Area.imgIdx).Nodup) {i j : Nat} {b : Area}
    (hi : call.areas[i]? = some a) (hj : call.areas[j]? = some b) (ha : Target call a k)
    (hb : Target call b k) : i = j := by
  have himg : a.imgIdx = b.imgIdx := Int32.toInt_inj.1 (ha.batch.symm.trans hb.batch)
  obtain ⟨hilt, -⟩ := List.getElem?_eq_some_iff.1 hi
  refine (List.getElem?_inj (by rwa [List.length_map]) h).1 ?_
  rw [List.getElem?_map, List.getElem?_map, hi, hj, Option.map_some, Option.map_some, himg]

/-! ## Exactness -/

/-- What is erased are the elements asked for if and only if each of them has a thread, and no
thread ends up before the first row or column. -/
theorem infer_erases_iff [Nontrivial V] (hcheck : check maxNumErasingArea call = none)
    (hv : Valid call) :
    (∀ input output m, (infer maxGridZ maxNumErasingArea cast call values input output).Leaves m →
        Erases cast call values input output m) ↔
      Covered call (call.extent maxGridZ) ∧ Inside call (call.extent maxGridZ) := by
  constructor
  · intro h
    exact ⟨covered_of_erases hcheck hv h, inside_of_erases hcheck hv h⟩
  · rintro ⟨hcov, hin⟩ input output m hm
    exact erases_of_covered hcheck hv hcov hin hm

/-- Areas on two images of one channel, 2 by 2, of which one ends past its image. -/
def twoAreas : Call where
  format := .nhwc
  outFormat := .nhwc
  dataType := .cv8U
  outDataType := .cv8U
  anchor := ⟨.cv32S, 1⟩
  erasing := ⟨.cv32S, 1⟩
  imgIdx := ⟨.cv32S, 1⟩
  values := ⟨.cv32F, 1⟩
  areas := [⟨⟨0, 0⟩, ⟨2, 1, 1⟩, 0⟩, ⟨⟨1, 0⟩, ⟨2, 2, 1⟩, 1⟩]
  numSamples := 2
  numRows := 2
  numCols := 2
  numChannels := 1
  random := false
  seed := 0
  inplace := false

/-- To 8 bits, where a `float` holds an integer. -/
def toUchar : SaturateCast ℤ ℤ := ⟨fun v => max 0 (min 255 v), fun v => max 0 (min 255 v.toInt)⟩

theorem valid_twoAreas : Valid twoAreas where
  random := rfl
  numChannels := by decide
  imgIdx := by decide
  width := by decide
  height := by decide
  size := by decide
  disjoint := by
    intro i j a b k hi hj ha hb
    exact disjoint_of_nodup (by decide) hi hj ha hb

theorem infer_erases_iff_twoAreas : Valid twoAreas ∧
    ∀ input output m,
      (infer 65535 2 toUchar twoAreas (fun i => 200 + 100 * i) input output).Leaves m →
        Erases toUchar twoAreas (fun i => 200 + 100 * i) input output m :=
  ⟨valid_twoAreas, (infer_erases_iff (by decide) valid_twoAreas).2
    ⟨covered_of_le valid_twoAreas (by decide) (by decide),
      inside_of_nonneg (by decide) (by decide)⟩⟩

/-- An area of 2 by 1 at the anchor `(-1, 0)`. -/
def beforeImage : Call := { twoAreas with areas := [⟨⟨-1, 0⟩, ⟨2, 1, 1⟩, 0⟩] }

theorem valid_beforeImage : Valid beforeImage where
  random := rfl
  numChannels := by decide
  imgIdx := by decide
  width := by decide
  height := by decide
  size := by decide
  disjoint := by
    intro i j a b k hi hj ha hb
    exact disjoint_of_nodup (by decide) hi hj ha hb

/-- What lies before the first element of an image is overwritten. -/
theorem infer_erases_beside : check 1 beforeImage = none ∧ Valid beforeImage ∧
    ¬∀ input output m, (infer 65535 1 toUchar beforeImage (fun _ => 7) input output).Leaves m →
      Erases toUchar beforeImage (fun _ => 7) input output m := by
  refine ⟨by decide, valid_beforeImage, fun h => ?_⟩
  have hin := inside_of_erases (by decide) valid_beforeImage h
  have hext : 0 < beforeImage.extent 65535 := by
    have hle : (1 : Int32).toInt * (2 : Int32).toInt ≤ extent 1 2 :=
      le_extent (by decide) (by decide)
    exact_mod_cast lt_of_lt_of_le (by decide : (0 : ℤ) < 1 * 2) hle
  -- the thread of the first place has the column before the first
  have hreached : Reached beforeImage (beforeImage.extent 65535)
      ⟨⟨-1, 0⟩, ⟨2, 1, 1⟩, 0⟩ 0 0 0 := by
    refine ⟨by decide, ?_, ?_⟩
    · rw [Nat.cast_zero, zero_mul, zero_add]
      exact_mod_cast hext
    · constructor
      all_goals decide
  exact absurd (hin _ List.mem_cons_self 0 0 0 hreached).1 (by decide)

end Cvcuda.Erase
