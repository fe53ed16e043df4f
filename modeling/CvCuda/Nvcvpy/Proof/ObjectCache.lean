import Mathlib
import CvCuda.Nvcv.Proof.ImageRequirements
import CvCuda.Nvcvpy.ObjectCache

/-! # What objects from the cache are like

* `Laid`: the row strides of an object allocated for a call. `Asked`: what a call asks of them.
* `mem_rowStrides_iff`, `asked_of_laid`: an object has the row strides of the call it was allocated
  for, and these are as that call asks.
* `create_honours_iff`: a call returns what it asks for exactly when the object it finds, if any,
  was allocated for a call with row strides that suit.
* `run_honours_iff`: so it is in every run. `create_dishonours`: a row alignment that is lost.
-/

namespace Nvcvpy.ObjectCache

open Nvcv Outcome

variable {dev : Device}

/-! ## Row strides -/

/-- The row strides of an object: of each plane, or of the dimension above the packed ones. -/
def Obj.rowStrides : Obj dev → List ℤ
  | .image _ _ _ _ reqs _ => (List.range reqs.format.numPlanes).map fun p =>
      (reqs.planeRowStride.toList.getD p 0).toInt
  | .tensor _ _ _ _ _ reqs _ =>
      if 0 < firstPacked reqs.layout reqs.rank then
        [reqs.dimStrides.getD (firstPacked reqs.layout reqs.rank - 1) 0]
      else []

variable (dev) in
/-- A row stride of what is allocated for a call. -/
def Laid (x : ℤ) : Request → Prop
  | .image size fmt rowAlign => ∃ r : Int32, Image.RowAlign dev rowAlign r.toInt ∧
      ∃ p < fmt.numPlanes, x = (Image.rowStrideWord size fmt r p).toInt
  | .tensor shape dtype layout rowalign => ∃ a : ℕ, RowAlign dev dtype rowalign a ∧
      0 < firstPacked layout shape.length ∧
      x = stride dtype.strideBytes.toInt (firstPacked layout shape.length) a
        (firstPacked layout shape.length - 1)
        ((shape.map Int64.toInt).drop (firstPacked layout shape.length - 1))

variable (dev) in
/-- A row stride that is as a call asks: a multiple of its row alignment, or of the default. -/
def Asked (x : ℤ) : Request → Prop
  | .image _ _ rowAlign =>
      if rowAlign = 0 then ∀ p, dev.texturePitchAlignment = .ok p → p.toInt ∣ x
      else rowAlign.toInt ∣ x
  | .tensor _ dtype _ rowalign =>
      if rowalign = 0 then ∀ a : ℕ, RowAlign dev dtype 0 a → (a : ℤ) ∣ x
      else rowalign.toInt ∣ x

/-- The size, format and type that a call asks for. -/
def Obj.Fits : Obj dev → Request → Prop
  | .image _ _ _ _ reqs _, .image size fmt _ =>
      reqs.width = size.w ∧ reqs.height = size.h ∧ reqs.format = fmt
  | .tensor _ _ _ _ _ reqs _, .tensor shape dtype layout _ =>
      reqs.shape.toList.take reqs.rank = shape ∧ reqs.dtype = dtype ∧
        reqs.layout.labels = layout.labels
  | _, _ => False

/-- The call returns what it asks for, or throws. -/
def Honours (q : Request) : Result dev → Prop
  | .returned o => o.Fits q ∧ ∀ x ∈ o.rowStrides, Asked dev x q
  | .thrown => True
  | .undefined => False

variable {size : Size2D} {fmt : ImageFormat} {rowAlign : Int32}

/-- What is allocated for an image. -/
theorem image_spec {reqs : ImageRequirements}
    (h : Returns (imageRequirements dev size fmt rowAlign) reqs) :
    (reqs.width = size.w ∧ reqs.height = size.h ∧ reqs.format = fmt) ∧
      ∃ r : Int32, Image.RowAlign dev rowAlign r.toInt ∧
        (0 < fmt.numPlanes → ∃ k < 31, r.toInt = 2 ^ k) ∧
        ∀ p < fmt.numPlanes,
          reqs.planeRowStride.toList.getD p 0 = Image.rowStrideWord size fmt r p := by
  obtain ⟨r, t, b, hr, -, hlcm, hadd⟩ := Image.returns_calcRequirements h
  rcases Nat.eq_zero_or_pos fmt.numPlanes with h0 | hpos
  · rw [h0] at hadd
    obtain rfl := returns_pure.1 hadd
    exact ⟨⟨rfl, rfl, rfl⟩, r, hr, fun hp => absurd hp (by omega), fun p hp => absurd hp (by omega)⟩
  · have hcons : List.range fmt.numPlanes = 0 :: (List.range (fmt.numPlanes - 1)).map Nat.succ := by
      rw [← List.range_succ_eq_map, Nat.sub_add_cancel hpos]
    obtain ⟨k, hk, hrk⟩ := (Image.align_pow2 hr hlcm (hcons ▸ hadd)).1
    have hplanned := (Image.addPlanes_spec hk hrk hadd).1
    refine ⟨⟨hplanned.width, hplanned.height, hplanned.format⟩, r, hr, fun _ => ⟨k, hk, hrk⟩,
      fun p hp => hplanned.stride p (List.mem_range.2 hp) (Image.numPlanes_lt hp)⟩

/-- A row stride that is rounded up and narrowed is a multiple of the alignment. -/
theorem dvd_rowStrideWord {r : Int32} {k : ℕ} (hk : k < 31) (hr : r.toInt = 2 ^ k) (p : ℕ) :
    r.toInt ∣ (Image.rowStrideWord size fmt r p).toInt := by
  have h32 : r.toInt ∣ ((2 ^ 32 : ℕ) : ℤ) := by
    rw [hr]
    exact_mod_cast pow_dvd_pow (2 : ℤ) (by omega : k ≤ 32)
  have hd : r.toInt ∣ fmt.rowStride size r.toInt p := Int.dvd_mul_left _ _
  rw [Image.rowStrideWord, Int32.toInt_ofInt]
  have hb := h32.trans (Int.dvd_bmod_sub_self (x := fmt.rowStride size r.toInt p) (m := 2 ^ 32))
  exact (dvd_sub_left hd).1 hb

variable {shape : List Int64} {dtype : DataType} {layout : TensorLayout} {rowalign : Int32}

theorem firstPacked_le (layout : TensorLayout) (rank : ℕ) : firstPacked layout rank ≤ rank - 1 := by
  unfold firstPacked
  split_ifs <;> omega

/-- What is allocated for a tensor. -/
theorem tensor_spec {reqs : TensorRequirements}
    (h : Returns (tensorRequirements dev shape dtype layout rowalign) reqs) :
    (reqs.shape.toList.take reqs.rank = shape ∧ reqs.dtype = dtype ∧ reqs.layout = layout ∧
      reqs.rank = shape.length) ∧
      ∃ a : ℕ, RowAlign dev dtype rowalign a ∧ reqs.Sufficient a := by
  obtain ⟨hlen, h⟩ := returns_refuse_bind.1 h
  obtain ⟨-, h⟩ := returns_refuse_bind.1 h
  obtain ⟨hdtype, hlayout, hdims, hsuff⟩ := calcRequirements_returns h
  have hrank : (Int32.ofNat shape.length).toInt.toNat = shape.length := by
    unfold tensorMaxRank at hlen
    rw [Int32.toInt_ofNat_of_lt (by omega), Int.toNat_natCast]
  have htarget : targetShape (.ofNat shape.length) (shape.getD · 0) = shape := by
    rw [targetShape, hrank]
    exact List.ext_getElem (by simp) fun i h₁ h₂ => by simp [h₂]
  rw [htarget] at hdims
  have hshape : reqs.shape.toList.take reqs.rank = shape :=
    List.map_injective_iff.2 (fun _ _ he => Int64.toInt.inj he) hdims
  have hreqs : reqs.rank = shape.length := by
    have hle := reqs.rank_le
    rw [← hshape, List.length_take, Vector.length_toList]
    omega
  obtain ⟨a, ha⟩ := exists_rowAlign h
  exact ⟨⟨hshape, hdtype, hlayout, hreqs⟩, a, ha, hsuff a ha⟩

/-- **The row strides of an object** are those of the call that it was allocated for. -/
theorem mem_rowStrides_iff (o : Obj dev) {x : ℤ} : x ∈ o.rowStrides ↔ Laid dev x o.request := by
  cases o with
  | image id size fmt rowAlign reqs alloc =>
    obtain ⟨⟨-, -, hfmt⟩, r, hr, -, hstride⟩ := image_spec alloc
    simp only [Obj.rowStrides, Obj.request, Laid, List.mem_map, List.mem_range, hfmt]
    constructor
    · rintro ⟨p, hp, rfl⟩
      exact ⟨r, hr, p, hp, by rw [hstride p hp]⟩
    · rintro ⟨r', hr', p, hp, rfl⟩
      obtain rfl := hr.unique hr'
      exact ⟨p, hp, by rw [hstride p hp]⟩
  | tensor id shape dtype layout rowalign reqs alloc =>
    obtain ⟨⟨hshape, hdtype, hlayout, hrank⟩, a, ha, hsuff⟩ := tensor_spec alloc
    have hle := firstPacked_le layout shape.length
    simp only [Obj.rowStrides, Obj.request, Laid, hlayout, hrank]
    by_cases hfp : 0 < firstPacked layout shape.length
    · have hexact := hsuff.exact (firstPacked layout shape.length - 1) (by omega)
      rw [hlayout, hrank, TensorRequirements.elemSize, hdtype, TensorRequirements.dims, hshape]
        at hexact
      rw [if_pos hfp, List.mem_singleton, hexact]
      constructor
      · rintro rfl
        exact ⟨a, ha, hfp, rfl⟩
      · rintro ⟨a', ha', -, rfl⟩
        rw [ha.unique ha']
    · rw [if_neg hfp]
      refine iff_of_false List.not_mem_nil ?_
      rintro ⟨_, _, hpos, _⟩
      exact hfp hpos

/-- **What is allocated for a call** has row strides as the call asks. -/
theorem asked_of_laid (o : Obj dev) {x : ℤ} (hx : Laid dev x o.request) :
    Asked dev x o.request := by
  cases o with
  | image id size fmt rowAlign reqs alloc =>
    obtain ⟨-, r, hr, hpow, -⟩ := image_spec alloc
    obtain ⟨r', hr', p, hp, rfl⟩ := hx
    obtain rfl := hr.unique hr'
    obtain ⟨k, hk, hrk⟩ := hpow (by omega)
    have hdvd := @dvd_rowStrideWord size fmt _ _ hk hrk p
    unfold Image.RowAlign at hr
    unfold Asked Obj.request
    simp only
    split_ifs at hr ⊢ with h0
    · obtain ⟨q, hq, he⟩ := hr
      intro q' hq'
      rw [hq] at hq'
      rw [← Except.ok.inj hq', ← he]
      exact hdvd
    · rw [← hr.2]
      exact hdvd
  | tensor id shape dtype layout rowalign reqs alloc =>
    obtain ⟨a, ha, hfp, rfl⟩ := hx
    have hle := firstPacked_le layout shape.length
    have hdvd : (a : ℤ) ∣ stride dtype.strideBytes.toInt (firstPacked layout shape.length) a
        (firstPacked layout shape.length - 1)
        ((shape.map Int64.toInt).drop (firstPacked layout shape.length - 1)) := by
      refine dvd_stride (by omega) ?_
      rw [List.length_drop, List.length_map]
      omega
    unfold Asked Obj.request
    simp only
    split_ifs with h0
    · intro a' ha'
      rw [h0] at ha
      rwa [ha'.unique ha]
    · refine dvd_trans ?_ hdvd
      unfold RowAlign at ha
      rw [if_neg h0] at ha
      obtain ⟨-, b, -, rfl⟩ := ha
      exact Int.dvd_lcm_left _ _

/-! ## Objects found in the cache -/

theorem fits_image {o : Obj dev} (h : o.key = .image size fmt) : o.Fits (.image size fmt rowAlign) := by
  cases o with
  | image id size' fmt' rowAlign' reqs alloc =>
    obtain ⟨rfl, rfl⟩ := Key.image.inj h
    exact (image_spec alloc).1
  | tensor id shape dtype layout rowalign reqs alloc => cases h

theorem fits_tensor {o : Obj dev} {reqs : TensorRequirements}
    (alloc : Returns (tensorRequirements dev shape dtype layout rowalign) reqs)
    (h : o.key = tensorKey reqs) : o.Fits (.tensor shape dtype layout rowalign) := by
  obtain ⟨⟨hshape, hdtype, hlayout, -⟩, -⟩ := tensor_spec alloc
  cases o with
  | image id size fmt rowAlign reqs alloc => cases h
  | tensor id shape' dtype' layout' rowalign' reqs' alloc' =>
    obtain ⟨h1, h2, h3⟩ := Key.tensor.inj h
    exact ⟨h1.trans hshape, h3.trans hdtype, h2.trans (by rw [hlayout])⟩

/-- An object that is fetched has the key. -/
theorem key_of_fetch {s : State dev} {c : Thread} {key : Key} {o : Obj dev} {os : List (Obj dev)}
    (h : s.fetch c key = o :: os) : o.key = key := by
  have hmem : o ∈ s.fetch c key := by
    rw [h]
    exact List.mem_cons_self
  have hp := List.of_mem_filter hmem
  exact (of_decide_eq_true hp).1

variable (dev) in
/-- The rows of what is allocated for one call are as another asks. -/
def Suits (q₀ q : Request) : Prop := ∀ x, Laid dev x q₀ → Asked dev x q

/-- An object honours a call that it fits when its own call suits. -/
theorem honours_iff {o : Obj dev} {q : Request} (h : o.Fits q) :
    Honours q (.returned o) ↔ Suits dev o.request q := by
  constructor
  · rintro ⟨-, hx⟩ x hl
    exact hx x ((mem_rowStrides_iff o).2 hl)
  · intro hs
    exact ⟨h, fun x hx => hs x ((mem_rowStrides_iff o).1 hx)⟩

/-- **Calls that are honoured**: their requirements are computed where they are used, and the
object they find, if any, was allocated for a call that suits. -/
def Sound (s : State dev) (c : Thread) : Request → Prop
  | .image size fmt rowAlign =>
      (s.fetch c (.image size fmt) = [] →
        ∃ reqs, Returns (imageRequirements dev size fmt rowAlign) reqs) ∧
      ∀ o os, s.fetch c (.image size fmt) = o :: os →
        Suits dev o.request (.image size fmt rowAlign)
  | .tensor shape dtype layout rowalign =>
      Defined (tensorRequirements dev shape dtype layout rowalign) ∧
      ∀ reqs, Returns (tensorRequirements dev shape dtype layout rowalign) reqs →
        ∀ o os, s.fetch c (tensorKey reqs) = o :: os →
          Suits dev o.request (.tensor shape dtype layout rowalign)

/-- **One call** is honoured exactly when it is sound. -/
theorem create_honours_iff {s s' : State dev} {c : Thread} {q : Request} {r : Result dev}
    (h : Create s c q r s') : Honours q r ↔ Sound s c q := by
  cases h with
  | @reuseImage size fmt rowAlign o os h =>
    rw [honours_iff (fits_image (key_of_fetch h))]
    constructor
    · intro hs
      refine ⟨fun hn => ?_, fun o' os' ho => ?_⟩
      · rw [h] at hn
        cases hn
      · rw [h] at ho
        cases ho
        exact hs
    · exact fun hs => hs.2 o os h
  | newImage h alloc kept =>
    rw [honours_iff (fits_image rfl)]
    refine iff_of_true (fun x hx => asked_of_laid _ hx) ⟨fun _ => ⟨_, alloc⟩, fun o os ho => ?_⟩
    rw [h] at ho
    cases ho
  | noImage h alloc =>
    refine iff_of_true trivial ⟨fun _ => ⟨_, alloc⟩, fun o os ho => ?_⟩
    rw [h] at ho
    cases ho
  | undefinedImage h refused =>
    refine iff_of_false id fun hs => ?_
    obtain ⟨reqs, hr⟩ := hs.1 h
    exact refused reqs hr
  | @reuseTensor shape dtype layout rowalign reqs o os alloc h =>
    rw [honours_iff (fits_tensor alloc (key_of_fetch h))]
    constructor
    · intro hs
      refine ⟨alloc.defined, fun reqs' hr o' os' ho => ?_⟩
      obtain rfl := alloc.unique hr
      rw [h] at ho
      cases ho
      exact hs
    · exact fun hs => hs.2 reqs alloc o os h
  | newTensor alloc h kept =>
    rw [honours_iff (fits_tensor alloc rfl)]
    refine iff_of_true (fun x hx => asked_of_laid _ hx) ⟨alloc.defined, fun reqs' hr o os ho => ?_⟩
    obtain rfl := alloc.unique hr
    rw [h] at ho
    cases ho
  | noTensor alloc h =>
    refine iff_of_true trivial ⟨alloc.defined, fun reqs' hr o os ho => ?_⟩
    obtain rfl := alloc.unique hr
    rw [h] at ho
    cases ho
  | refusedTensor h =>
    refine iff_of_true trivial ⟨defined_iff.2 (.inl h), fun reqs hr => ?_⟩
    obtain ⟨e, he⟩ := h
    cases he.symm.trans hr
  | undefinedTensor h => exact iff_of_false id fun hs => h hs.1

/-! ## Runs -/

/-- A call of a run is honoured. -/
def Op.Honoured : Op dev → Prop
  | .create _ q r => Honours q r
  | .createHost .. | .release _ | .forget _ => True

/-- A call of a run is sound. -/
def Op.Sound (s : State dev) : Op dev → Prop
  | .create c q _ => ObjectCache.Sound s c q
  | .createHost .. | .release _ | .forget _ => True

theorem step_honours_iff {s s' : State dev} {op : Op dev} (h : Step s op s') :
    op.Honoured ↔ op.Sound s := by
  cases h with
  | create h => exact create_honours_iff h
  | createHost c alloc kept => exact Iff.rfl
  | release id => exact Iff.rfl
  | forget c h => exact Iff.rfl

/-- **Objects honour the calls that return them**, in a run whose calls are sound, and in no
other. -/
theorem run_honours_iff {ops : List (Op dev)} {s : State dev} :
    Run (fun s op s' => Step s op s' ∧ op.Honoured) (initial dev) ops s ↔
      Run (fun s op s' => Step s op s' ∧ op.Sound s) (initial dev) ops s := by
  constructor
  · exact Run.mono fun s op s' h => ⟨h.1, (step_honours_iff h.1).1 h.2⟩
  · exact Run.mono fun s op s' h => ⟨h.1, (step_honours_iff h.1).2 h.2⟩

/-! ## A row alignment that is lost -/

/-- `NVCV_IMAGE_FORMAT_U8`, an image of one row of three of its pixels. -/
def u8Image (rowAlign : Int32) : Request := .image ⟨3, 1⟩ u8 rowAlign

/-- Its requirements with rows of three bytes. -/
def u8Reqs : ImageRequirements where
  width := 3
  height := 1
  format := u8
  planeRowStride := #v[3, 0, 0, 0, 0, 0]
  alignBytes := 512
  cudaMem := .set (.replicate _ 0) 9 1 Image.log2_512_lt

theorem u8_alloc : Returns (imageRequirements device ⟨3, 1⟩ u8 1) u8Reqs := by decide +kernel

def u8Obj : Obj device := .image 0 ⟨3, 1⟩ u8 1 u8Reqs u8_alloc

/-- An image with packed rows is released and found by a call that asks for rows of 64 bytes. -/
theorem create_dishonours : ∃ s, Run Step (initial device)
    [.create 0 (u8Image 1) (.returned u8Obj), .release 0,
      .create 0 (u8Image 64) (.returned u8Obj)] s ∧
    ¬Honours (u8Image 64) (.returned u8Obj) := by
  refine ⟨_, .cons (.create (.newImage rfl u8_alloc true)) (.cons (.release _ 0)
    (.cons (.create (@Create.reuseImage _ _ _ _ _ _ _ [] ?_)) (.nil _))), fun h => ?_⟩
  · simp [State.fetch, State.add, initial, u8Obj, Obj.key, Obj.id]
  · have h3 := h.2 3 (by simp [u8Obj, Obj.rowStrides]; decide +kernel)
    simp [Asked, u8Image] at h3

end Nvcvpy.ObjectCache
