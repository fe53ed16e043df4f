import CvCuda.Cvcuda.Workspace

/-! # The estimate covers the allocation sequence

* `estimate_size`: on requests whose padded total fits in a word, the estimator's size is
  `paddedSize`, the sum over the naturals; `estimate_alignment`: its alignment is a multiple of
  every requested one.
* `take_spec`: one allocation within the size returns the base plus the offset rounded up.
* `getAll_spec`: by induction on the sequence, from any offset up to the estimator's: no call
  throws, and the pointers are consecutive.
* `getAll_covered`: the three together, over the region the estimate asks for.
-/

namespace Cvcuda

open Nvcv Rounding

/-! ## The sizes over the naturals -/

/-- The bytes of the requested elements. -/
def Request.bytes (r : Request) : Nat := r.count.toNat * r.sizeofT.toNat

/-- The offset after a request made at offset `s`. -/
def Request.padded (r : Request) (s : Nat) : Nat :=
  roundUp s r.alignment.toNat + roundUp r.bytes r.alignment.toNat

/-- The total size of a sequence of requests from `s`, alignment padding included. -/
def paddedSize : Nat → List Request → Nat
  | s, [] => s
  | s, r :: rs => paddedSize (r.padded s) rs

theorem Request.padded_mono (r : Request) {s t : Nat} (h : s ≤ t) : r.padded s ≤ r.padded t :=
  Nat.add_le_add_right (roundUp_mono _ h) _

theorem Request.le_padded {r : Request} (hr : IsPow2 r.alignment) (s : Nat) : s ≤ r.padded s :=
  (le_roundUp s hr.pos).trans (Nat.le_add_right _ _)

theorem le_paddedSize : ∀ {rs : List Request}, (∀ r ∈ rs, IsPow2 r.alignment) →
    ∀ s, s ≤ paddedSize s rs
  | [], _, _ => Nat.le_refl _
  | r :: _, h, s => (r.le_padded (h r (.head _)) s).trans
      (le_paddedSize (fun r hr => h r (.tail _ hr)) _)

theorem paddedSize_mono : ∀ (rs : List Request) {s t : Nat}, s ≤ t →
    paddedSize s rs ≤ paddedSize t rs
  | [], _, _, h => h
  | r :: rs, _, _, h => paddedSize_mono rs (r.padded_mono h)

theorem toNat_mul_sizeof {r : Request} (h : r.bytes < 2 ^ 64) :
    (r.count * r.sizeofT).toNat = r.bytes := by
  rw [BitVec.toNat_mul]
  exact Nat.mod_eq_of_lt h

/-- The words of one request: both roundings and their sum are exact. -/
theorem toNat_padded {r : Request} (hr : IsPow2 r.alignment) {v : SizeT}
    (h : r.padded v.toNat < 2 ^ 64) :
    (alignUp v r.alignment).toNat = roundUp v.toNat r.alignment.toNat ∧
      (alignUp v r.alignment + alignUp (r.count * r.sizeofT) r.alignment).toNat =
        r.padded v.toNat := by
  have hb := le_roundUp r.bytes hr.pos
  unfold Request.padded at h ⊢
  have h1 : (alignUp v r.alignment).toNat = roundUp v.toNat r.alignment.toNat :=
    toNat_alignUp hr (by omega)
  have h2 : (alignUp (r.count * r.sizeofT) r.alignment).toNat =
      roundUp r.bytes r.alignment.toNat := by
    rw [toNat_alignUp hr (by rw [toNat_mul_sizeof (by omega)]; omega),
      toNat_mul_sizeof (by omega)]
  exact ⟨h1, by rw [BitVec.toNat_add, h1, h2, Nat.mod_eq_of_lt h]⟩

/-! ## The estimator -/

namespace WorkspaceMemEstimator

/-- The estimate of a sequence of requests. -/
def addAll (e : WorkspaceMemEstimator) (rs : List Request) : WorkspaceMemEstimator :=
  rs.foldl add e

theorem add_size {e : WorkspaceMemEstimator} {r : Request} (hr : IsPow2 r.alignment)
    (h : r.padded e.req.size.toNat < 2 ^ 64) :
    (e.add r).req.size.toNat = r.padded e.req.size.toNat :=
  (toNat_padded hr h).2

theorem add_alignment_cases (e : WorkspaceMemEstimator) (r : Request) :
    (e.add r).req.alignment = r.alignment ∧ e.req.alignment.toNat < r.alignment.toNat ∨
      (e.add r).req.alignment = e.req.alignment ∧
        r.alignment.toNat ≤ e.req.alignment.toNat := by
  show (if r.alignment > e.req.alignment then _ else _) = _ ∧ _ ∨ (if _ then _ else _) = _ ∧ _
  by_cases h : r.alignment > e.req.alignment
  · exact .inl ⟨if_pos h, BitVec.lt_def.1 h⟩
  · exact .inr ⟨if_neg h, Nat.not_lt.1 fun hlt => h (BitVec.lt_def.2 hlt)⟩

/-- **The estimated size** is the padded size of the sequence. -/
theorem estimate_size : ∀ {rs : List Request} {e : WorkspaceMemEstimator},
    (∀ r ∈ rs, IsPow2 r.alignment) → paddedSize e.req.size.toNat rs < 2 ^ 64 →
    (e.addAll rs).req.size.toNat = paddedSize e.req.size.toNat rs
  | [], _, _, _ => rfl
  | r :: rs, e, hp, h => by
    have hrs : ∀ r ∈ rs, IsPow2 r.alignment := fun r hr => hp r (.tail _ hr)
    have hs := add_size (hp r (.head _)) (e := e)
      (Nat.lt_of_le_of_lt (le_paddedSize hrs _) h)
    have hi := estimate_size (e := e.add r) hrs (by rw [hs]; exact h)
    rw [hs] at hi
    exact hi

/-- **The estimated alignment** is a power of two, and a multiple of the starting alignment and
of every requested one. -/
theorem estimate_alignment : ∀ {rs : List Request} {e : WorkspaceMemEstimator},
    IsPow2 e.req.alignment → (∀ r ∈ rs, IsPow2 r.alignment) →
    IsPow2 (e.addAll rs).req.alignment ∧
      e.req.alignment.toNat ∣ (e.addAll rs).req.alignment.toNat ∧
      ∀ r ∈ rs, r.alignment.toNat ∣ (e.addAll rs).req.alignment.toNat
  | [], _, he, _ => ⟨he, Nat.dvd_refl _, fun _ h => nomatch h⟩
  | r :: rs, e, he, hp => by
    have hr := hp r (.head _)
    have hrs : ∀ r ∈ rs, IsPow2 r.alignment := fun r hr => hp r (.tail _ hr)
    obtain ⟨ha, hle, hre⟩ : IsPow2 (e.add r).req.alignment ∧
        e.req.alignment.toNat ∣ (e.add r).req.alignment.toNat ∧
        r.alignment.toNat ∣ (e.add r).req.alignment.toNat := by
      rcases add_alignment_cases e r with ⟨h, hlt⟩ | ⟨h, hle⟩
      · exact ⟨h ▸ hr, h ▸ he.dvd hr hlt.le, h ▸ Nat.dvd_refl _⟩
      · exact ⟨h ▸ he, h ▸ Nat.dvd_refl _, h ▸ hr.dvd he hle⟩
    obtain ⟨i1, i2, i3⟩ := estimate_alignment (e := e.add r) ha hrs
    refine ⟨i1, hle.trans i2, fun r' hr' => ?_⟩
    rcases List.mem_cons.1 hr' with rfl | hr'
    · exact hre.trans i2
    · exact i3 r' hr'

end WorkspaceMemEstimator

/-! ## The allocator -/

/-- The runtime calls succeed. -/
structure MusaRuntime.Succeeds {Stream Event : Type} (rt : MusaRuntime Stream Event) :
    Prop where
  streamWaitEvent : ∀ s e, rt.streamWaitEvent s e = true
  eventSynchronize : ∀ e, rt.eventSynchronize e = true

/-- The addresses of the requested elements when the pointer returned is `p`. -/
def Request.region (r : Request) (p : SizeT) : Set Nat := Set.Ico p.toNat (p.toNat + r.bytes)

namespace WorkspaceMemAllocator

variable {Stream Event : Type} {rt : MusaRuntime Stream Event}

/-- What the allocation sequence keeps: the allocator's region lies in the address space,
nothing was released, and the next offset is at most `s`. -/
structure Room (mem : WorkspaceMem Event) (s : Nat) (a : WorkspaceMemAllocator Stream Event) :
    Prop where
  mem_eq : a.mem = mem
  in_space : mem.data.toNat + mem.req.size.toNat < 2 ^ 64
  held : a.released = false
  offset_le : a.offset.toNat ≤ s

/-- **One allocation** whose padding ends inside the region: the pointer is the first aligned
address after the ones handed out. -/
theorem take_spec {mem : WorkspaceMem Event} {a : WorkspaceMemAllocator Stream Event}
    {s : Nat} (ha : Room mem s a) {r : Request} (hr : IsPow2 r.alignment)
    (hdata : r.alignment.toNat ∣ mem.data.toNat) (hfit : r.padded s ≤ mem.req.size.toNat) :
    ∃ p a', take r a = (.ok p, a') ∧ Room mem (r.padded s) a' ∧
      r.alignment.toNat ∣ p.toNat ∧ mem.data.toNat + a.offset.toNat ≤ p.toNat ∧
      p.toNat + r.bytes ≤ mem.data.toNat + a'.offset.toNat := by
  obtain ⟨rfl, hspace, hheld, hoff⟩ := ha
  have hpad := r.padded_mono hoff
  obtain ⟨h1, h2⟩ := toNat_padded hr (v := a.offset) (by omega)
  have hb := le_roundUp r.bytes hr.pos
  have ho := le_roundUp a.offset.toNat hr.pos
  have hsum : r.padded a.offset.toNat =
    roundUp a.offset.toNat r.alignment.toNat + roundUp r.bytes r.alignment.toNat := rfl
  have hp : (a.mem.data + alignUp a.offset r.alignment).toNat =
      a.mem.data.toNat + roundUp a.offset.toNat r.alignment.toNat := by
    rw [BitVec.toNat_add, h1, Nat.mod_eq_of_lt (by omega)]
  refine ⟨a.mem.data + alignUp a.offset r.alignment,
    { a with offset :=
      alignUp a.offset r.alignment + alignUp (r.count * r.sizeofT) r.alignment },
    ?_, ⟨rfl, hspace, hheld, ?_⟩, ?_, ?_, ?_⟩
  · unfold take
    rw [if_neg (not_not.2 ((and_sub_one_eq_zero _ hr).2 hdata)), if_neg]
    rw [gt_iff_lt, BitVec.lt_def, h2]
    omega
  · rw [h2]
    exact hpad
  · rw [hp]
    exact hdata.add (dvd_roundUp _ _)
  · rw [hp]
    omega
  · rw [hp, h2]
    omega

theorem Room.acquire {mem : WorkspaceMem Event} {a : WorkspaceMemAllocator Stream Event}
    {s : Nat} (hrt : rt.Succeeds) (ha : Room mem s a) (hacq : a.acquired = false)
    (stream : Option Stream) :
    acquire rt stream a = .ok { a with acquired := true } := by
  have hw : waitReady rt a.mem.ready stream = .ok () := by
    unfold waitReady
    split
    · rfl
    · rw [if_pos (hrt.streamWaitEvent _ _)]
    · rw [if_pos (hrt.eventSynchronize _)]
  unfold WorkspaceMemAllocator.acquire
  rw [hacq, ha.held, hw]
  rfl

/-- **One `get`**, the acquisition included. -/
theorem get_spec {mem : WorkspaceMem Event} {a : WorkspaceMemAllocator Stream Event} {s : Nat}
    (hrt : rt.Succeeds) (ha : Room mem s a) {r : Request} (hr : IsPow2 r.alignment)
    (hdata : r.alignment.toNat ∣ mem.data.toNat) (hfit : r.padded s ≤ mem.req.size.toNat) :
    ∃ p a', get rt r a = (.ok p, a') ∧ Room mem (r.padded s) a' ∧
      r.alignment.toNat ∣ p.toNat ∧ mem.data.toNat + a.offset.toNat ≤ p.toNat ∧
      p.toNat + r.bytes ≤ mem.data.toNat + a'.offset.toNat := by
  unfold get
  rw [if_neg (by simp [ha.held])]
  by_cases hacq : (!a.acquired && decide (0 < r.count)) = true
  · rw [if_pos hacq, ha.acquire hrt (by simp_all)]
    have ha' : Room mem s { a with acquired := true } :=
      ⟨ha.mem_eq, ha.in_space, ha.held, ha.offset_le⟩
    exact take_spec ha' hr hdata hfit
  · rw [if_neg hacq]
    exact take_spec ha hr hdata hfit

/-- The regions lie one after another from `lo` to `hi`. -/
def Consecutive (lo hi : Nat) : List (Request × SizeT) → Prop
  | [] => lo ≤ hi
  | (r, p) :: l => lo ≤ p.toNat ∧ Consecutive (p.toNat + r.bytes) hi l

theorem Consecutive.mono {lo lo' hi : Nat} (h : lo' ≤ lo) :
    ∀ {l : List (Request × SizeT)}, Consecutive lo hi l → Consecutive lo' hi l
  | [], hc => h.trans hc
  | (_, _) :: _, hc => ⟨h.trans hc.1, hc.2⟩

theorem Consecutive.bounds {hi : Nat} : ∀ {l : List (Request × SizeT)} {lo : Nat},
    Consecutive lo hi l → lo ≤ hi ∧
      ∀ x ∈ l, lo ≤ x.2.toNat ∧ x.2.toNat + x.1.bytes ≤ hi
  | [], _, hc => ⟨hc, fun _ h => nomatch h⟩
  | (r, p) :: l, lo, ⟨h1, h2⟩ => by
    obtain ⟨h3, h4⟩ := h2.bounds
    refine ⟨by omega, fun x hx => ?_⟩
    rcases List.mem_cons.1 hx with rfl | hx
    · exact ⟨h1, h3⟩
    · have := h4 x hx
      omega

/-- Regions one after another are pairwise disjoint. -/
theorem Consecutive.disjoint {hi : Nat} : ∀ {l : List (Request × SizeT)} {lo : Nat},
    Consecutive lo hi l →
    l.Pairwise fun x y => ∀ a ∈ x.1.region x.2, a ∉ y.1.region y.2
  | [], _, _ => .nil
  | (r, p) :: l, _, ⟨_, h2⟩ => by
    refine .cons (fun y hy => ?_) h2.disjoint
    have hle := (h2.bounds.2 y hy).1
    intro a ha ha'
    have h1 : a < p.toNat + r.bytes := ha.2
    have h2 : y.2.toNat ≤ a := ha'.1
    omega

/-- **A sequence of `get` calls** from an offset at most the estimator's size: none throws, and
the regions lie one after another inside the workspace. -/
theorem getAll_spec {mem : WorkspaceMem Event} (hrt : rt.Succeeds) :
    ∀ {rs : List Request} {a : WorkspaceMemAllocator Stream Event} {s : Nat},
      Room mem s a → (∀ r ∈ rs, IsPow2 r.alignment) →
      (∀ r ∈ rs, r.alignment.toNat ∣ mem.data.toNat) →
      paddedSize s rs ≤ mem.req.size.toNat →
      ∃ ps a', getAll rt rs a = (.ok ps, a') ∧
        List.Forall₂ (fun r p => r.alignment.toNat ∣ p.toNat) rs ps ∧
        Consecutive (mem.data.toNat + a.offset.toNat)
          (mem.data.toNat + mem.req.size.toNat) (rs.zip ps)
  | [], a, s, ha, _, _, hfit => by
    refine ⟨[], a, rfl, .nil, ?_⟩
    have := ha.offset_le
    have : s ≤ mem.req.size.toNat := hfit
    show _ ≤ _
    omega
  | r :: rs, a, s, ha, hp, hd, hfit => by
    have hrs : ∀ r ∈ rs, IsPow2 r.alignment := fun r hr => hp r (.tail _ hr)
    obtain ⟨p, a1, hget, ha1, hdvd, hlo, hhi⟩ := get_spec hrt ha (hp r (.head _))
      (hd r (.head _)) ((le_paddedSize hrs _).trans hfit)
    obtain ⟨ps, a2, hall, hal, hcon⟩ := getAll_spec hrt ha1 hrs
      (fun r hr => hd r (.tail _ hr)) hfit
    refine ⟨p :: ps, a2, ?_, .cons hdvd hal, hlo, hcon.mono hhi⟩
    simp only [getAll, hget, hall]

end WorkspaceMemAllocator

open WorkspaceMemEstimator WorkspaceMemAllocator

/-- **The estimate covers the allocation sequence.** The requests are added to an estimator
(from any initial size and any power-of-two base alignment) and then made, in the same order, on
an allocator over a region of the estimated size, at an address with the estimated alignment: no
call throws, every pointer has its alignment, and the regions of the elements are pairwise
disjoint and inside the workspace. -/
theorem getAll_covered {Stream Event : Type} {rt : MusaRuntime Stream Event}
    (hrt : rt.Succeeds) (initialSize baseAlignment : SizeT) (hbase : IsPow2 baseAlignment)
    (rs : List Request) (hpow : ∀ r ∈ rs, IsPow2 r.alignment)
    (hfits : paddedSize initialSize.toNat rs < 2 ^ 64) (mem : WorkspaceMem Event)
    (hreq : mem.req = ((WorkspaceMemEstimator.new initialSize baseAlignment).addAll rs).req)
    (haligned : mem.req.alignment.toNat ∣ mem.data.toNat)
    (hregion : mem.data.toNat + mem.req.size.toNat < 2 ^ 64)
    (acquireStream releaseStream : Option Stream) :
    ∃ ps a, getAll rt rs (WorkspaceMemAllocator.new mem acquireStream releaseStream) =
        (.ok ps, a) ∧
      List.Forall₂ (fun r p => r.alignment.toNat ∣ p.toNat) rs ps ∧
      (rs.zip ps).Pairwise (fun x y => ∀ a ∈ x.1.region x.2, a ∉ y.1.region y.2) ∧
      ∀ x ∈ rs.zip ps, x.1.region x.2 ⊆
        Set.Ico mem.data.toNat (mem.data.toNat + mem.req.size.toNat) := by
  have hsize : mem.req.size.toNat = paddedSize initialSize.toNat rs :=
    hreq ▸ estimate_size (e := .new initialSize baseAlignment) hpow hfits
  obtain ⟨-, -, hal⟩ := estimate_alignment (e := .new initialSize baseAlignment) hbase hpow
  have hroom : Room mem initialSize.toNat (.new mem acquireStream releaseStream) :=
    ⟨rfl, hregion, rfl, Nat.zero_le _⟩
  obtain ⟨ps, a, hget, hps, hcon⟩ := getAll_spec hrt hroom hpow
    (fun r hr => (hreq ▸ hal r hr).trans haligned) hsize.ge
  refine ⟨ps, a, hget, hps, hcon.disjoint, fun x hx => ?_⟩
  obtain ⟨hlo, hhi⟩ := hcon.bounds.2 x hx
  exact Set.Ico_subset_Ico ((Nat.le_add_right _ _).trans hlo) hhi

/-- A sequence that mixes alignments and has an empty request, at address 4096. -/
theorem getAll_covered_mixed :
    let rs : List Request := [⟨3, 1, 1⟩, ⟨2, 8, 64⟩, ⟨0, 4, 4⟩, ⟨5, 2, 2⟩]
    let rt : MusaRuntime Unit Unit := ⟨fun _ _ => true, fun _ => true, fun _ _ => true⟩
    let mem : WorkspaceMem Unit := ⟨((WorkspaceMemEstimator.new).addAll rs).req, 4096, some ()⟩
    ∃ ps a, getAll rt rs (WorkspaceMemAllocator.new mem none none) = (.ok ps, a) ∧
      List.Forall₂ (fun r p => r.alignment.toNat ∣ p.toNat) rs ps ∧
      (rs.zip ps).Pairwise (fun x y => ∀ a ∈ x.1.region x.2, a ∉ y.1.region y.2) ∧
      ∀ x ∈ rs.zip ps, x.1.region x.2 ⊆
        Set.Ico mem.data.toNat (mem.data.toNat + mem.req.size.toNat) := by
  intro rs rt mem
  exact getAll_covered ⟨fun _ _ => rfl, fun _ => rfl⟩ 0 16 (by decide) rs (by decide)
    (by decide) mem rfl (by decide) (by decide) none none

end Cvcuda
