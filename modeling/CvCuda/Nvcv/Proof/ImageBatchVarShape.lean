import CvCuda.Lib.Int32
import CvCuda.Lib.Run
import CvCuda.Nvcv.ImageBatchVarShape

/-! # The attributes of a batch are exact

The maximum size and the common format a batch answers are those of its images, after every run
whose calls `Keeps` describes: a push that throws has added nothing that changes them, and what a
pop leaves has the common format of before.

* `Exact`: the caches, where they are valid, are what the images make them.
* `exec_exact`: every call has an outcome and keeps this.
* `runs_exact`: what `maxSize` and `uniqueFormat` return after a run.
* `pop_keeps_none`: a run after which they do not.
-/

namespace Nvcv.ImageBatchVarShape

open Aggregate

variable {b b' : ImageBatchVarShape} {o o' : Objects Image} {imgs acc : List Image}

/-! ## The attributes of lists of images -/

theorem maxSizeOf_single (img : Image) : maxSizeOf [img] = img.size := rfl

theorem uniqueFormatOf_single (img : Image) : uniqueFormatOf [img] = img.format := by
  refine common_eq (by simp) fun y hy => ?_
  simpa using hy

theorem maxSizeOf_concat (h : imgs ≠ []) (img : Image) :
    maxSizeOf (imgs ++ [img]) = maxSizes (maxSizeOf imgs) img.size := by
  simp only [maxSizeOf, maxSizes, List.map_append, List.map_cons, List.map_nil]
  rw [maximum_concat (by simpa using h), maximum_concat (by simpa using h)]

theorem uniqueFormatOf_concat (h : imgs ≠ []) (img : Image) :
    uniqueFormatOf (imgs ++ [img]) =
      if uniqueFormatOf imgs ≠ img.format then imageFormatNone else uniqueFormatOf imgs := by
  rw [uniqueFormatOf, List.map_append, List.map_cons, List.map_nil,
    common_concat (by simpa using h)]
  rfl

/-! ## The invariant -/

/-- The buffers have what an image exports. -/
structure Holds (e : BatchImage) (img : Image) : Prop where
  buffer : e.buffer = img.strided
  format : e.format = img.format
  bufferType : img.bufferType = .stridedCuda

/-- The caches that are valid are exact, and that of the format is valid unless the batch is
empty. -/
structure Exact (b : ImageBatchVarShape) (imgs : List Image) : Prop where
  held : List.Forall₂ Holds b.images imgs
  fits : b.images.length ≤ b.capacity.toInt
  max : ∀ s, b.cacheMaxSize = some s → s = maxSizeOf imgs
  unique : ∀ f, b.cacheUniqueFormat = some f → f = uniqueFormatOf imgs
  set : imgs ≠ [] → b.cacheUniqueFormat ≠ none

theorem Exact.length (h : Exact b imgs) : b.images.length = imgs.length := h.held.length_eq

/-! ## The update of the caches -/

theorem holds_size {e : BatchImage} {img : Image} (h : Holds e img) :
    (⟨e.buffer.planes[0].width, e.buffer.planes[0].height⟩ : Size2D) = img.size := by
  rw [h.buffer]
  exact img.size_eq h.bufferType

theorem updateCaches_eq {m : Size2D} {f : ImageFormat} {e : BatchImage} {img : Image}
    (h : Holds e img) : updateCaches (m, some f) e =
      (maxSizes m img.size, some (addCommon imageFormatNone f img.format)) := by
  unfold updateCaches addCommon
  rw [holds_size h, h.format]
  by_cases hn : f = imageFormatNone
  · simp [hn]
  · by_cases he : f = img.format <;> simp [hn, he]

theorem foldl_updateCaches {es : List BatchImage} (h : List.Forall₂ Holds es imgs) (m : Size2D)
    (f : ImageFormat) : es.foldl updateCaches (m, some f) =
      (⟨(imgs.map fun img => img.size.w).foldl Max.max m.w,
          (imgs.map fun img => img.size.h).foldl Max.max m.h⟩,
        some ((imgs.map Image.format).foldl (addCommon imageFormatNone) f)) := by
  induction h generalizing m f with
  | nil => rfl
  | cons h _ ih =>
    rw [List.foldl_cons, updateCaches_eq h, ih]
    rfl

theorem max_zero {x : Int32} (h : 0 < x) : Max.max 0 x = x := by
  rw [← Int32.toInt_inj, Int32.toInt_max]
  exact max_eq_right (Int32.le_iff_toInt_le.1 (Int32.le_of_lt h))

theorem held_pos {es : List BatchImage} (h : List.Forall₂ Holds es imgs) :
    ∀ img ∈ imgs, 0 < img.size.w ∧ 0 < img.size.h := by
  induction h with
  | nil => simp
  | cons h _ ih =>
    intro img hm
    rcases List.mem_cons.1 hm with rfl | hm
    · exact img.size_pos h.bufferType
    · exact ih img hm

theorem doUpdateCache_eq (h : Exact b imgs) : b.doUpdateCache =
    { b with
      cacheMaxSize := some (maxSizeOf imgs)
      cacheUniqueFormat := some (uniqueFormatOf imgs) } := by
  unfold doUpdateCache
  cases hu : b.cacheUniqueFormat with
  | none =>
    have hi : imgs = [] := by
      by_contra hne
      exact h.set hne hu
    subst hi
    have hb : b.images = [] := List.forall₂_nil_right_iff.1 h.held
    have hm : b.cacheMaxSize.getD ⟨0, 0⟩ = maxSizeOf [] := by
      cases hm : b.cacheMaxSize with
      | none => rfl
      | some s => exact h.max s hm
    rw [if_neg (by simp), hb, List.foldl_nil, hm]
    rfl
  | some f =>
    have hf := h.unique f hu
    cases hm : b.cacheMaxSize with
    | some s =>
      rw [if_pos (by simp), ← h.max s hm, ← hf, ← hm, ← hu]
    | none =>
      have hw : ∀ a ∈ imgs.map fun img => img.size.w, Max.max 0 a = a := by
        intro a ha
        obtain ⟨img, hi, rfl⟩ := List.mem_map.1 ha
        exact max_zero (held_pos h.held img hi).1
      have hh : ∀ a ∈ imgs.map fun img => img.size.h, Max.max 0 a = a := by
        intro a ha
        obtain ⟨img, hi, rfl⟩ := List.mem_map.1 ha
        exact max_zero (held_pos h.held img hi).2
      rw [if_neg (by simp), Option.getD_none, foldl_updateCaches h.held, hf, uniqueFormatOf,
        foldl_addCommon_self (fun _ hx => hx), foldl_max hw, foldl_max hh]
      rfl

theorem doUpdateCache_exact (h : Exact b imgs) : Exact b.doUpdateCache imgs := by
  rw [doUpdateCache_eq h]
  refine ⟨h.held, h.fits, fun s hs => ?_, fun f hf => ?_, fun _ => by simp⟩
  · exact (Option.some.inj hs).symm
  · exact (Option.some.inj hf).symm

theorem maxSize_eq (h : Exact b imgs) : b.maxSize = some (maxSizeOf imgs, b.doUpdateCache) := by
  have hm : b.doUpdateCache.cacheMaxSize = some (maxSizeOf imgs) := by rw [doUpdateCache_eq h]
  simp only [maxSize, hm, Option.map_some]

theorem uniqueFormat_eq (h : Exact b imgs) :
    b.uniqueFormat = some (uniqueFormatOf imgs, b.doUpdateCache) := by
  have hf : b.doUpdateCache.cacheUniqueFormat = some (uniqueFormatOf imgs) := by
    rw [doUpdateCache_eq h]
  simp only [uniqueFormat, hf, Option.map_some]

/-! ## Pushes -/

/-- `b'` is `b` with the images `acc` pushed. -/
structure Grown (b b' : ImageBatchVarShape) (imgs acc : List Image) : Prop where
  exact : Exact b' (imgs ++ acc)
  capacity : b'.capacity = b.capacity
  invalid : imgs ≠ [] → b.cacheMaxSize = none → b'.cacheMaxSize = none

theorem Grown.refl (h : Exact b imgs) : Grown b b imgs [] :=
  ⟨by rwa [List.append_nil], rfl, fun _ hm => hm⟩

theorem Grown.trans {b₁ : ImageBatchVarShape} {acc₁ : List Image} (h₁ : Grown b b₁ imgs acc)
    (h₂ : Grown b₁ b' (imgs ++ acc) acc₁) : Grown b b' imgs (acc ++ acc₁) := by
  refine ⟨by rw [← List.append_assoc]; exact h₂.exact, h₂.capacity.trans h₁.capacity,
    fun hne hm => h₂.invalid ?_ (h₁.invalid hne hm)⟩
  intro h0
  exact hne (List.append_eq_nil_iff.1 h0).1

theorem storeImage_grown {img : Image} (h : Exact b imgs) (hr : b.images.length < b.capacity.toInt)
    (ht : img.bufferType = .stridedCuda) (handle : Addr) :
    Grown b (b.storeImage handle img) imgs [img] := by
  have hheld : List.Forall₂ Holds (b.images ++ [BatchImage.mk img.strided img.format handle])
      (imgs ++ [img]) :=
    List.rel_append h.held (.cons ⟨rfl, rfl, ht⟩ .nil)
  have hfits : ((b.images ++ [BatchImage.mk img.strided img.format handle]).length : Int) ≤
      b.capacity.toInt := by
    rw [List.length_append, List.length_singleton]
    omega
  unfold storeImage
  by_cases hl : imgs = []
  · subst hl
    have hb : b.images = [] := List.forall₂_nil_right_iff.1 h.held
    rw [if_pos (by simp [hb])]
    exact
      { exact :=
          { held := hheld
            fits := hfits
            max := fun s hs => (Option.some.inj hs).symm
            unique := fun f hf => (Option.some.inj hf).symm.trans (uniqueFormatOf_single img).symm
            set := fun _ => by simp }
        capacity := rfl
        invalid := fun hne => absurd rfl hne }
  · have hb : b.images.length ≠ 0 := by
      rw [h.length]
      exact fun h0 => hl (List.length_eq_zero_iff.1 h0)
    rw [if_neg (by rw [List.length_append, List.length_singleton]; omega)]
    refine ⟨⟨hheld, hfits, fun s hs => ?_, fun f hf => ?_, fun _ => ?_⟩, rfl, fun _ hm => ?_⟩
    · obtain ⟨t, ht, rfl⟩ := Option.map_eq_some_iff.1 hs
      rw [maxSizeOf_concat hl, h.max t ht]
    · obtain ⟨g, hg, rfl⟩ := Option.map_eq_some_iff.1 hf
      rw [uniqueFormatOf_concat hl, h.unique g hg]
    · exact fun hn => h.set hl (Option.map_eq_none_iff.1 hn)
    · exact Option.map_eq_none_iff.2 hm

theorem doPushImage_pushable (print : ImageFormat → String) {h : Addr} {img : Image}
    (hp : pushable h o = some img) (hr : b.images.length < b.capacity.toInt) :
    doPushImage print h b o = some (.ok (), b.storeImage h img) ∧
      img.bufferType = .stridedCuda ∧ o.obj h ≠ none := by
  unfold pushable at hp
  cases ho : o.obj h with
  | none => simp [ho] at hp
  | some i =>
    simp only [ho] at hp
    split_ifs at hp with hi
    cases hp
    refine ⟨?_, hi.2, by simp⟩
    rw [doPushImage, if_neg (by omega), toStaticRef_ok.2 ho]
    simp only [checkImage, hi.1, hi.2, ne_eq, not_true_eq_false, if_false]

theorem doPushImage_refused (print : ImageFormat → String) {h : Addr}
    (hp : pushable h o = none) (hr : b.images.length < b.capacity.toInt) :
    ∃ e, doPushImage print h b o = some (.error e, b) := by
  unfold pushable at hp
  rw [doPushImage, if_neg (by omega)]
  cases ho : o.obj h with
  | none =>
    rw [toStaticRef, ho]
    exact ⟨_, rfl⟩
  | some i =>
    simp only [ho] at hp
    split_ifs at hp with hi
    rw [toStaticRef_ok.2 ho]
    unfold checkImage
    by_cases hl : i.format.memLayout = memLayoutPL
    · have ht : i.bufferType ≠ .stridedCuda := fun ht => hi ⟨hl, ht⟩
      simp [hl, ht]
    · simp [hl]

theorem pushed_congr (h : o'.obj = o.obj) (hs : List Addr) : pushed o' hs = pushed o hs := by
  induction hs with
  | nil => rfl
  | cons x xs ih => rw [pushed, pushed, pushable, h, ← pushable, ih]

/-- The images a loop adds, and whether it throws. -/
theorem pushLoop_grown (print : ImageFormat → String) {hs : List Addr} (h : Exact b imgs)
    (hr : b.images.length + hs.length ≤ b.capacity.toInt) :
    ∃ r b' o', pushLoop print hs b o = some (r, b', o') ∧
      Grown b b' imgs (pushed o hs).1 ∧ (r.isOk ↔ (pushed o hs).2) := by
  induction hs generalizing b o imgs with
  | nil => exact ⟨_, b, o, rfl, .refl h, by simp [pushed, Except.isOk, Except.toBool]⟩
  | cons x xs ih =>
    rw [List.length_cons] at hr
    rw [pushLoop, pushed]
    cases hp : pushable x o with
    | none =>
      obtain ⟨e, he⟩ := doPushImage_refused print hp (b := b) (by omega)
      rw [he]
      exact ⟨_, b, o, rfl, .refl h, by simp [Except.isOk, Except.toBool]⟩
    | some img =>
      obtain ⟨he, ht, ho⟩ := doPushImage_pushable print hp (b := b) (by omega)
      have hg := storeImage_grown h (by omega) ht x
      have hinc : ∃ n o₁, (if x = 0 then (.ok 0, o) else coreObjectIncRef x o) =
          ((.ok n : Except Exception Nat), o₁) ∧ o₁.obj = o.obj := by
        by_cases hx : x = 0
        · exact ⟨0, o, if_pos hx, rfl⟩
        · obtain ⟨o₁, e₁, m₁⟩ := coreObjectIncRef_spec (RefStore.refs_pos.2 ho)
          exact ⟨_, o₁, by rw [if_neg hx, e₁], m₁.obj_eq⟩
      obtain ⟨n, o₁, e₁, ho₁⟩ := hinc
      have hl : (b.storeImage x img).images.length = b.images.length + 1 := by
        rw [hg.exact.length, List.length_append, h.length, List.length_singleton]
      obtain ⟨r, b', o', e', g', hb⟩ := ih hg.exact (o := o₁) (by rw [hl, hg.capacity]; omega)
      rw [pushed_congr ho₁] at g' hb
      refine ⟨r, b', o', ?_, hg.trans g', hb⟩
      rw [he]
      simp only [e₁]
      exact e'

/-- The images a callback has added, and whether its push throws. -/
theorem callbackLoop_grown (print : ImageFormat → String) (cb : PushImageFunc) {room k : Nat}
    (h : Exact b imgs) (hr : b.images.length + room ≤ b.capacity.toInt) :
    ∃ r b' o', callbackLoop print cb room k b o = some (r, b', o') ∧
      Grown b b' imgs (pushedBack cb room k o).1 ∧ (r.isOk ↔ (pushedBack cb room k o).2) := by
  induction room generalizing b o imgs k with
  | zero =>
    rw [callbackLoop, pushedBack]
    obtain ⟨⟨e⟩ | ⟨x⟩, o₁⟩ := cb k o
    · exact ⟨_, b, o₁, rfl, .refl h, by simp [Except.isOk, Except.toBool]⟩
    · by_cases hx : x = 0
      · simp only [hx, if_true]
        exact ⟨_, b, o₁, rfl, .refl h, by simp [Except.isOk, Except.toBool]⟩
      · simp only [hx, if_false]
        exact ⟨_, b, o₁, rfl, .refl h, by simp [Except.isOk, Except.toBool]⟩
  | succ room ih =>
    rw [callbackLoop, pushedBack]
    obtain ⟨⟨e⟩ | ⟨x⟩, o₁⟩ := cb k o
    · exact ⟨_, b, o₁, rfl, .refl h, by simp [Except.isOk, Except.toBool]⟩
    · by_cases hx : x = 0
      · simp only [hx, if_true]
        exact ⟨_, b, o₁, rfl, .refl h, by simp [Except.isOk, Except.toBool]⟩
      · simp only [hx, if_false]
        cases hp : pushable x o₁ with
        | none =>
          obtain ⟨e, he⟩ := doPushImage_refused print hp (b := b) (by omega)
          rw [he]
          exact ⟨_, b, o₁, rfl, .refl h, by simp [Except.isOk, Except.toBool]⟩
        | some img =>
          obtain ⟨he, ht, -⟩ := doPushImage_pushable print hp (b := b) (by omega)
          have hg := storeImage_grown h (by omega) ht x
          have hl : (b.storeImage x img).images.length = b.images.length + 1 := by
            rw [hg.exact.length, List.length_append, h.length, List.length_singleton]
          obtain ⟨r, b', o', e', g', hb⟩ :=
            ih hg.exact (o := o₁) (k := k + 1) (by rw [hl, hg.capacity]; omega)
          refine ⟨r, b', o', ?_, hg.trans g', hb⟩
          rw [he]
          exact e'

/-! ## What a push that throws must not have added -/

/-- The images `acc` change neither the maximum size, where it is known, nor the common format. -/
def Unseen (b : ImageBatchVarShape) (imgs acc : List Image) : Prop :=
  acc = [] ∨
    (imgs ≠ [] ∧ b.cacheMaxSize = none ∨ maxSizeOf (imgs ++ acc) = maxSizeOf imgs) ∧
      uniqueFormatOf (imgs ++ acc) = uniqueFormatOf imgs

theorem restore_exact (h : Exact b imgs) (hg : Grown b b' imgs acc) (hu : Unseen b imgs acc) :
    Exact { b' with images := b'.images.take b.images.length } imgs := by
  have hheld : List.Forall₂ Holds (b'.images.take b.images.length) imgs := by
    have ht := List.forall₂_take imgs.length hg.exact.held
    rw [List.take_left] at ht
    rwa [h.length]
  have hattr : (∀ s, b'.cacheMaxSize = some s → s = maxSizeOf imgs) ∧
      uniqueFormatOf (imgs ++ acc) = uniqueFormatOf imgs := by
    rcases hu with rfl | ⟨hm, hf⟩
    · refine ⟨fun s hs => ?_, by rw [List.append_nil]⟩
      rw [hg.exact.max s hs, List.append_nil]
    · refine ⟨fun s hs => ?_, hf⟩
      rcases hm with ⟨hne, hn⟩ | hm
      · exact absurd (hg.invalid hne hn) (by simp [hs])
      · rw [hg.exact.max s hs, hm]
  exact
    { held := hheld
      fits := by
        have := h.fits
        rw [hheld.length_eq, ← h.length, hg.capacity]
        exact this
      max := hattr.1
      unique := fun f hf => by rw [hg.exact.unique f hf, hattr.2]
      set := fun hne => hg.exact.set fun h0 => hne (List.append_eq_nil_iff.1 h0).1 }

/-! ## The other calls -/

/-- A batch after its last images were removed. -/
theorem popped_exact {k : Nat} (h : Exact b imgs)
    (hk : imgs.take k = [] ∨ uniqueFormatOf (imgs.take k) = uniqueFormatOf imgs)
    (hb : b'.images = b.images.take k) (hc : b'.capacity = b.capacity)
    (hm : b'.cacheMaxSize = none)
    (hu : b'.cacheUniqueFormat = if b'.images.length = 0 then none else b.cacheUniqueFormat) :
    Exact b' (imgs.take k) := by
  have hheld : List.Forall₂ Holds b'.images (imgs.take k) := hb ▸ List.forall₂_take k h.held
  have hfits : (b'.images.length : Int) ≤ b'.capacity.toInt := by
    have := h.fits
    rw [hb, hc, List.length_take]
    omega
  rw [hheld.length_eq] at hu
  by_cases h0 : imgs.take k = []
  · rw [if_pos (by rw [h0]; rfl)] at hu
    exact ⟨hheld, hfits, by simp [hm], by simp [hu], fun hne => absurd h0 hne⟩
  · rw [if_neg fun hl => h0 (List.length_eq_zero_iff.1 hl)] at hu
    refine ⟨hheld, hfits, by simp [hm], fun f hf => ?_, fun _ => ?_⟩
    · rw [hk.resolve_left h0]
      exact h.unique f (hu ▸ hf)
    · rw [hu]
      exact h.set fun hn => h0 (by rw [hn, List.take_nil])

theorem clearLoop_held {es : List BatchImage} (h : List.Forall₂ Holds es imgs)
    (o : Objects Image) : List.Forall₂ Holds (clearLoop es o).2.1 imgs := by
  induction h generalizing o with
  | nil => exact .nil
  | @cons e img es imgs he hes ih =>
    rw [clearLoop]
    cases coreObjectDecRef e.handle o with
    | mk r o₁ =>
      cases r with
      | error _ => exact .cons he hes
      | ok _ => exact .cons ⟨he.buffer, he.format, he.bufferType⟩ (ih o₁)

/-- What the caches depend on. -/
theorem Exact.congr (h : Exact b imgs) (hi : List.Forall₂ Holds b'.images imgs)
    (hc : b'.capacity = b.capacity) (hm : b'.cacheMaxSize = b.cacheMaxSize)
    (hu : b'.cacheUniqueFormat = b.cacheUniqueFormat) : Exact b' imgs := by
  refine ⟨hi, ?_, hm ▸ h.max, hu ▸ h.unique, hu ▸ h.set⟩
  have := h.fits
  rw [hi.length_eq, hc, ← h.length]
  exact this

theorem uploadDirty_exact (calls : ExportCalls) (h : Exact b imgs) :
    Exact (uploadDirty calls b).2 imgs := by
  unfold uploadDirty
  cases calls.streamWaitEvent with
  | error e => exact h
  | ok u =>
    cases calls.memcpyImages with
    | error e => exact h
    | ok u =>
      cases calls.memcpyFormats with
      | error e => exact h.congr h.held rfl rfl rfl
      | ok u => cases calls.eventRecord <;> exact h.congr h.held rfl rfl rfl

theorem exportAttributes_eq (h : Exact b imgs) : b.exportAttributes =
    some (.ok ⟨b.numImages, (maxSizeOf imgs).w, (maxSizeOf imgs).h, uniqueFormatOf imgs⟩,
      b.doUpdateCache) := by
  rw [exportAttributes, doUpdateCache_eq h]
  rfl

/-- **The condition** on a call: a sum of 32 bits does not wrap, a push that gets to an image it
refuses has added nothing that shows, and a pop leaves nothing or the common format of before. -/
def Sys.Keeps (s : Sys) : Op → Prop
  | .pushImages sync (some images) numImages =>
    let r := pushed s.objs (handles images numImages)
    numImages.toInt + s.batch.images.length < 2 ^ 31 ∧
      (sync = .ok () → numImages.toInt + s.batch.images.length ≤ s.batch.capacity.toInt →
        r.2 = false → Unseen s.batch s.images r.1)
  | .pushImagesCallback sync (some cbPushImage) =>
    let r := pushedBack cbPushImage s.batch.room 0 s.objs
    sync = .ok () → r.2 = false → Unseen s.batch s.images r.1
  | .popImages numImages =>
    let kept := s.images.take (s.images.length - numImages.toInt.toNat)
    0 ≤ numImages → numImages.toInt ≤ s.images.length →
      kept = [] ∨ uniqueFormatOf kept = uniqueFormatOf s.images
  | .getImages begIndex _ numImages => begIndex.toInt + numImages.toInt < 2 ^ 31
  | _ => True

/-- A call has an outcome that leaves the caches exact. -/
def Sys.Kept (print : ImageFormat → String) (s : Sys) (op : Op) : Prop :=
  ∃ result b' o', exec print s.batch s.objs op = some (result, b', o') ∧
    Exact b' (s.imagesAfter op result)

section
variable (print : ImageFormat → String) {s : Sys} (h : Exact s.batch s.images)
include h

theorem numImages_toInt : s.batch.numImages.toInt = s.batch.images.length := by
  have := h.fits
  have := s.batch.capacity.toInt_lt
  exact Int32.toInt_ofNat_of_lt (by omega)

theorem pushImages_kept {sync : Except Exception Unit} {images : Option (Nat → Addr)}
    {numImages : Int32} (hk : s.Keeps (.pushImages sync images numImages)) :
    s.Kept print (.pushImages sync images numImages) := by
  unfold Sys.Kept exec pushImages
  cases images with
  | none => exact ⟨_, _, _, rfl, h⟩
  | some images =>
    obtain ⟨hlt, hk⟩ := hk
    have hsum : (numImages + s.batch.numImages).toInt =
        numImages.toInt + s.batch.images.length := by
      have := numImages.le_toInt
      rw [Int32.toInt_add_of_range, numImages_toInt h] <;> rw [numImages_toInt h] <;> omega
    by_cases hc : numImages + s.batch.numImages > s.batch.capacity
    · simp only [if_pos hc]
      exact ⟨_, _, _, rfl, h⟩
    · simp only [if_neg hc]
      cases sync with
      | error e => exact ⟨_, _, _, rfl, h⟩
      | ok u =>
        have hfit : numImages.toInt + s.batch.images.length ≤ s.batch.capacity.toInt := by
          rw [gt_iff_lt, Int32.lt_iff_toInt_lt, hsum] at hc
          omega
        have hroom : (s.batch.images.length + (handles images numImages).length : Int) ≤
            s.batch.capacity.toInt := by
          have := h.fits
          rw [handles, List.length_map, List.length_range]
          omega
        obtain ⟨r, b', o', e', g', hb⟩ := pushLoop_grown print (o := s.objs) h hroom
        simp only [e', Option.map_some]
        cases r with
        | ok u => exact ⟨_, _, _, rfl, g'.exact⟩
        | error e =>
          refine ⟨_, _, _, rfl, restore_exact h g' (hk rfl hfit ?_)⟩
          rw [← Bool.not_eq_true, ← hb]
          simp [Except.isOk, Except.toBool]

theorem pushImagesCallback_kept {sync : Except Exception Unit} {cb : Option PushImageFunc}
    (hk : s.Keeps (.pushImagesCallback sync cb)) :
    s.Kept print (.pushImagesCallback sync cb) := by
  unfold Sys.Kept exec pushImagesCallback
  cases cb with
  | none => exact ⟨_, _, _, rfl, h⟩
  | some cb =>
    cases sync with
    | error e => exact ⟨_, _, _, rfl, h⟩
    | ok u =>
      have hroom : (s.batch.images.length + s.batch.room : Int) ≤ s.batch.capacity.toInt := by
        have := h.fits
        rw [room]
        omega
      obtain ⟨r, b', o', e', g', hb⟩ := callbackLoop_grown print cb (o := s.objs) (k := 0) h hroom
      simp only [e', Option.map_some]
      cases r with
      | ok u => exact ⟨_, _, _, rfl, g'.exact⟩
      | error e =>
        refine ⟨_, _, _, rfl, restore_exact h g' (hk rfl ?_)⟩
        rw [← Bool.not_eq_true, ← hb]
        simp [Except.isOk, Except.toBool]

theorem popImages_kept {numImages : Int32} (hk : s.Keeps (.popImages numImages)) :
    s.Kept print (.popImages numImages) := by
  unfold Sys.Kept exec popImages
  by_cases hn : numImages < 0
  · simp only [if_pos hn]
    exact ⟨_, _, _, rfl, h⟩
  · simp only [if_neg hn]
    by_cases hu : s.batch.numImages - numImages < 0
    · simp only [if_pos hu]
      exact ⟨_, _, _, rfl, h⟩
    · simp only [if_neg hu]
      obtain ⟨⟨e⟩ | ⟨u⟩, o'⟩ := coreObjectDecRefs ((s.batch.images.drop
        (s.batch.images.length - numImages.toInt.toNat)).map BatchImage.handle).reverse s.objs
      · exact ⟨_, _, _, rfl, h⟩
      · have hlen := h.length
        have hle : 0 ≤ numImages.toInt ∧ numImages.toInt ≤ s.batch.images.length := by
          have hcap := h.fits
          have hlt := s.batch.capacity.toInt_lt
          rw [Int32.lt_iff_toInt_lt] at hn hu
          rw [Int32.toInt_sub_of_range, numImages_toInt h] at hu
          · simp only [Int32.toInt_zero] at hn hu
            omega
          · rw [numImages_toInt h]
            have := numImages.toInt_lt
            omega
          · rw [numImages_toInt h]
            simp only [Int32.toInt_zero] at hn
            omega
        have hk := hk (Int32.le_iff_toInt_le.2 hle.1) (by omega)
        rw [hlen]
        refine ⟨_, _, _, rfl, ?_⟩
        refine popped_exact h hk ?_ ?_ ?_ ?_ <;> split_ifs <;> rfl

theorem getImages_kept {begIndex numImages : Int32} {out : Bool}
    (hk : s.Keeps (.getImages begIndex out numImages)) :
    s.Kept print (.getImages begIndex out numImages) := by
  unfold Sys.Kept exec nvcvImageBatchVarShapeGetImages getImages
  cases out with
  | false => exact ⟨_, _, _, rfl, h⟩
  | true =>
    by_cases hb : begIndex < 0
    · simp only [if_pos hb]
      exact ⟨_, _, _, rfl, h⟩
    · simp only [if_neg hb]
      by_cases hs : begIndex + numImages > s.batch.numImages
      · simp only [if_pos hs]
        exact ⟨_, _, _, rfl, h⟩
      · have hin : ¬(0 < numImages ∧
            s.batch.images.length < begIndex.toInt.toNat + numImages.toInt.toNat) := by
          rintro ⟨h0, hlt⟩
          simp only [Int32.lt_iff_toInt_lt, gt_iff_lt, Int32.toInt_zero] at hb hs h0
          have hk : begIndex.toInt + numImages.toInt < 2 ^ 31 := hk
          rw [Int32.toInt_add_of_range (by omega) hk, numImages_toInt h] at hs
          omega
        simp only [if_neg hs, if_neg hin]
        generalize coreObjectIncRefs _ _ = r
        obtain ⟨⟨e⟩ | ⟨u⟩, o'⟩ := r
        · exact ⟨_, _, _, rfl, h⟩
        · exact ⟨_, _, _, rfl, h⟩

theorem clear_kept : s.Kept print .clear := by
  unfold Sys.Kept exec clear
  have hh := clearLoop_held h.held s.objs
  generalize clearLoop s.batch.images s.objs = r at hh
  obtain ⟨⟨e⟩ | ⟨u⟩, es, o'⟩ := r
  · exact ⟨_, _, _, rfl, h.congr hh rfl rfl rfl⟩
  · have hfits := h.fits
    refine ⟨_, _, _, rfl, .nil, ?_, fun s hs => (Option.some.inj hs).symm, ?_, ?_⟩
    · show ((0 : Nat) : Int) ≤ s.batch.capacity.toInt
      omega
    · intro f hf
      cases hf
    · intro hne
      exact absurd rfl hne

theorem exportData_kept (calls : ExportCalls) : s.Kept print (.exportData calls) := by
  unfold Sys.Kept exec exportData
  by_cases hd : s.batch.dirtyStartingFromIndex < s.batch.images.length
  · simp only [if_pos hd]
    have hu := uploadDirty_exact calls h
    generalize uploadDirty calls s.batch = r at hu
    obtain ⟨⟨e⟩ | ⟨u⟩, b'⟩ := r
    · exact ⟨_, _, _, rfl, hu⟩
    · simp only [exportAttributes_eq hu]
      exact ⟨_, _, _, rfl, doUpdateCache_exact hu⟩
  · simp only [if_neg hd, exportAttributes_eq h]
    exact ⟨_, _, _, rfl, doUpdateCache_exact h⟩

theorem maxSize_kept : s.Kept print .maxSize := by
  unfold Sys.Kept exec
  simp only [maxSize_eq h]
  exact ⟨_, _, _, rfl, doUpdateCache_exact h⟩

theorem uniqueFormat_kept : s.Kept print .uniqueFormat := by
  unfold Sys.Kept exec
  simp only [uniqueFormat_eq h]
  exact ⟨_, _, _, rfl, doUpdateCache_exact h⟩

/-- **Calls keep the caches exact**, and have an outcome. -/
theorem exec_exact {op : Op} (hk : s.Keeps op) : s.Kept print op := by
  cases op with
  | pushImages sync images numImages => exact pushImages_kept print h hk
  | pushImagesCallback sync cb => exact pushImagesCallback_kept print h hk
  | popImages numImages => exact popImages_kept print h hk
  | getImages begIndex out numImages => exact getImages_kept print h hk
  | clear => exact clear_kept print h
  | maxSize => exact maxSize_kept print h
  | uniqueFormat => exact uniqueFormat_kept print h
  | exportData calls => exact exportData_kept print h calls

end

/-! ## Runs -/

/-- The condition on what happens. -/
def Sys.Good (s : Sys) : Event → Prop
  | .call op _ => s.Keeps op
  | .others _ => True

/-- A step that meets the condition. -/
def Sys.GoodStep (print : ImageFormat → String) (s : Sys) (e : Event) (s' : Sys) : Prop :=
  s.Good e ∧ s.Step print e s'

theorem step_exact {print : ImageFormat → String} {s s' : Sys} {e : Event}
    (h : Exact s.batch s.images) (hs : s.GoodStep print e s') : Exact s'.batch s'.images := by
  obtain ⟨hg, hs⟩ := hs
  cases e with
  | others objs =>
    rw [Sys.Step] at hs
    subst hs
    exact h
  | call op result =>
    obtain ⟨he, hi⟩ := hs
    obtain ⟨result', b', o', he', hx⟩ := exec_exact print h hg
    rw [he, Option.some.injEq, Prod.mk.injEq, Prod.mk.injEq] at he'
    obtain ⟨rfl, rfl, -⟩ := he'
    rw [hi]
    exact hx

theorem new_exact {s : Sys} (h : s.New) : Exact s.batch s.images := by
  obtain ⟨capacity, devImages, devFormats, hc, hb⟩ := h.batch
  rw [hb, h.images]
  refine ⟨.nil, Int32.le_iff_toInt_le.1 hc, fun s hs => (Option.some.inj hs).symm, ?_, ?_⟩
  · intro f hf
    cases hf
  · intro hne
    exact absurd rfl hne

/-- **The attributes are exact** after every run that meets the condition: the batch has the images
its calls leave there, `maxSize` returns the maximum of their sizes and `uniqueFormat` the format
they all have, or none; and every further call that meets the condition has an outcome. -/
theorem runs_exact (print : ImageFormat → String) {s s' : Sys} {es : List Event} (hn : s.New)
    (hr : Run (Sys.GoodStep print) s es s') :
    List.Forall₂ Holds s'.batch.images s'.images ∧
      s'.batch.maxSize.map Prod.fst = some (maxSizeOf s'.images) ∧
      s'.batch.uniqueFormat.map Prod.fst = some (uniqueFormatOf s'.images) ∧
      ∀ op, s'.Keeps op → exec print s'.batch s'.objs op ≠ none := by
  have h : Exact s'.batch s'.images :=
    hr.inv (P := fun s => Exact s.batch s.images) (fun _ _ _ h hs => step_exact h hs)
      (new_exact hn)
  refine ⟨h.held, ?_, ?_, fun op hk => ?_⟩
  · rw [maxSize_eq h]
    rfl
  · rw [uniqueFormat_eq h]
    rfl
  · obtain ⟨result, b', o', he, -⟩ := exec_exact print h hk
    rw [he]
    exact Option.some_ne_none _

/-! ## Two runs -/

/-- The buffer of an image of one plane. -/
def onePlaneBuffer (w h : Int32) : ImageBufferStrided :=
  { numPlanes := 1, planes := .replicate _ ⟨w, h, w, 256⟩ }

theorem onePlane_size_pos {w h : Int32} (hw : 0 < w) (hh : 0 < h) : 0 < w ∧ 0 < h := ⟨hw, hh⟩

theorem onePlaneBuffer_size (w h : Int32) :
    (⟨(onePlaneBuffer w h).planes[0].width, (onePlaneBuffer w h).planes[0].height⟩ : Size2D) =
      ⟨w, h⟩ := rfl

/-- An image of one plane. -/
def onePlane (format : ImageFormat) (w h : Int32) (hw : 0 < w) (hh : 0 < h) : Image where
  format := format
  bufferType := .stridedCuda
  strided := onePlaneBuffer w h
  size := ⟨w, h⟩
  size_pos _ := onePlane_size_pos hw hh
  size_eq _ := onePlaneBuffer_size w h

def gray : Image := onePlane (1#64 <<< 35) 4 4 (by decide) (by decide)

def wide : Image := onePlane (3#64 <<< 35) 8 2 (by decide) (by decide)

/-- The image `gray` at 16 and `wide` at 32. -/
def twoImages : Objects Image := fun h =>
  if h = 16#64 then some (gray, 0) else if h = 32#64 then some (wide, 0) else none

def emptyBatch : Sys where
  batch :=
    { capacity := 4
      devImagesBuffer := fun _ => gray.strided
      devFormatsBuffer := fun _ => imageFormatNone }
  objs := twoImages
  images := []

theorem emptyBatch_new : emptyBatch.New := ⟨⟨4, _, _, by decide, rfl⟩, rfl⟩

/-- The state after a call. -/
def Sys.after (s : Sys) (op : Op) : Sys :=
  match exec (fun _ => "") s.batch s.objs op with
  | none => s
  | some (r, b, o) => ⟨b, o, s.imagesAfter op r⟩

theorem after_step {s : Sys} {op : Op} {r : Result}
    (h : (exec (fun _ => "") s.batch s.objs op).map Prod.fst = some r) :
    s.Step (fun _ => "") (.call op r) (s.after op) := by
  unfold Sys.after
  cases he : exec (fun _ => "") s.batch s.objs op with
  | none => simp [he] at h
  | some p =>
    simp only [he, Option.map_some, Option.some.injEq] at h
    subst h
    exact ⟨he, rfl⟩

/-- A push of `gray` and then what is at the handle `h`. -/
def pushGrayAnd (h : Addr) : Op :=
  .pushImages (.ok ()) (some fun i => if i = 0 then 16#64 else h) 2

/-- A push at whose second image, which does not exist, the call throws: `gray` was in the batch. -/
theorem runs_exact_grayThrice : ∃ s s' es, s.New ∧ Run (Sys.GoodStep fun _ => "") s es s' ∧
    s'.images = [gray, gray] ∧ s'.batch.maxSize.map Prod.fst = some ⟨4, 4⟩ ∧
    s'.batch.uniqueFormat.map Prod.fst = some gray.format := by
  have h₁ : emptyBatch.GoodStep (fun _ => "") (.call (pushGrayAnd 16#64) .done)
      (emptyBatch.after (pushGrayAnd 16#64)) :=
    ⟨⟨by decide, fun _ _ h => absurd h (by decide)⟩, after_step rfl⟩
  have h₂ : (emptyBatch.after (pushGrayAnd 16#64)).GoodStep (fun _ => "")
      (.call (pushGrayAnd 48#64) (.threw destroyedHandle))
      ((emptyBatch.after (pushGrayAnd 16#64)).after (pushGrayAnd 48#64)) :=
    ⟨⟨by decide, fun _ _ _ => .inr ⟨.inr rfl, rfl⟩⟩, after_step rfl⟩
  have hr := Run.cons h₁ (.cons h₂ (.nil _))
  obtain ⟨-, hm, hu, -⟩ := runs_exact _ emptyBatch_new hr
  exact ⟨_, _, _, emptyBatch_new, hr, rfl, hm, hu⟩

/-- The common format of `gray` and `wide` is none; with `wide` popped, it still is. -/
theorem pop_keeps_none : ∃ s s' es, s.New ∧ Run (Sys.Step fun _ => "") s es s' ∧
    s'.images = [gray] ∧ s'.batch.uniqueFormat.map Prod.fst ≠ some (uniqueFormatOf s'.images) := by
  have h₁ : emptyBatch.Step (fun _ => "") (.call (pushGrayAnd 32#64) .done)
      (emptyBatch.after (pushGrayAnd 32#64)) := after_step rfl
  have h₂ : (emptyBatch.after (pushGrayAnd 32#64)).Step (fun _ => "") (.call (.popImages 1) .done)
      ((emptyBatch.after (pushGrayAnd 32#64)).after (.popImages 1)) := after_step rfl
  exact ⟨_, _, _, emptyBatch_new, .cons h₁ (.cons h₂ (.nil _)), rfl, by decide⟩

-- A push that throws after `wide` leaves its width.
example : ((emptyBatch.after (pushGrayAnd 16#64)).after
    (.pushImages (.ok ()) (some fun i => if i = 0 then 32#64 else 48#64) 2)).batch.maxSize.map
      Prod.fst = some ⟨8, 4⟩ := by decide

end Nvcv.ImageBatchVarShape
