import CvCuda.Nvcv.Proof.ImageBatchCalls

/-! # The device buffers of a batch mirror its images

Below the watermark `m_dirtyStartingFromIndex` the device has what the images of the batch export,
after every run: pushes that throw included, and exports the runtime stops half-way.

* `Mirrored`: the invariant; `Mirrored.step`: what a call does to it.
* `runs_mirrored_images`: what the device has after a run, and after the next export.
-/

namespace Nvcv.ImageBatchVarShape

variable {b b' : ImageBatchVarShape} {o o' : Objects Image} {imgs imgs' : List Image}

/-- The batch has the images, the watermark is not above them, and the device has the images
below the watermark. -/
structure Mirrored (b : ImageBatchVarShape) (imgs : List Image) : Prop where
  held : List.Forall₂ Holds b.images imgs
  fits : (b.images.length : Int) ≤ b.capacity.toInt
  clean : b.dirtyStartingFromIndex ≤ imgs.length
  device : ∀ i img, i < b.dirtyStartingFromIndex → imgs[i]? = some img →
    b.devImagesBuffer i = img.strided ∧ b.devFormatsBuffer i = img.format

theorem Mirrored.length (h : Mirrored b imgs) : b.images.length = imgs.length :=
  h.held.length_eq

theorem Mirrored.congr (h : Mirrored b imgs) (hi : List.Forall₂ Holds b'.images imgs)
    (hc : b'.capacity = b.capacity) (hd : b'.dirtyStartingFromIndex = b.dirtyStartingFromIndex)
    (hv : b'.devImagesBuffer = b.devImagesBuffer)
    (hf : b'.devFormatsBuffer = b.devFormatsBuffer) : Mirrored b' imgs := by
  refine ⟨hi, ?_, hd ▸ h.clean, ?_⟩
  · rw [hi.length_eq, ← h.length, hc]
    exact h.fits
  · rw [hd, hv, hf]
    exact h.device

/-- Images above the watermark may come and go. -/
theorem Mirrored.regrown (h : Mirrored b imgs) (hi : List.Forall₂ Holds b'.images imgs')
    (hfit : (b'.images.length : Int) ≤ b'.capacity.toInt)
    (hd : b'.dirtyStartingFromIndex ≤ b.dirtyStartingFromIndex)
    (hl : b'.dirtyStartingFromIndex ≤ imgs'.length)
    (same : ∀ i < b'.dirtyStartingFromIndex, imgs'[i]? = imgs[i]?)
    (hv : b'.devImagesBuffer = b.devImagesBuffer)
    (hf : b'.devFormatsBuffer = b.devFormatsBuffer) : Mirrored b' imgs' := by
  refine ⟨hi, hfit, hl, fun i img hlt himg => ?_⟩
  rw [same i hlt] at himg
  rw [hv, hf]
  exact h.device i img (Nat.lt_of_lt_of_le hlt hd) himg

/-! ## What the calls do -/

theorem entries_held {l : List (Addr × Image)} (h : ∀ p ∈ l, p.2.bufferType = .stridedCuda) :
    List.Forall₂ Holds (entries l) (l.map Prod.snd) := by
  induction l with
  | nil => exact .nil
  | cons p l ih =>
    exact .cons ⟨rfl, rfl, h p (.head _)⟩ (ih fun q hq => h q (.tail _ hq))

/-- Images stored are appended to those of the batch. -/
theorem Mirrored.stored (h : Mirrored b imgs) {l : List (Addr × Image)} (hs : Stored b b' l) :
    Mirrored b' (imgs ++ l.map Prod.snd) := by
  obtain ⟨hi, hc, hd, hv, hf⟩ := storeImages_fields (b := b) l
  rw [← hs.eq] at hi hc hd hv hf
  refine h.regrown (hi ▸ List.rel_append h.held (entries_held hs.strided)) ?_ hd.le ?_ ?_ hv hf
  · by_cases hl : l = []
    · subst hl
      rw [hi, hc]
      simpa [entries] using h.fits
    · exact hs.room hl
  · rw [hd, List.length_append]
    exact Nat.le_add_right_of_le h.clean
  · intro i hlt
    exact List.getElem?_append_left (by have := h.clean; omega)

/-- A push that throws sets `m_numImages` back; the positions above may have been written. -/
theorem Mirrored.restored (h : Mirrored b imgs) {l : List (Addr × Image)} (hs : Stored b b' l) :
    Mirrored { b' with images := b'.images.take b.images.length } imgs := by
  obtain ⟨hi, hc, hd, hv, hf⟩ := storeImages_fields (b := b) l
  rw [← hs.eq] at hi hc hd hv hf
  have ht : b'.images.take b.images.length = b.images := by
    rw [hi, List.take_left]
  rw [ht]
  exact h.congr h.held hc hd hv hf

/-- The device after the copies of an export. -/
theorem Mirrored.uploaded (h : Mirrored b imgs) {calls : ExportCalls} {r : Except Exception Unit}
    (hu : uploadDirty calls b = (r, b')) :
    Mirrored b' imgs ∧ (r = .ok () → b'.dirtyStartingFromIndex = imgs.length) := by
  obtain ⟨dev, fmt, rfl, hlow, hhigh⟩ := uploadDirty_spec hu
  have hkept : ∀ i img, i < b.dirtyStartingFromIndex → imgs[i]? = some img →
      dev i = img.strided ∧ fmt i = img.format := by
    intro i img hlt himg
    obtain ⟨hv, hf⟩ := hlow i hlt
    rw [hv, hf]
    exact h.device i img hlt himg
  cases r with
  | error e => exact ⟨⟨h.held, h.fits, h.clean, hkept⟩, nofun⟩
  | ok u =>
    refine ⟨⟨h.held, h.fits, h.length.le, fun i img hlt himg => ?_⟩, fun _ => h.length⟩
    by_cases hd : i < b.dirtyStartingFromIndex
    · exact hkept i img hd himg
    · have hi : i < b.images.length := hlt
      obtain ⟨hdev, hfmt⟩ := hhigh rfl i b.images[i] (by omega) (List.getElem?_eq_getElem hi)
      have hh : Holds b.images[i] img := by
        obtain ⟨hl, rfl⟩ := List.getElem?_eq_some_iff.1 himg
        exact h.held.get hi hl
      exact ⟨hdev.trans hh.buffer, hfmt.trans hh.format⟩

theorem Mirrored.cached (h : Mirrored b imgs) : Mirrored b.doUpdateCache imgs := by
  obtain ⟨hi, hc, hd, hv, hf⟩ := doUpdateCache_fields b
  exact h.congr (hi ▸ h.held) hc hd hv hf

/-- **The calls keep the mirror**, whatever their outcome. -/
theorem Mirrored.step {s : Sys} (h : Mirrored s.batch s.images) {op : Op} {r : Result}
    (he : Effect s.batch s.objs op r b' o') : Mirrored b' (s.imagesAfter op r) := by
  cases he with
  | threw e =>
    rw [imagesAfter_threw]
    exact h
  | pushed stored passed objs moved imgs =>
    have hm := h.stored stored
    rwa [imgs] at hm
  | pushThrew e stored fits passed moved imgs => exact h.restored stored
  | pushedBack stored handed imgs =>
    have hm := h.stored stored
    rwa [imgs] at hm
  | pushBackThrew e stored imgs => exact h.restored stored
  | @popped n b₁ o₁ nonneg enough released eq =>
    have hm : Mirrored b₁ (s.images.take (s.images.length - n.toInt.toNat)) := by
      subst eq
      rw [h.length]
      have hheld : List.Forall₂ Holds (s.batch.images.take (s.images.length - n.toInt.toNat))
          (s.images.take (s.images.length - n.toInt.toNat)) := List.forall₂_take _ h.held
      refine h.regrown hheld ?_ (Nat.min_le_left _ _) ?_ (fun i hlt => ?_) rfl rfl
      · have := h.fits
        rw [List.length_take]
        show ((min _ _ : Nat) : Int) ≤ s.batch.capacity.toInt
        omega
      · rw [← hheld.length_eq]
        exact Nat.min_le_right _ _
      · have hlt : i < min s.batch.dirtyStartingFromIndex
            (s.batch.images.take (s.images.length - n.toInt.toNat)).length := hlt
        rw [List.length_take] at hlt
        exact List.getElem?_take_of_lt (by omega)
    split_ifs
    · exact hm.congr hm.held rfl rfl rfl rfl
    · exact hm
  | popThrew e released => exact h
  | got eq acquired => exact h
  | getThrew e acquired => exact h
  | cleared released =>
    refine ⟨.nil, ?_, Nat.le_refl 0, fun i img hlt => absurd hlt (Nat.not_lt_zero i)⟩
    have := h.fits
    show ((0 : Nat) : Int) ≤ s.batch.capacity.toInt
    omega
  | @clearThrew es o₁ e released =>
    have hes := clearLoop_held h.held s.objs
    rw [released] at hes
    exact h.congr hes rfl rfl rfl rfl
  | maxSize eq => exact h.cached
  | uniqueFormat eq => exact h.cached
  | exportThrew e dirty upload => exact (h.uploaded upload).1
  | exported upload attributes =>
    rcases upload with ⟨hd, hu⟩ | ⟨hd, rfl⟩
    · exact (h.uploaded hu).1.cached
    · exact h.cached

/-- After an export nothing is dirty. -/
theorem Mirrored.exported {s : Sys} (h : Mirrored s.batch s.images) {calls : ExportCalls}
    {data : ImageBatchData}
    (he : Effect s.batch s.objs (.exportData calls) (.exported data) b' o') :
    b'.dirtyStartingFromIndex = s.images.length ∧ data.numImages.toInt = s.images.length := by
  cases he with
  | @exported _ b₁ _ upload attributes =>
    have hb : Mirrored b₁ s.images ∧ b₁.dirtyStartingFromIndex = s.images.length := by
      rcases upload with ⟨hd, hu⟩ | ⟨hd, rfl⟩
      · obtain ⟨hm, hdirty⟩ := h.uploaded hu
        exact ⟨hm, hdirty rfl⟩
      · have := h.clean
        rw [h.length] at hd
        exact ⟨h, by omega⟩
    obtain ⟨hm, hdirty⟩ := hb
    obtain ⟨-, -, hd, -, -⟩ := doUpdateCache_fields b₁
    refine ⟨hd.trans hdirty, ?_⟩
    obtain ⟨_, hx, -, hn⟩ := exportAttributes_spec attributes
    cases hx
    rw [hn, toInt_numImages hm.cached.fits, hm.cached.length]

/-! ## Runs -/

theorem Sys.New.mirrored {s : Sys} (h : s.New) : Mirrored s.batch s.images := by
  obtain ⟨capacity, devImages, devFormats, hc, hb⟩ := h.batch
  rw [hb, h.images]
  exact ⟨.nil, Int32.le_iff_toInt_le.1 hc, Nat.le_refl 0,
    fun i img hlt => absurd hlt (Nat.not_lt_zero i)⟩

theorem step_mirrored {print : ImageFormat → String} {s s' : Sys} {e : Event}
    (h : Mirrored s.batch s.images) (hs : s.Step print e s') : Mirrored s'.batch s'.images := by
  cases e with
  | others objs =>
    rw [Sys.Step] at hs
    subst hs
    exact h
  | call op result =>
    obtain ⟨he, hi⟩ := hs
    rw [hi]
    exact h.step (exec_effect he)

/-- **The device buffers mirror the batch** after every run: it has the images its calls leave
there, the watermark is not above them, and below it the device has what they export. An export
that succeeds then leaves the device with all of them, in order; and every further call whose sums
do not wrap has an outcome. -/
theorem runs_mirrored_images (print : ImageFormat → String) {s s' : Sys} {es : List Event}
    (hn : s.New) (hr : Run (Sys.Step print) s es s') :
    List.Forall₂ Holds s'.batch.images s'.images ∧
      s'.batch.dirtyStartingFromIndex ≤ s'.batch.images.length ∧
      (∀ i e, i < s'.batch.dirtyStartingFromIndex → s'.batch.images[i]? = some e →
        s'.batch.devImagesBuffer i = e.buffer ∧ s'.batch.devFormatsBuffer i = e.format) ∧
      (∀ calls data s'', s'.Step print (.call (.exportData calls) (.exported data)) s'' →
        s''.images = s'.images ∧ data.numImages.toInt = s'.images.length ∧
          ∀ i img, s'.images[i]? = some img →
            s''.batch.devImagesBuffer i = img.strided ∧
              s''.batch.devFormatsBuffer i = img.format) ∧
      ∀ op, s'.batch.InRange op → exec print s'.batch s'.objs op ≠ none := by
  have h : Mirrored s'.batch s'.images :=
    hr.inv (P := fun s => Mirrored s.batch s.images) (fun _ _ _ h hs => step_mirrored h hs)
      hn.mirrored
  refine ⟨h.held, h.length ▸ h.clean, fun i e hlt he => ?_, fun calls data s'' hs => ?_,
    fun op hk => ?_⟩
  · obtain ⟨hi, rfl⟩ := List.getElem?_eq_some_iff.1 he
    have hl : i < s'.images.length := h.length ▸ hi
    have hh : Holds s'.batch.images[i] s'.images[i] := h.held.get hi hl
    obtain ⟨hv, hf⟩ := h.device i _ hlt (List.getElem?_eq_getElem hl)
    exact ⟨hv.trans hh.buffer.symm, hf.trans hh.format.symm⟩
  · have h'' := step_mirrored h hs
    obtain ⟨he, hi⟩ := hs
    obtain ⟨hd, hdata⟩ := h.exported (exec_effect he)
    refine ⟨hi, hdata, fun i img himg => h''.device i img ?_ (by rw [hi]; exact himg)⟩
    rw [hd]
    exact (List.getElem?_eq_some_iff.1 himg).1
  · obtain ⟨r, he⟩ := exec_some print h.fits hk
    rw [he]
    exact Option.some_ne_none _

/-- `gray` and `wide` exported, `wide` popped, and a push that throws after it stored `gray`. -/
theorem runs_mirrored_images_popped : ∃ s s' es, s.New ∧ Run (Sys.Step fun _ => "") s es s' ∧
    s'.images = [gray] ∧ s'.batch.dirtyStartingFromIndex = 1 ∧
    (s'.batch.devImagesBuffer 0).planes[0].width = 4 ∧
    s'.batch.dirtyStartingFromIndex ≤ s'.batch.images.length := by
  have h₁ : emptyBatch.Step (fun _ => "") (.call (pushGrayAnd 32#64) .done)
      (emptyBatch.after (pushGrayAnd 32#64)) := after_step rfl
  have h₂ : (emptyBatch.after (pushGrayAnd 32#64)).Step (fun _ => "")
      (.call (.exportData {}) (.exported ⟨2, 8, 4, imageFormatNone⟩)) _ := after_step rfl
  have h₃ : ((emptyBatch.after (pushGrayAnd 32#64)).after (.exportData {})).Step (fun _ => "")
      (.call (.popImages 1) .done) _ := after_step rfl
  have h₄ : (((emptyBatch.after (pushGrayAnd 32#64)).after (.exportData {})).after
      (.popImages 1)).Step (fun _ => "") (.call (pushGrayAnd 48#64) (.threw destroyedHandle)) _ :=
    after_step rfl
  have hr := Run.cons h₁ (.cons h₂ (.cons h₃ (.cons h₄ (.nil _))))
  obtain ⟨-, hle, -⟩ := runs_mirrored_images _ emptyBatch_new hr
  exact ⟨_, _, _, emptyBatch_new, hr, rfl, rfl, rfl, hle⟩

end Nvcv.ImageBatchVarShape
