import CvCuda.Nvcv.Proof.ImageBatchVarShape

/-! # The calls of batches of images

What a call does to the batch and to the references on the images, whatever state it finds:

* `storeImages`: the batch after images are stored; `pushLoop_spec`, `callbackLoop_spec`: what the
  loops of the pushes stored, and the references they took.
* `uploadDirty_spec`, `clearLoop_fields`: what exports and `clear` write.
* `exec_effect`: every outcome of a call is one of `Effect`.
* `exec_some`: a call has an outcome unless a sum of 32 bits wraps.
-/

namespace Nvcv.ImageBatchVarShape

open RefStore

variable {b b' : ImageBatchVarShape} {o o' : Objects Image} {imgs acc : List Image}

/-! ## Storing images -/

/-- The batch with images stored, one after the other. -/
def storeImages (b : ImageBatchVarShape) (l : List (Addr × Image)) : ImageBatchVarShape :=
  l.foldl (fun b p => b.storeImage p.1 p.2) b

/-- The host buffers' elements for images. -/
def entries (l : List (Addr × Image)) : List BatchImage :=
  l.map fun p => ⟨p.2.strided, p.2.format, p.1⟩

@[simp] theorem storeImages_nil : b.storeImages [] = b := rfl

@[simp] theorem storeImages_cons (p : Addr × Image) (l : List (Addr × Image)) :
    b.storeImages (p :: l) = (b.storeImage p.1 p.2).storeImages l := rfl

theorem storeImage_fields (h : Addr) (img : Image) :
    (b.storeImage h img).images = b.images ++ [⟨img.strided, img.format, h⟩] ∧
      (b.storeImage h img).capacity = b.capacity ∧
      (b.storeImage h img).dirtyStartingFromIndex = b.dirtyStartingFromIndex ∧
      (b.storeImage h img).devImagesBuffer = b.devImagesBuffer ∧
      (b.storeImage h img).devFormatsBuffer = b.devFormatsBuffer := by
  unfold storeImage
  by_cases hl : (b.images ++ [(⟨img.strided, img.format, h⟩ : BatchImage)]).length = 1
  · simp only [if_pos hl, and_self]
  · simp only [if_neg hl, and_self]

/-- Storing images appends them and writes nothing on the device. -/
theorem storeImages_fields (l : List (Addr × Image)) :
    (b.storeImages l).images = b.images ++ entries l ∧
      (b.storeImages l).capacity = b.capacity ∧
      (b.storeImages l).dirtyStartingFromIndex = b.dirtyStartingFromIndex ∧
      (b.storeImages l).devImagesBuffer = b.devImagesBuffer ∧
      (b.storeImages l).devFormatsBuffer = b.devFormatsBuffer := by
  induction l generalizing b with
  | nil => exact ⟨(List.append_nil _).symm, rfl, rfl, rfl, rfl⟩
  | cons p l ih =>
    obtain ⟨i₁, c₁, d₁, v₁, f₁⟩ := storeImage_fields (b := b) p.1 p.2
    obtain ⟨i₂, c₂, d₂, v₂, f₂⟩ := ih (b := b.storeImage p.1 p.2)
    rw [storeImages_cons]
    refine ⟨?_, c₂.trans c₁, d₂.trans d₁, v₂.trans v₁, f₂.trans f₁⟩
    rw [i₂, i₁, List.append_assoc]
    rfl

/-! ## The loops of the pushes -/

theorem doPushImage_spec {print : ImageFormat → String} {h : Addr}
    {r : Except Exception Unit} (hp : doPushImage print h b o = some (r, b')) :
    (∃ e, r = .error e ∧ b' = b ∧ pushable h o = none) ∨
      ∃ img, r = .ok () ∧ b' = b.storeImage h img ∧ pushable h o = some img ∧
        o.obj h = some img ∧ img.bufferType = .stridedCuda ∧
        b.images.length < b.capacity.toInt := by
  unfold doPushImage at hp
  split_ifs at hp with hc
  unfold pushable
  unfold toStaticRef at hp
  cases ho : o.obj h with
  | none =>
    simp only [ho, Option.some.injEq, Prod.mk.injEq] at hp
    obtain ⟨rfl, rfl⟩ := hp
    exact .inl ⟨_, rfl, rfl, rfl⟩
  | some img =>
    simp only [ho] at hp
    unfold checkImage at hp
    by_cases hl : img.format.memLayout = memLayoutPL
    · by_cases ht : img.bufferType = .stridedCuda
      · simp only [hl, ht, ne_eq, not_true_eq_false, if_false, Option.some.injEq,
          Prod.mk.injEq] at hp
        obtain ⟨rfl, rfl⟩ := hp
        exact .inr ⟨img, rfl, rfl, by simp [hl, ht], rfl, ht, by omega⟩
      · simp only [hl, ht, ne_eq, not_true_eq_false, not_false_eq_true, if_false, if_true,
          Option.some.injEq, Prod.mk.injEq] at hp
        obtain ⟨rfl, rfl⟩ := hp
        exact .inl ⟨_, rfl, rfl, by simp [ht]⟩
    · simp only [hl, ne_eq, not_false_eq_true, if_true, Option.some.injEq, Prod.mk.injEq] at hp
      obtain ⟨rfl, rfl⟩ := hp
      exact .inl ⟨_, rfl, rfl, by simp [hl]⟩

/-- `b'` is `b` with the images `l` stored, for which there was room. -/
structure Stored (b b' : ImageBatchVarShape) (l : List (Addr × Image)) : Prop where
  eq : b' = b.storeImages l
  strided : ∀ p ∈ l, p.2.bufferType = .stridedCuda
  room : l ≠ [] → (b'.images.length : Int) ≤ b'.capacity.toInt

theorem Stored.refl (b : ImageBatchVarShape) : Stored b b [] :=
  ⟨rfl, by simp, fun h => absurd rfl h⟩

theorem Stored.cons {h : Addr} {img : Image} {l : List (Addr × Image)}
    (hs : Stored (b.storeImage h img) b' l) (ht : img.bufferType = .stridedCuda)
    (hc : (b.images.length : Int) < b.capacity.toInt) : Stored b b' ((h, img) :: l) := by
  refine ⟨hs.eq, fun p hp => ?_, fun _ => ?_⟩
  · rcases List.mem_cons.1 hp with rfl | hp
    · exact ht
    · exact hs.strided p hp
  · by_cases hl : l = []
    · subst hl
      obtain ⟨hi, hcap, -⟩ := storeImage_fields (b := b) h img
      rw [hs.eq, storeImages_nil, hi, hcap, List.length_append, List.length_singleton]
      omega
    · exact hs.room hl

/-- **The loop of `pushImages`**: it stores the images up to the first it refuses, and takes a
reference on each. -/
theorem pushLoop_spec {print : ImageFormat → String} {hs : List Addr} {r : Except Exception Unit}
    (h : pushLoop print hs b o = some (r, b', o')) :
    ∃ l rest, Stored b b' l ∧ hs = l.map Prod.fst ++ rest ∧
      l.map Prod.snd = (pushed o hs).1 ∧ (∀ p ∈ l, o.obj p.1 = some p.2) ∧
      o.Moved o' [] ((l.map Prod.fst).filter (· ≠ 0)) ∧
      (r = .ok () → rest = []) ∧ (r.isOk ↔ (pushed o hs).2) := by
  induction hs generalizing b o with
  | nil =>
    simp only [pushLoop, Option.some.injEq, Prod.mk.injEq] at h
    obtain ⟨rfl, rfl, rfl⟩ := h
    exact ⟨[], [], .refl _, rfl, rfl, by simp, .refl _, fun _ => rfl,
      by simp [pushed, Except.isOk, Except.toBool]⟩
  | cons x xs ih =>
    rw [pushLoop] at h
    cases hd : doPushImage print x b o with
    | none => simp [hd] at h
    | some q =>
      obtain ⟨q, b₁⟩ := q
      rcases doPushImage_spec hd with ⟨e, rfl, rfl, hp⟩ | ⟨img, rfl, rfl, hp, ho, ht, hc⟩
      · simp only [hd, Option.some.injEq, Prod.mk.injEq] at h
        obtain ⟨rfl, rfl, rfl⟩ := h
        refine ⟨[], x :: xs, .refl _, rfl, ?_, by simp, Moved.refl _,
          (fun hr => by cases hr), ?_⟩
        · rw [pushed, hp]
          rfl
        · rw [pushed, hp]
          simp [Except.isOk, Except.toBool]
      · have hinc : ∃ n o₁, (if x = 0 then (.ok 0, o) else coreObjectIncRef x o) =
            ((.ok n : Except Exception Nat), o₁) ∧ o.Moved o₁ [] ([x].filter (· ≠ 0)) := by
          by_cases hx : x = 0
          · refine ⟨0, o, if_pos hx, ?_⟩
            rw [List.filter_cons_of_neg (by simpa using hx)]
            exact .refl o
          · obtain ⟨o₁, e₁, m₁⟩ := coreObjectIncRef_spec (refs_pos.2 (by rw [ho]; simp))
            refine ⟨_, o₁, by rw [if_neg hx, e₁], ?_⟩
            rw [List.filter_cons_of_pos (by simpa using hx)]
            exact m₁
        obtain ⟨n, o₁, e₁, m₁⟩ := hinc
        simp only [hd, e₁] at h
        obtain ⟨l, rest, hst, hhs, himg, hobj, hm, hrest, hok⟩ := ih h
        have ho₁ : o₁.obj = o.obj := m₁.obj_eq
        rw [pushed_congr ho₁] at himg hok
        refine ⟨(x, img) :: l, rest, hst.cons ht hc, by rw [hhs]; rfl, ?_, fun p hp => ?_, ?_,
          hrest, ?_⟩
        · rw [pushed, hp, List.map_cons, himg]
        · rcases List.mem_cons.1 hp with rfl | hp
          · exact ho
          · rw [← ho₁]
            exact hobj p hp
        · have := m₁.trans hm
          rwa [← List.filter_append] at this
        · rw [pushed, hp]
          exact hok

/-- The handles a callback hands over in a call of `pushImages`, and the objects after its calls;
the last handle may be one that is refused. -/
def handedBack (cbPushImage : PushImageFunc) :
    (room k : Nat) → Objects Image → List Addr × Objects Image
  | room, k, o =>
    match cbPushImage k o with
    | (.error _, o) => ([], o)
    | (.ok h, o) =>
      if h = 0 then ([], o)
      else
        match room with
        | 0 => ([h], o)
        | room + 1 =>
          match pushable h o with
          | none => ([h], o)
          | some _ =>
            let r := handedBack cbPushImage room (k + 1) o
            (h :: r.1, r.2)

/-- **The loop of `pushImages` with a callback**: it stores the images the callback hands over, up
to the first that is refused. -/
theorem callbackLoop_spec {print : ImageFormat → String} {cb : PushImageFunc} {room k : Nat}
    {r : Except Exception Unit} (h : callbackLoop print cb room k b o = some (r, b', o')) :
    ∃ l rest, Stored b b' l ∧ (handedBack cb room k o).1 = l.map Prod.fst ++ rest ∧
      (handedBack cb room k o).2 = o' ∧ l.map Prod.snd = (pushedBack cb room k o).1 ∧
      (r = .ok () → rest = []) ∧ (r.isOk ↔ (pushedBack cb room k o).2) := by
  induction room generalizing b o k with
  | zero =>
    rw [callbackLoop] at h
    rw [handedBack, pushedBack]
    rcases hcb : cb k o with ⟨⟨e⟩ | ⟨x⟩, o₁⟩
    · simp only [hcb, Option.some.injEq, Prod.mk.injEq] at h
      obtain ⟨rfl, rfl, rfl⟩ := h
      exact ⟨[], [], .refl _, rfl, rfl, rfl, fun _ => rfl, by simp [Except.isOk, Except.toBool]⟩
    · by_cases hx : x = 0
      · simp only [hcb, hx, if_true, Option.some.injEq, Prod.mk.injEq] at h
        obtain ⟨rfl, rfl, rfl⟩ := h
        refine ⟨[], [], .refl _, ?_⟩
        simp only [if_pos hx]
        simp [Except.isOk, Except.toBool]
      · simp only [hcb, hx, if_false, Option.some.injEq, Prod.mk.injEq] at h
        obtain ⟨rfl, rfl, rfl⟩ := h
        refine ⟨[], [x], .refl _, ?_⟩
        simp only [if_neg hx]
        simp [Except.isOk, Except.toBool]
  | succ room ih =>
    rw [callbackLoop] at h
    rw [handedBack, pushedBack]
    rcases hcb : cb k o with ⟨⟨e⟩ | ⟨x⟩, o₁⟩
    · simp only [hcb, Option.some.injEq, Prod.mk.injEq] at h
      obtain ⟨rfl, rfl, rfl⟩ := h
      exact ⟨[], [], .refl _, rfl, rfl, rfl, fun _ => rfl, by simp [Except.isOk, Except.toBool]⟩
    · by_cases hx : x = 0
      · simp only [hcb, hx, if_true, Option.some.injEq, Prod.mk.injEq] at h
        obtain ⟨rfl, rfl, rfl⟩ := h
        refine ⟨[], [], .refl _, ?_⟩
        simp only [if_pos hx]
        simp [Except.isOk, Except.toBool]
      · simp only [hcb, hx, if_false] at h
        simp only [if_neg hx]
        cases hd : doPushImage print x b o₁ with
        | none => simp [hd] at h
        | some q =>
          obtain ⟨q, b₁⟩ := q
          rcases doPushImage_spec hd with ⟨e, rfl, rfl, hp⟩ | ⟨img, rfl, rfl, hp, -, ht, hc⟩
          · simp only [hd, Option.some.injEq, Prod.mk.injEq] at h
            obtain ⟨rfl, rfl, rfl⟩ := h
            rw [hp]
            exact ⟨[], [x], .refl _, rfl, rfl, rfl, (fun hr => by cases hr),
              by simp [Except.isOk, Except.toBool]⟩
          · simp only [hd] at h
            obtain ⟨l, rest, hst, hh, ho, himg, hrest, hok⟩ := ih h
            rw [hp]
            refine ⟨(x, img) :: l, rest, hst.cons ht hc, ?_, ho, ?_, hrest, hok⟩
            · simp only [hh, List.map_cons, List.cons_append]
            · simp only [himg, List.map_cons]

/-! ## The other calls -/

theorem doUpdateCache_fields (b : ImageBatchVarShape) :
    b.doUpdateCache.images = b.images ∧ b.doUpdateCache.capacity = b.capacity ∧
      b.doUpdateCache.dirtyStartingFromIndex = b.dirtyStartingFromIndex ∧
      b.doUpdateCache.devImagesBuffer = b.devImagesBuffer ∧
      b.doUpdateCache.devFormatsBuffer = b.devFormatsBuffer := by
  unfold doUpdateCache
  split_ifs <;> exact ⟨rfl, rfl, rfl, rfl, rfl⟩

/-- A copy to the device writes the elements that are dirty, those the host has. -/
theorem copyDirty_spec {α : Type} (first : Nat) (host : List α) (dev : Nat → α) (i : Nat) :
    (i < first → copyDirty first host dev i = dev i) ∧
      ∀ a, first ≤ i → host[i]? = some a → copyDirty first host dev i = a := by
  unfold copyDirty
  refine ⟨fun h => if_neg (by omega), fun a h ha => ?_⟩
  rw [if_pos h, List.getD_eq_getElem?_getD, ha, Option.getD_some]

/-- The copies leave the elements that are clean alone; when all went well, the dirty ones are
those of the host buffers. -/
theorem uploadDirty_spec {calls : ExportCalls} {r : Except Exception Unit}
    (h : uploadDirty calls b = (r, b')) :
    ∃ dev fmt, b' = { b with
        devImagesBuffer := dev, devFormatsBuffer := fmt
        dirtyStartingFromIndex :=
          if r.isOk then b.images.length else b.dirtyStartingFromIndex } ∧
      (∀ i < b.dirtyStartingFromIndex,
        dev i = b.devImagesBuffer i ∧ fmt i = b.devFormatsBuffer i) ∧
      (r.isOk → ∀ i e, b.dirtyStartingFromIndex ≤ i → b.images[i]? = some e →
        dev i = e.buffer ∧ fmt i = e.format) := by
  have himg := copyDirty_spec b.dirtyStartingFromIndex (b.images.map BatchImage.buffer)
    b.devImagesBuffer
  have hfmt := copyDirty_spec b.dirtyStartingFromIndex (b.images.map BatchImage.format)
    b.devFormatsBuffer
  unfold uploadDirty at h
  cases hw : calls.streamWaitEvent with
  | error e =>
    simp only [hw, Prod.mk.injEq] at h
    obtain ⟨rfl, rfl⟩ := h
    exact ⟨_, _, rfl, fun i _ => ⟨rfl, rfl⟩, by simp [Except.isOk, Except.toBool]⟩
  | ok u =>
    cases hi : calls.memcpyImages with
    | error e =>
      simp only [hw, hi, Prod.mk.injEq] at h
      obtain ⟨rfl, rfl⟩ := h
      exact ⟨_, _, rfl, fun i _ => ⟨rfl, rfl⟩, by simp [Except.isOk, Except.toBool]⟩
    | ok u =>
      cases hf : calls.memcpyFormats with
      | error e =>
        simp only [hw, hi, hf, Prod.mk.injEq] at h
        obtain ⟨rfl, rfl⟩ := h
        exact ⟨_, _, rfl, fun i hd => ⟨(himg i).1 hd, rfl⟩,
          by simp [Except.isOk, Except.toBool]⟩
      | ok u =>
        cases hr : calls.eventRecord with
        | error e =>
          simp only [hw, hi, hf, hr, Prod.mk.injEq] at h
          obtain ⟨rfl, rfl⟩ := h
          exact ⟨_, _, rfl, fun i hd => ⟨(himg i).1 hd, (hfmt i).1 hd⟩,
            by simp [Except.isOk, Except.toBool]⟩
        | ok u =>
          simp only [hw, hi, hf, hr, Prod.mk.injEq] at h
          obtain ⟨rfl, rfl⟩ := h
          refine ⟨_, _, rfl, fun i hd => ⟨(himg i).1 hd, (hfmt i).1 hd⟩, fun _ i e hd he => ?_⟩
          have he' : ∀ {β : Type} (g : BatchImage → β), (b.images.map g)[i]? = some (g e) := by
            intro β g
            rw [List.getElem?_map, he]
            rfl
          exact ⟨(himg i).2 _ hd (he' _), (hfmt i).2 _ hd (he' _)⟩

/-- `clear` writes the handles only. -/
theorem clearLoop_fields (es : List BatchImage) (o : Objects Image) :
    (clearLoop es o).2.1.map BatchImage.buffer = es.map BatchImage.buffer ∧
      (clearLoop es o).2.1.map BatchImage.format = es.map BatchImage.format := by
  induction es generalizing o with
  | nil => exact ⟨rfl, rfl⟩
  | cons e es ih =>
    rw [clearLoop]
    obtain ⟨⟨x⟩ | ⟨n⟩, o₁⟩ := coreObjectDecRef e.handle o
    · exact ⟨rfl, rfl⟩
    · obtain ⟨h₁, h₂⟩ := ih o₁
      exact ⟨congrArg (List.cons e.buffer) h₁, congrArg (List.cons e.format) h₂⟩

/-! ## The calls -/

/-- What calls do, each with its result. The images a push stores before it throws are no longer
in the batch, but in its caches. -/
inductive Effect (b : ImageBatchVarShape) (o : Objects Image) :
    Op → Result → ImageBatchVarShape → Objects Image → Prop where
  | threw {op : Op} (e : Exception) : Effect b o op (.threw e) b o
  | pushed {images : Nat → Addr} {n : Int32} {l : List (Addr × Image)} {b' : ImageBatchVarShape}
      {o' : Objects Image} (stored : Stored b b' l) (passed : handles images n = l.map Prod.fst)
      (objs : ∀ p ∈ l, o.obj p.1 = some p.2)
      (moved : o.Moved o' [] ((l.map Prod.fst).filter (· ≠ 0)))
      (imgs : l.map Prod.snd = (pushed o (handles images n)).1) :
      Effect b o (.pushImages (.ok ()) (some images) n) .done b' o'
  | pushThrew {images : Nat → Addr} {n : Int32} {l : List (Addr × Image)} {rest : List Addr}
      {b' : ImageBatchVarShape} {o' : Objects Image} (e : Exception) (stored : Stored b b' l)
      (fits : ¬n + b.numImages > b.capacity) (passed : handles images n = l.map Prod.fst ++ rest)
      (moved : o.Moved o' [] ((l.map Prod.fst).filter (· ≠ 0)))
      (imgs : pushed o (handles images n) = (l.map Prod.snd, false)) :
      Effect b o (.pushImages (.ok ()) (some images) n) (.threw e)
        { b' with images := b'.images.take b.images.length } o'
  | pushedBack {cb : PushImageFunc} {l : List (Addr × Image)} {b' : ImageBatchVarShape}
      (stored : Stored b b' l) (handed : (handedBack cb b.room 0 o).1 = l.map Prod.fst)
      (imgs : l.map Prod.snd = (pushedBack cb b.room 0 o).1) :
      Effect b o (.pushImagesCallback (.ok ()) (some cb)) .done b' (handedBack cb b.room 0 o).2
  | pushBackThrew {cb : PushImageFunc} {l : List (Addr × Image)} {b' : ImageBatchVarShape}
      (e : Exception) (stored : Stored b b' l)
      (imgs : pushedBack cb b.room 0 o = (l.map Prod.snd, false)) :
      Effect b o (.pushImagesCallback (.ok ()) (some cb)) (.threw e)
        { b' with images := b'.images.take b.images.length } (handedBack cb b.room 0 o).2
  | popped {n : Int32} {b' : ImageBatchVarShape} {o' : Objects Image} (nonneg : ¬n < 0)
      (enough : ¬b.numImages - n < 0)
      (released : coreObjectDecRefs ((b.images.drop (b.images.length - n.toInt.toNat)).map
        BatchImage.handle).reverse o = (.ok (), o'))
      (eq : b' = { b with
        images := b.images.take (b.images.length - n.toInt.toNat)
        dirtyStartingFromIndex := min b.dirtyStartingFromIndex
          (b.images.take (b.images.length - n.toInt.toNat)).length
        cacheMaxSize := none }) :
      Effect b o (.popImages n) .done
        (if b'.images.length = 0 then { b' with cacheUniqueFormat := none } else b') o'
  | popThrew {n : Int32} {o' : Objects Image} (e : Exception)
      (released : coreObjectDecRefs ((b.images.drop (b.images.length - n.toInt.toNat)).map
        BatchImage.handle).reverse o = (.error e, o')) :
      Effect b o (.popImages n) (.threw e) b o'
  | got {beg n : Int32} {out : List Addr} {o' : Objects Image}
      (eq : out = ((b.images.drop beg.toInt.toNat).take n.toInt.toNat).map BatchImage.handle)
      (acquired : coreObjectIncRefs (out.filter (· ≠ 0)) o = (.ok (), o')) :
      Effect b o (.getImages beg true n) (.got out) b o'
  | getThrew {beg n : Int32} {o' : Objects Image} (e : Exception)
      (acquired : coreObjectIncRefs ((((b.images.drop beg.toInt.toNat).take n.toInt.toNat).map
        BatchImage.handle).filter (· ≠ 0)) o = (.error e, o')) :
      Effect b o (.getImages beg true n) (.threw e) b o'
  | cleared {es : List BatchImage} {o' : Objects Image}
      (released : clearLoop b.images o = (.ok (), es, o')) :
      Effect b o .clear .done { b with
        images := []
        dirtyStartingFromIndex := 0
        cacheMaxSize := some ⟨0, 0⟩
        cacheUniqueFormat := none } o'
  | clearThrew {es : List BatchImage} {o' : Objects Image} (e : Exception)
      (released : clearLoop b.images o = (.error e, es, o')) :
      Effect b o .clear (.threw e) { b with images := es } o'
  | maxSize {s : Size2D} (eq : b.maxSize = some (s, b.doUpdateCache)) :
      Effect b o .maxSize (.size s) b.doUpdateCache o
  | uniqueFormat {f : ImageFormat} (eq : b.uniqueFormat = some (f, b.doUpdateCache)) :
      Effect b o .uniqueFormat (.format f) b.doUpdateCache o
  | exportThrew {calls : ExportCalls} {b' : ImageBatchVarShape} (e : Exception)
      (dirty : b.dirtyStartingFromIndex < b.images.length)
      (upload : uploadDirty calls b = (.error e, b')) :
      Effect b o (.exportData calls) (.threw e) b' o
  | exported {calls : ExportCalls} {b' : ImageBatchVarShape} {data : ImageBatchData}
      (upload : b.dirtyStartingFromIndex < b.images.length ∧ uploadDirty calls b = (.ok (), b') ∨
        ¬b.dirtyStartingFromIndex < b.images.length ∧ b' = b)
      (attributes : b'.exportAttributes = some (.ok data, b'.doUpdateCache)) :
      Effect b o (.exportData calls) (.exported data) b'.doUpdateCache o

section
variable {print : ImageFormat → String} {r : Result}

theorem pushImages_effect {sync : Except Exception Unit} {images : Option (Nat → Addr)}
    {n : Int32} (h : exec print b o (.pushImages sync images n) = some (r, b', o')) :
    Effect b o (.pushImages sync images n) r b' o' := by
  unfold exec pushImages at h
  cases images with
  | none =>
    simp only [Option.map_some, Option.some.injEq, Prod.mk.injEq] at h
    obtain ⟨rfl, rfl, rfl⟩ := h
    exact .threw _
  | some images =>
    by_cases hc : n + b.numImages > b.capacity
    · simp only [if_pos hc, Option.map_some, Option.some.injEq, Prod.mk.injEq] at h
      obtain ⟨rfl, rfl, rfl⟩ := h
      exact .threw _
    · simp only [if_neg hc] at h
      cases sync with
      | error e =>
        simp only [Option.map_some, Option.some.injEq, Prod.mk.injEq] at h
        obtain ⟨rfl, rfl, rfl⟩ := h
        exact .threw _
      | ok u =>
        cases hp : pushLoop print (handles images n) b o with
        | none => simp [hp] at h
        | some q =>
          obtain ⟨q, b₁, o₁⟩ := q
          obtain ⟨l, rest, hst, hhs, himg, hobj, hm, hrest, hok⟩ := pushLoop_spec hp
          cases q with
          | ok u =>
            simp only [hp, Option.map_some, restoreNumImages, Option.some.injEq,
              Prod.mk.injEq] at h
            obtain ⟨rfl, rfl, rfl⟩ := h
            rw [hrest rfl, List.append_nil] at hhs
            exact .pushed hst hhs hobj hm himg
          | error e =>
            simp only [hp, Option.map_some, restoreNumImages, Option.some.injEq,
              Prod.mk.injEq] at h
            obtain ⟨rfl, rfl, rfl⟩ := h
            refine .pushThrew e hst hc hhs hm (Prod.ext himg.symm ?_)
            simpa [Except.isOk, Except.toBool] using hok

theorem pushImagesCallback_effect {sync : Except Exception Unit} {cb : Option PushImageFunc}
    (h : exec print b o (.pushImagesCallback sync cb) = some (r, b', o')) :
    Effect b o (.pushImagesCallback sync cb) r b' o' := by
  unfold exec pushImagesCallback at h
  cases cb with
  | none =>
    simp only [Option.map_some, Option.some.injEq, Prod.mk.injEq] at h
    obtain ⟨rfl, rfl, rfl⟩ := h
    exact .threw _
  | some cb =>
    cases sync with
    | error e =>
      simp only [Option.map_some, Option.some.injEq, Prod.mk.injEq] at h
      obtain ⟨rfl, rfl, rfl⟩ := h
      exact .threw _
    | ok u =>
      cases hp : callbackLoop print cb b.room 0 b o with
      | none => simp [hp] at h
      | some q =>
        obtain ⟨q, b₁, o₁⟩ := q
        obtain ⟨l, rest, hst, hhs, ho, himg, hrest, hok⟩ := callbackLoop_spec hp
        subst ho
        cases q with
        | ok u =>
          simp only [hp, Option.map_some, restoreNumImages, Option.some.injEq,
            Prod.mk.injEq] at h
          obtain ⟨rfl, rfl, rfl⟩ := h
          rw [hrest rfl, List.append_nil] at hhs
          exact .pushedBack hst hhs himg
        | error e =>
          simp only [hp, Option.map_some, restoreNumImages, Option.some.injEq,
            Prod.mk.injEq] at h
          obtain ⟨rfl, rfl, rfl⟩ := h
          refine .pushBackThrew e hst (Prod.ext himg.symm ?_)
          simpa [Except.isOk, Except.toBool] using hok

theorem popImages_effect {n : Int32} (h : exec print b o (.popImages n) = some (r, b', o')) :
    Effect b o (.popImages n) r b' o' := by
  unfold exec popImages at h
  by_cases hn : n < 0
  · simp only [if_pos hn, Option.some.injEq, Prod.mk.injEq] at h
    obtain ⟨rfl, rfl, rfl⟩ := h
    exact .threw _
  · by_cases hu : b.numImages - n < 0
    · simp only [if_neg hn, if_pos hu, Option.some.injEq, Prod.mk.injEq] at h
      obtain ⟨rfl, rfl, rfl⟩ := h
      exact .threw _
    · simp only [if_neg hn, if_neg hu] at h
      rcases hd : coreObjectDecRefs ((b.images.drop (b.images.length - n.toInt.toNat)).map
        BatchImage.handle).reverse o with ⟨⟨e⟩ | ⟨u⟩, o₁⟩
      · simp only [hd, Option.some.injEq, Prod.mk.injEq] at h
        obtain ⟨rfl, rfl, rfl⟩ := h
        exact .popThrew e hd
      · simp only [hd, Option.some.injEq, Prod.mk.injEq] at h
        obtain ⟨rfl, rfl, rfl⟩ := h
        exact .popped hn hu hd rfl

theorem getImages_effect {beg n : Int32} {out : Bool}
    (h : exec print b o (.getImages beg out n) = some (r, b', o')) :
    Effect b o (.getImages beg out n) r b' o' := by
  unfold exec nvcvImageBatchVarShapeGetImages getImages at h
  cases out with
  | false =>
    simp only [if_true, Option.map_some, Option.some.injEq, Prod.mk.injEq] at h
    obtain ⟨rfl, rfl, rfl⟩ := h
    exact .threw _
  | true =>
    simp only [Bool.true_eq_false, if_false] at h
    by_cases h₁ : beg < 0
    · simp only [if_pos h₁, Option.map_some, Option.some.injEq, Prod.mk.injEq] at h
      obtain ⟨rfl, rfl, rfl⟩ := h
      exact .threw _
    · by_cases h₂ : beg + n > b.numImages
      · simp only [if_neg h₁, if_pos h₂, Option.map_some, Option.some.injEq, Prod.mk.injEq] at h
        obtain ⟨rfl, rfl, rfl⟩ := h
        exact .threw _
      · simp only [if_neg h₁, if_neg h₂] at h
        rcases hi : coreObjectIncRefs ((((b.images.drop beg.toInt.toNat).take
          n.toInt.toNat).map BatchImage.handle).filter (· ≠ 0)) o with ⟨⟨e⟩ | ⟨u⟩, o₁⟩
        · simp only [hi, Option.map_some, Option.some.injEq, Prod.mk.injEq] at h
          obtain ⟨rfl, rfl, rfl⟩ := h
          exact .getThrew e hi
        · by_cases h₃ : 0 < n ∧ b.images.length < beg.toInt.toNat + n.toInt.toNat
          · simp only [hi, if_pos h₃, Option.map_none, reduceCtorEq] at h
          · simp only [hi, if_neg h₃, Option.map_some, Option.some.injEq, Prod.mk.injEq] at h
            obtain ⟨rfl, rfl, rfl⟩ := h
            exact .got rfl hi

theorem clear_effect (h : exec print b o .clear = some (r, b', o')) :
    Effect b o .clear r b' o' := by
  unfold exec clear at h
  rcases hd : clearLoop b.images o with ⟨⟨e⟩ | ⟨u⟩, es, o₁⟩
  · simp only [hd, Option.some.injEq, Prod.mk.injEq] at h
    obtain ⟨rfl, rfl, rfl⟩ := h
    exact .clearThrew e hd
  · simp only [hd, Option.some.injEq, Prod.mk.injEq] at h
    obtain ⟨rfl, rfl, rfl⟩ := h
    exact .cleared hd

theorem exportAttributes_spec {x : Except Exception ImageBatchData}
    (h : b.exportAttributes = some (x, b')) :
    ∃ data, x = .ok data ∧ b' = b.doUpdateCache ∧ data.numImages = b'.numImages := by
  unfold exportAttributes at h
  simp only at h
  split at h
  · simp only [Option.some.injEq, Prod.mk.injEq] at h
    obtain ⟨rfl, rfl⟩ := h
    exact ⟨_, rfl, rfl, rfl⟩
  · cases h

theorem exportData_effect {calls : ExportCalls}
    (h : exec print b o (.exportData calls) = some (r, b', o')) :
    Effect b o (.exportData calls) r b' o' := by
  unfold exec exportData at h
  by_cases hd : b.dirtyStartingFromIndex < b.images.length
  · simp only [if_pos hd] at h
    rcases hu : uploadDirty calls b with ⟨⟨e⟩ | ⟨u⟩, b₁⟩
    · simp only [hu, Option.map_some, Option.some.injEq, Prod.mk.injEq] at h
      obtain ⟨rfl, rfl, rfl⟩ := h
      exact .exportThrew e hd hu
    · cases ha : b₁.exportAttributes with
      | none => simp [hu, ha] at h
      | some q =>
        obtain ⟨x, b₂⟩ := q
        obtain ⟨data, rfl, rfl, -⟩ := exportAttributes_spec ha
        simp only [hu, ha, Option.map_some, Option.some.injEq, Prod.mk.injEq] at h
        obtain ⟨rfl, rfl, rfl⟩ := h
        exact .exported (.inl ⟨hd, hu⟩) ha
  · simp only [if_neg hd] at h
    cases ha : b.exportAttributes with
    | none => simp [ha] at h
    | some q =>
      obtain ⟨x, b₂⟩ := q
      obtain ⟨data, rfl, rfl, -⟩ := exportAttributes_spec ha
      simp only [ha, Option.map_some, Option.some.injEq, Prod.mk.injEq] at h
      obtain ⟨rfl, rfl, rfl⟩ := h
      exact .exported (.inr ⟨hd, rfl⟩) ha

/-- **The calls**: every outcome of a call is one of `Effect`. -/
theorem exec_effect {op : Op} (h : exec print b o op = some (r, b', o')) :
    Effect b o op r b' o' := by
  cases op with
  | pushImages sync images n => exact pushImages_effect h
  | pushImagesCallback sync cb => exact pushImagesCallback_effect h
  | popImages n => exact popImages_effect h
  | getImages beg out n => exact getImages_effect h
  | clear => exact clear_effect h
  | maxSize =>
    have hs := h
    simp only [exec, ImageBatchVarShape.maxSize, Option.map_map, Option.map_eq_some_iff] at hs
    obtain ⟨s, hs, he⟩ := hs
    simp only [Function.comp, Prod.mk.injEq] at he
    obtain ⟨rfl, rfl, rfl⟩ := he
    exact .maxSize (by rw [ImageBatchVarShape.maxSize, hs]; rfl)
  | uniqueFormat =>
    have hs := h
    simp only [exec, ImageBatchVarShape.uniqueFormat, Option.map_map,
      Option.map_eq_some_iff] at hs
    obtain ⟨s, hs, he⟩ := hs
    simp only [Function.comp, Prod.mk.injEq] at he
    obtain ⟨rfl, rfl, rfl⟩ := he
    exact .uniqueFormat (by rw [ImageBatchVarShape.uniqueFormat, hs]; rfl)
  | exportData calls => exact exportData_effect h

end

/-- A call that throws leaves the images there are. -/
theorem imagesAfter_threw (s : Sys) (op : Op) (e : Exception) :
    s.imagesAfter op (.threw e) = s.images := by
  cases op with
  | pushImages sync images n => cases images <;> rfl
  | pushImagesCallback sync cb => cases cb <;> rfl
  | popImages n => rfl
  | getImages beg out n => rfl
  | clear => rfl
  | maxSize => rfl
  | uniqueFormat => rfl
  | exportData calls => rfl

/-! ## Calls that have an outcome -/

/-- No sum of 32 bits in the call wraps. -/
def InRange (b : ImageBatchVarShape) : Op → Prop
  | .pushImages _ (some _) numImages => numImages.toInt + b.images.length < 2 ^ 31
  | .getImages begIndex _ numImages => begIndex.toInt + numImages.toInt < 2 ^ 31
  | _ => True

theorem toInt_numImages (h : (b.images.length : Int) ≤ b.capacity.toInt) :
    b.numImages.toInt = b.images.length := by
  have := b.capacity.toInt_lt
  exact Int32.toInt_ofNat_of_lt (by omega)

theorem doPushImage_some (print : ImageFormat → String) (h : Addr)
    (hr : b.images.length < b.capacity.toInt) :
    ∃ r b', doPushImage print h b o = some (r, b') := by
  cases hp : pushable h o with
  | none =>
    obtain ⟨e, he⟩ := doPushImage_refused print hp hr
    exact ⟨_, _, he⟩
  | some img =>
    obtain ⟨he, -⟩ := doPushImage_pushable print hp hr
    exact ⟨_, _, he⟩

theorem pushLoop_some (print : ImageFormat → String) {hs : List Addr}
    (hr : b.images.length + hs.length ≤ b.capacity.toInt) :
    ∃ r b' o', pushLoop print hs b o = some (r, b', o') := by
  induction hs generalizing b o with
  | nil => exact ⟨_, _, _, rfl⟩
  | cons x xs ih =>
    rw [List.length_cons] at hr
    rw [pushLoop]
    obtain ⟨r, b₁, hd⟩ := doPushImage_some print x (b := b) (o := o) (by omega)
    rw [hd]
    rcases doPushImage_spec hd with ⟨e, rfl, rfl, -⟩ | ⟨img, rfl, rfl, -⟩
    · exact ⟨_, _, _, rfl⟩
    · obtain ⟨hi, hc, -⟩ := storeImage_fields (b := b) x img
      have hroom : ((b.storeImage x img).images.length : Int) + xs.length ≤
          (b.storeImage x img).capacity.toInt := by
        rw [hi, hc, List.length_append, List.length_singleton]
        omega
      rcases (if x = 0 then (.ok 0, o) else coreObjectIncRef x o :
        Except Exception Nat × Objects Image) with ⟨⟨e⟩ | ⟨n⟩, o₁⟩
      · exact ⟨_, _, _, rfl⟩
      · exact ih hroom

theorem callbackLoop_some (print : ImageFormat → String) (cb : PushImageFunc) {room k : Nat}
    (hr : b.images.length + room ≤ b.capacity.toInt) :
    ∃ r b' o', callbackLoop print cb room k b o = some (r, b', o') := by
  induction room generalizing b o k with
  | zero =>
    rw [callbackLoop]
    rcases cb k o with ⟨⟨e⟩ | ⟨x⟩, o₁⟩
    · exact ⟨_, _, _, rfl⟩
    · by_cases hx : x = 0
      · exact ⟨_, _, _, if_pos hx⟩
      · exact ⟨_, _, _, if_neg hx⟩
  | succ room ih =>
    rw [callbackLoop]
    rcases cb k o with ⟨⟨e⟩ | ⟨x⟩, o₁⟩
    · exact ⟨_, _, _, rfl⟩
    · by_cases hx : x = 0
      · exact ⟨_, _, _, if_pos hx⟩
      · simp only [if_neg hx]
        obtain ⟨r, b₁, hd⟩ := doPushImage_some print x (b := b) (o := o₁) (by omega)
        rw [hd]
        rcases doPushImage_spec hd with ⟨e, rfl, rfl, -⟩ | ⟨img, rfl, rfl, -⟩
        · exact ⟨_, _, _, rfl⟩
        · obtain ⟨hi, hc, -⟩ := storeImage_fields (b := b) x img
          apply ih
          rw [hi, hc, List.length_append, List.length_singleton]
          omega

theorem doUpdateCache_some (b : ImageBatchVarShape) :
    ∃ s f, b.doUpdateCache.cacheMaxSize = some s ∧ b.doUpdateCache.cacheUniqueFormat = some f := by
  unfold doUpdateCache
  by_cases h : b.cacheMaxSize.isSome ∧ b.cacheUniqueFormat.isSome
  · obtain ⟨s, hs⟩ := Option.isSome_iff_exists.1 h.1
    obtain ⟨f, hf⟩ := Option.isSome_iff_exists.1 h.2
    exact ⟨s, f, by rw [if_pos h, hs], by rw [if_pos h, hf]⟩
  · rw [if_neg h]
    exact ⟨_, _, rfl, rfl⟩

theorem exportAttributes_some (b : ImageBatchVarShape) :
    ∃ r, b.exportAttributes = some r := by
  obtain ⟨s, f, hs, hf⟩ := b.doUpdateCache_some
  simp only [exportAttributes, hs, hf]
  exact ⟨_, rfl⟩

/-- **Every call in range has an outcome** while the batch fits in its buffers. -/
theorem exec_some (print : ImageFormat → String) (h : (b.images.length : Int) ≤ b.capacity.toInt)
    {op : Op} (hr : b.InRange op) : ∃ r, exec print b o op = some r := by
  cases op with
  | pushImages sync images n =>
    unfold exec pushImages
    rcases images with _ | images
    · exact ⟨_, rfl⟩
    · have hr : n.toInt + b.images.length < 2 ^ 31 := hr
      by_cases hc : n + b.numImages > b.capacity
      · simp only [if_pos hc]
        exact ⟨_, rfl⟩
      · simp only [if_neg hc]
        rcases sync with e | u
        · exact ⟨_, rfl⟩
        · have hroom : (b.images.length : Int) + (handles images n).length ≤
              b.capacity.toInt := by
            have hsum : (n + b.numImages).toInt = n.toInt + b.images.length := by
              have := n.le_toInt
              rw [Int32.toInt_add_of_range, toInt_numImages h] <;> rw [toInt_numImages h] <;> omega
            rw [gt_iff_lt, Int32.lt_iff_toInt_lt, hsum] at hc
            rw [handles, List.length_map, List.length_range]
            omega
          obtain ⟨q, b₁, o₁, hp⟩ := pushLoop_some print (o := o) hroom
          simp only [hp, Option.map_some]
          exact ⟨_, rfl⟩
  | pushImagesCallback sync cb =>
    unfold exec pushImagesCallback
    rcases cb with _ | cb
    · exact ⟨_, rfl⟩
    · rcases sync with e | u
      · exact ⟨_, rfl⟩
      · have hroom : (b.images.length : Int) + b.room ≤ b.capacity.toInt := by
          rw [room]
          omega
        obtain ⟨q, b₁, o₁, hp⟩ := callbackLoop_some print cb (o := o) (k := 0) hroom
        simp only [hp, Option.map_some]
        exact ⟨_, rfl⟩
  | popImages n => exact ⟨_, rfl⟩
  | getImages beg out n =>
    have hr : beg.toInt + n.toInt < 2 ^ 31 := hr
    unfold exec nvcvImageBatchVarShapeGetImages getImages
    cases out with
    | false => exact ⟨_, rfl⟩
    | true =>
      simp only [Bool.true_eq_false, if_false]
      by_cases h₁ : beg < 0
      · simp only [if_pos h₁]
        exact ⟨_, rfl⟩
      · by_cases h₂ : beg + n > b.numImages
        · simp only [if_neg h₁, if_pos h₂]
          exact ⟨_, rfl⟩
        · have h₃ : ¬(0 < n ∧ b.images.length < beg.toInt.toNat + n.toInt.toNat) := by
            rintro ⟨h0, hlt⟩
            simp only [Int32.lt_iff_toInt_lt, gt_iff_lt, Int32.toInt_zero] at h₁ h₂ h0
            rw [Int32.toInt_add_of_range (by omega) hr, toInt_numImages h] at h₂
            omega
          simp only [if_neg h₁, if_neg h₂, if_neg h₃]
          rcases coreObjectIncRefs ((((b.images.drop beg.toInt.toNat).take n.toInt.toNat).map
            BatchImage.handle).filter (· ≠ 0)) o with ⟨⟨e⟩ | ⟨u⟩, o₁⟩
          · exact ⟨_, rfl⟩
          · exact ⟨_, rfl⟩
  | clear => exact ⟨_, rfl⟩
  | maxSize =>
    obtain ⟨s, f, hs, -⟩ := b.doUpdateCache_some
    unfold exec maxSize
    simp only [hs]
    exact ⟨_, rfl⟩
  | uniqueFormat =>
    obtain ⟨s, f, -, hf⟩ := b.doUpdateCache_some
    unfold exec uniqueFormat
    simp only [hf]
    exact ⟨_, rfl⟩
  | exportData calls =>
    unfold exec exportData
    by_cases hd : b.dirtyStartingFromIndex < b.images.length
    · simp only [if_pos hd]
      rcases uploadDirty calls b with ⟨⟨e⟩ | ⟨u⟩, b₁⟩
      · exact ⟨_, rfl⟩
      · obtain ⟨r, hr⟩ := b₁.exportAttributes_some
        simp only [hr]
        exact ⟨_, rfl⟩
    · obtain ⟨r, hr⟩ := b.exportAttributes_some
      simp only [if_neg hd, hr]
      exact ⟨_, rfl⟩

end Nvcv.ImageBatchVarShape
