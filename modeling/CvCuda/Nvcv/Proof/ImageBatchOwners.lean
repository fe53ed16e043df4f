import CvCuda.Nvcv.ImageBatchOwners
import CvCuda.Nvcv.Proof.ImageBatchCalls

/-! # The references a batch of images owns

After every run whose calls `Shared.Good` describes, the references on each image are one for each
position that holds it and those of the other owners, and a push that throws has changed neither.

* `Owns`: the invariant; `Delivers.accounted`: what a callback does to it.
* `step_owns`: every good step keeps it.
* `runs_owned_images`: what holds after a run; `push_leaks`: a run after which it does not.
-/

namespace Nvcv.ImageBatchVarShape

open RefStore

variable {b b' : ImageBatchVarShape} {o o' : Objects Image}

/-- The references on each image are one for each position that holds it, and those of others. -/
structure Owns (s : Shared) : Prop where
  images : Accounted 0 (fun x => s.batch.imgHandles.count x) s.images
  fits : (s.batch.images.length : Int) ≤ s.batch.capacity.toInt

/-! ## The handles of a batch -/

theorem imgHandles_stored {l : List (Addr × Image)} (hs : Stored b b' l) :
    b'.imgHandles = b.imgHandles ++ l.map Prod.fst := by
  obtain ⟨hi, -⟩ := storeImages_fields (b := b) l
  rw [← hs.eq] at hi
  rw [imgHandles, hi, List.map_append, entries, List.map_map]
  rfl

theorem Stored.fits {l : List (Addr × Image)} (hs : Stored b b' l)
    (h : (b.images.length : Int) ≤ b.capacity.toInt) :
    (b'.images.length : Int) ≤ b'.capacity.toInt := by
  by_cases hl : l = []
  · subst hl
    rw [hs.eq, storeImages_nil]
    exact h
  · exact hs.room hl

/-- The positions below `m_numImages` of before are those of before. -/
theorem Stored.take {l : List (Addr × Image)} (hs : Stored b b' l) :
    b'.images.take b.images.length = b.images ∧ b'.capacity = b.capacity := by
  obtain ⟨hi, hc, -⟩ := storeImages_fields (b := b) l
  rw [← hs.eq] at hi hc
  exact ⟨by rw [hi, List.take_left], hc⟩

theorem accounted_ne_null {w : Owned Addr Image} {held : Addr → Nat} (h : Accounted 0 held w)
    {x : Addr} (hx : 0 < w.objs.refs x) : x ≠ 0 := by
  rintro rfl
  have := h.null
  omega

theorem count_drop_le (b : ImageBatchVarShape) (k : Nat) (x : Addr) :
    ((b.images.drop k).map BatchImage.handle).reverse.count x ≤ b.imgHandles.count x := by
  rw [List.count_reverse]
  exact ((List.drop_sublist k _).map _).count_le x

/-- `clear` releases the reference at every position, if they are there. -/
theorem clearLoop_spec {es : List BatchImage} (h0 : ∀ e ∈ es, e.handle ≠ 0)
    (h : ∀ x, (es.map BatchImage.handle).count x ≤ o.refs x) :
    ∃ es' o', clearLoop es o = (.ok (), es', o') ∧ o.Moved o' (es.map BatchImage.handle) [] := by
  induction es generalizing o with
  | nil => exact ⟨[], o, rfl, .refl o⟩
  | cons e es ih =>
    have he : 0 < o.refs e.handle := by
      have hc := h e.handle
      rw [List.map_cons, List.count_cons_self] at hc
      omega
    obtain ⟨o₁, e₁, m₁⟩ := coreObjectDecRef_spec (h0 e (List.mem_cons_self ..)) he
    have hl : ∀ y, (es.map BatchImage.handle).count y ≤ o₁.refs y := by
      intro y
      have hr := m₁.refs y
      have hc := h y
      simp only [List.map_cons, List.count_cons, List.count_nil, Nat.add_zero, Nat.zero_add]
        at hr hc
      omega
    obtain ⟨es', o₂, e₂, m₂⟩ := ih (fun y hy => h0 y (List.mem_cons_of_mem _ hy)) hl
    refine ⟨{ e with handle := 0 } :: es', o₂, ?_, m₁.trans m₂⟩
    rw [clearLoop, e₁]
    simp only [e₂]

/-! ## Callbacks -/

/-- What is left of the references of the owners: those on the images taken are held by the push. -/
theorem Delivers.accounted {cb : PushImageFunc} {room k : Nat} {w w' : Owned Addr Image}
    {hs : List Addr} (hd : Delivers cb room k w hs w') {held : Addr → Nat}
    (h : Accounted 0 held w) : Accounted 0 (fun x => held x + hs.count x) w' := by
  induction hd generalizing held with
  | threw call steps => simpa using (steps.accounted h).1
  | stop call steps => simpa using (steps.accounted h).1
  | refused call ne steps refused => simpa using (steps.accounted h).1
  | @took room k w w₁ w' x hs call ne steps own taken rest ih =>
    obtain ⟨h₁, -⟩ := steps.accounted h
    have h₂ : Accounted 0 (fun y => held y + [x].count y)
        ⟨w₁.objs, Function.update w₁.owned x (w₁.owned x - 1)⟩ := by
      refine h₁.moved (.refl _) (by simp) fun y => ?_
      by_cases hyx : y = x
      · subst hyx
        simp only [Function.update_self, List.count_nil, List.count_cons_self]
        omega
      · simp [hyx, Ne.symm hyx]
    have h₃ := ih h₂
    convert h₃ using 2 with y
    rw [List.count_cons, List.count_cons, List.count_nil]
    omega

/-- The handles a push takes are those it stores: the first that the callback hands over. -/
theorem Delivers.handed {cb : PushImageFunc} {room k : Nat} {w w' : Owned Addr Image}
    {hs : List Addr} (hd : Delivers cb room k w hs w') :
    (∃ rest, (handedBack cb room k w.objs).1 = hs ++ rest) ∧
      hs.length = (pushedBack cb room k w.objs).1.length := by
  induction hd with
  | threw call steps =>
    unfold handedBack pushedBack
    rw [call]
    exact ⟨⟨_, rfl⟩, rfl⟩
  | stop call steps =>
    unfold handedBack pushedBack
    rw [call]
    exact ⟨⟨_, rfl⟩, rfl⟩
  | @refused room k w w' x call ne steps refused =>
    unfold handedBack pushedBack
    simp only [call, if_neg ne]
    rcases room with _ | room
    · exact ⟨⟨_, rfl⟩, rfl⟩
    · rw [refused.resolve_left (Nat.succ_ne_zero room)]
      exact ⟨⟨_, rfl⟩, rfl⟩
  | @took room k w w₁ w' x hs call ne steps own taken rest ih =>
    obtain ⟨img, himg⟩ := Option.ne_none_iff_exists'.1 taken
    obtain ⟨⟨rest, hr⟩, hl⟩ := ih
    unfold handedBack pushedBack
    simp only [call, if_neg ne, himg]
    exact ⟨⟨rest, by rw [hr]; rfl⟩, by rw [List.length_cons, List.length_cons, hl]⟩

/-- The images stored have the handles the push took. -/
theorem Delivers.stored {cb : PushImageFunc} {room : Nat} {w w' : Owned Addr Image}
    {hs : List Addr} (hd : Delivers cb room 0 w hs w') {l : List (Addr × Image)}
    (handed : (handedBack cb room 0 w.objs).1 = l.map Prod.fst)
    (imgs : l.map Prod.snd = (pushedBack cb room 0 w.objs).1) : l.map Prod.fst = hs := by
  obtain ⟨⟨rest, hr⟩, hl⟩ := hd.handed
  have hlen : (l.map Prod.fst).length = hs.length := by
    rw [hl, ← imgs, List.length_map, List.length_map]
  have hrest : rest = [] := by
    have := congrArg List.length (handed.symm.trans hr)
    rw [List.length_append] at this
    exact List.length_eq_zero_iff.1 (by omega)
  rw [← handed, hr, hrest, List.append_nil]

/-! ## Pushes that throw -/

/-- Images that show in no attribute of a batch when they are pushed and taken back. -/
def Unnoticed (b : ImageBatchVarShape) (acc : List Image) : Prop :=
  acc = [] ∨ b.images ≠ [] ∧
    (∀ s, b.cacheMaxSize = some s → ∀ img ∈ acc, img.size.w ≤ s.w ∧ img.size.h ≤ s.h) ∧
      ∀ f, b.cacheUniqueFormat = some f → f = imageFormatNone ∨ ∀ img ∈ acc, img.format = f

theorem max_of_le {x y : Int32} (h : y ≤ x) : max x y = x := by
  rw [← Int32.toInt_inj, Int32.toInt_max]
  exact max_eq_left (Int32.le_iff_toInt_le.1 h)

theorem storeImage_unnoticed {h : Addr} {img : Image} (hne : b.images ≠ [])
    (hm : ∀ s, b.cacheMaxSize = some s → img.size.w ≤ s.w ∧ img.size.h ≤ s.h)
    (hf : ∀ f, b.cacheUniqueFormat = some f → f = imageFormatNone ∨ img.format = f) :
    b.storeImage h img =
      { b with images := b.images ++ [⟨img.strided, img.format, h⟩] } := by
  have hl : ¬(b.images ++ [(⟨img.strided, img.format, h⟩ : BatchImage)]).length = 1 := by
    have := List.length_pos_iff.2 hne
    rw [List.length_append, List.length_singleton]
    omega
  have hmax : (b.cacheMaxSize.map fun s => maxSizes s img.size) = b.cacheMaxSize := by
    cases hs : b.cacheMaxSize with
    | none => rfl
    | some s =>
      obtain ⟨hw, hh⟩ := hm s hs
      rw [Option.map_some, maxSizes, max_of_le hw, max_of_le hh]
  have huni : (b.cacheUniqueFormat.map fun f =>
      if f ≠ img.format then imageFormatNone else f) = b.cacheUniqueFormat := by
    cases hs : b.cacheUniqueFormat with
    | none => rfl
    | some f =>
      rw [Option.map_some]
      rcases hf f hs with rfl | rfl
      · exact congrArg some (ite_self _)
      · rw [if_neg (not_not_intro rfl)]
  unfold storeImage
  simp only [if_neg hl, hmax, huni]

/-- **A push taken back** leaves the batch it found, if what it stored is unnoticed. -/
theorem restored_eq {l : List (Addr × Image)} (hs : Stored b b' l)
    (hu : Unnoticed b (l.map Prod.snd)) :
    { b' with images := b'.images.take b.images.length } = b := by
  rw [hs.take.1]
  rcases hu with hl | ⟨hne, hm, hf⟩
  · have hl : l = [] := List.map_eq_nil_iff.1 hl
    subst hl
    rw [hs.eq, storeImages_nil]
  · have hstore : b.storeImages l = { b with images := b.images ++ entries l } := by
      clear hs
      induction l generalizing b with
      | nil => simp [entries]
      | cons p l ih =>
        have hp : b.storeImage p.1 p.2 =
            { b with images := b.images ++ [⟨p.2.strided, p.2.format, p.1⟩] } :=
          storeImage_unnoticed hne (fun s hs => hm s hs _ (by simp))
            fun f hs => (hf f hs).imp_right fun h => h _ (by simp)
        rw [storeImages_cons, hp, ih]
        · simp [entries]
        · simp
        · exact fun s hs img hi => hm s hs img (by simp at hi ⊢; exact .inr hi)
        · exact fun f hs => (hf f hs).imp_right fun h img hi => h img (by simp at hi ⊢; exact .inr hi)
    rw [hs.eq, hstore]

/-! ## The condition -/

/-- The images an array has that a push gets to and stores. -/
def Shared.GoodPush (s : Shared) (eventSynchronize : Except Exception Unit) (images : Nat → Addr)
    (numImages : Int32) : Prop :=
  let r := pushed s.images.objs (handles images numImages)
  eventSynchronize = .ok () →
    numImages.toInt + s.batch.images.length ≤ s.batch.capacity.toInt → r.2 = false → r.1 = []

/-- **The condition** on a call: a sum of 32 bits does not wrap, an array has no image before the
first that is refused, and what a callback hands over before its push throws is unnoticed. -/
def Shared.Good (s : Shared) : Op → Prop
  | .pushImages sync (some images) numImages =>
    numImages.toInt + s.batch.images.length < 2 ^ 31 ∧ s.GoodPush sync images numImages
  | .pushImagesCallback (.ok ()) (some cbPushImage) =>
    let r := pushedBack cbPushImage s.batch.room 0 s.images.objs
    r.2 = false → Unnoticed s.batch r.1
  | .getImages begIndex _ numImages => begIndex.toInt + numImages.toInt < 2 ^ 31
  | _ => True

theorem Shared.Good.inRange {s : Shared} {op : Op} (h : s.Good op) : s.batch.InRange op := by
  cases op with
  | pushImages sync images n =>
    cases images with
    | none => trivial
    | some images => exact h.1
  | getImages beg out n => exact h
  | _ => trivial

/-- A step whose calls meet the condition. -/
def Shared.GoodStep (print : ImageFormat → String) (s : Shared) (e : Shared.Event) (s' : Shared) :
    Prop :=
  (∀ op r, e = .call op r → s.Good op) ∧ s.Step print e s'

/-! ## What a good call does -/

def Op.Pushes : Op → Prop
  | .pushImages .. | .pushImagesCallback .. => True
  | _ => False

/-- The positions and the references on behalf of others after a call that runs no callback. -/
structure Kept (s : Shared) (op : Op) (r : Result) (b' : ImageBatchVarShape) (o' : Objects Image) :
    Prop where
  images : Accounted 0 (fun x => b'.imgHandles.count x)
    ⟨o', fun x => s.images.owned x + r.given.count x⟩
  fits : (b'.images.length : Int) ≤ b'.capacity.toInt
  threw : ∀ e, r = .threw e → op.Pushes → b' = s.batch ∧ o' = s.images.objs

section
variable {s : Shared} (h : Owns s)
include h

theorem Owns.live {x : Addr} (hx : x ∈ s.batch.imgHandles) : 0 < s.images.objs.refs x :=
  h.images.pos (List.count_pos_iff.2 hx)

theorem Owns.ne_null {x : Addr} (hx : x ∈ s.batch.imgHandles) : x ≠ 0 :=
  accounted_ne_null h.images (h.live hx)

/-- Calls that leave positions and references alone. -/
theorem Owns.same {op : Op} {r : Result} (hg : r.given = [])
    (hi : b'.images = s.batch.images) (hc : b'.capacity = s.batch.capacity)
    (ht : ∀ e, r = .threw e → b' = s.batch) : Kept s op r b' s.images.objs := by
  refine ⟨?_, by rw [hi, hc]; exact h.fits, fun e he _ => ⟨ht e he, rfl⟩⟩
  have hh : b'.imgHandles = s.batch.imgHandles := by rw [imgHandles, hi, imgHandles]
  rw [hh, hg]
  exact h.images.moved (.refl _) (by simp) fun x => by simp

/-- References a call moves along with the positions. -/
theorem Owns.movedAll {op : Op} {res : Result} {r a : List Addr} (hm : s.images.objs.Moved o' r a)
    (ha : 0 ∉ a) (hfit : (b'.images.length : Int) ≤ b'.capacity.toInt)
    (hc : ∀ x, b'.imgHandles.count x + res.given.count x + r.count x =
      s.batch.imgHandles.count x + a.count x) (ht : ∀ e, res ≠ .threw e) :
    Kept s op res b' o' := by
  refine ⟨h.images.moved hm ha fun x => ?_, hfit, fun e he => absurd he (ht e)⟩
  have := hc x
  omega

theorem Owns.pushDone {sync : Except Exception Unit} {images : Nat → Addr} {n : Int32}
    {l : List (Addr × Image)} (stored : Stored s.batch b' l)
    (objs : ∀ p ∈ l, s.images.objs.obj p.1 = some p.2)
    (moved : s.images.objs.Moved o' [] ((l.map Prod.fst).filter (· ≠ 0))) :
    Kept s (.pushImages sync (some images) n) .done b' o' := by
  have hne : ∀ x ∈ l.map Prod.fst, x ≠ 0 := by
    intro x hx
    obtain ⟨p, hp, rfl⟩ := List.mem_map.1 hx
    exact accounted_ne_null h.images (refs_pos.2 (by rw [objs p hp]; exact Option.some_ne_none _))
  rw [List.filter_eq_self.2 fun x hx => by simpa using hne x hx] at moved
  refine h.movedAll moved (fun h0 => hne 0 h0 rfl) (stored.fits h.fits) (fun x => ?_) nofun
  rw [imgHandles_stored stored, List.count_append]
  simp [Result.given]

/-- The references at a part of the positions can be released. -/
theorem Owns.releasable {hs : List Addr} (hsub : ∀ x, hs.count x ≤ s.batch.imgHandles.count x) :
    ∃ o', coreObjectDecRefs hs s.images.objs = (.ok (), o') ∧ s.images.objs.Moved o' hs [] := by
  refine coreObjectDecRefs_spec (fun x hx => h.ne_null ?_) fun x => ?_
  · exact List.count_pos_iff.1 (Nat.lt_of_lt_of_le (List.count_pos_iff.2 hx) (hsub x))
  · rw [h.images.refs]
    exact Nat.le_add_right_of_le (hsub x)

theorem Owns.popped {k : Nat} {n : Int32}
    (released : coreObjectDecRefs ((s.batch.images.drop k).map BatchImage.handle).reverse
      s.images.objs = (.ok (), o'))
    (hi : b'.images = s.batch.images.take k) (hc : b'.capacity = s.batch.capacity) :
    Kept s (.popImages n) .done b' o' := by
  obtain ⟨o₁, e₁, m₁⟩ := h.releasable (count_drop_le s.batch k)
  rw [e₁, Prod.mk.injEq] at released
  obtain ⟨-, rfl⟩ := released
  refine h.movedAll m₁ (by simp) ?_ (fun x => ?_) nofun
  · have := h.fits
    rw [hi, hc, List.length_take]
    omega
  · have hx : s.batch.imgHandles.count x = ((s.batch.images.take k).map BatchImage.handle).count x +
        ((s.batch.images.drop k).map BatchImage.handle).count x := by
      rw [← List.count_append, ← List.map_append, List.take_append_drop]
      rfl
    rw [imgHandles, hi, List.count_reverse, hx]
    simp [Result.given]

theorem Owns.got {beg n : Int32} {out : List Addr}
    (eq : out = ((s.batch.images.drop beg.toInt.toNat).take n.toInt.toNat).map BatchImage.handle)
    (acquired : coreObjectIncRefs (out.filter (· ≠ 0)) s.images.objs = (.ok (), o')) :
    Kept s (.getImages beg true n) (.got out) s.batch o' := by
  have hlive : ∀ x ∈ out.filter (· ≠ 0), 0 < s.images.objs.refs x := by
    intro x hx
    have hx := List.mem_of_mem_filter hx
    rw [eq, List.map_take, List.map_drop] at hx
    exact h.live (List.mem_of_mem_drop (List.mem_of_mem_take hx))
  obtain ⟨o₁, e₁, m₁⟩ := coreObjectIncRefs_spec hlive
  rw [e₁, Prod.mk.injEq] at acquired
  obtain ⟨-, rfl⟩ := acquired
  refine h.movedAll m₁ (by simp) h.fits (fun x => ?_) nofun
  simp [Result.given]

theorem Owns.getNotThrew {beg n : Int32} {e : Exception}
    (acquired : coreObjectIncRefs ((((s.batch.images.drop beg.toInt.toNat).take
      n.toInt.toNat).map BatchImage.handle).filter (· ≠ 0)) s.images.objs = (.error e, o')) :
    False := by
  have hlive : ∀ x ∈ (((s.batch.images.drop beg.toInt.toNat).take n.toInt.toNat).map
      BatchImage.handle).filter (· ≠ 0), 0 < s.images.objs.refs x := by
    intro x hx
    have hx := List.mem_of_mem_filter hx
    rw [List.map_take, List.map_drop] at hx
    exact h.live (List.mem_of_mem_drop (List.mem_of_mem_take hx))
  obtain ⟨o₁, e₁, -⟩ := coreObjectIncRefs_spec hlive
  rw [e₁] at acquired
  cases acquired

theorem Owns.cleared {es : List BatchImage}
    (released : clearLoop s.batch.images s.images.objs = (.ok (), es, o')) :
    Kept s .clear .done { s.batch with
      images := []
      dirtyStartingFromIndex := 0
      cacheMaxSize := some ⟨0, 0⟩
      cacheUniqueFormat := none } o' := by
  have h0 : ∀ e ∈ s.batch.images, e.handle ≠ 0 := fun e he => h.ne_null (List.mem_map_of_mem he)
  obtain ⟨es', o₁, e₁, m₁⟩ := clearLoop_spec h0 (o := s.images.objs) fun x => by
    rw [h.images.refs]
    exact Nat.le_add_right _ _
  rw [e₁, Prod.mk.injEq, Prod.mk.injEq] at released
  obtain ⟨-, -, rfl⟩ := released
  refine h.movedAll m₁ (by simp) ?_ (fun x => ?_) nofun
  · have := h.fits
    show ((0 : Nat) : Int) ≤ s.batch.capacity.toInt
    omega
  · simp [imgHandles, Result.given]

theorem Owns.clearNotThrew {es : List BatchImage} {e : Exception}
    (released : clearLoop s.batch.images s.images.objs = (.error e, es, o')) : False := by
  have h0 : ∀ e ∈ s.batch.images, e.handle ≠ 0 := fun e he => h.ne_null (List.mem_map_of_mem he)
  obtain ⟨es', o₁, e₁, -⟩ := clearLoop_spec h0 (o := s.images.objs) fun x => by
    rw [h.images.refs]
    exact Nat.le_add_right _ _
  rw [e₁] at released
  cases released

/-- A push of an array that throws has stored nothing. -/
theorem Owns.pushThrew {images : Nat → Addr} {n : Int32} {l : List (Addr × Image)} {e : Exception}
    (hg : s.Good (.pushImages (.ok ()) (some images) n)) (stored : Stored s.batch b' l)
    (fits : ¬n + s.batch.numImages > s.batch.capacity)
    (moved : s.images.objs.Moved o' [] ((l.map Prod.fst).filter (· ≠ 0)))
    (imgs : pushed s.images.objs (handles images n) = (l.map Prod.snd, false)) :
    Kept s (.pushImages (.ok ()) (some images) n) (.threw e)
      { b' with images := b'.images.take s.batch.images.length } o' := by
  obtain ⟨hrange, hg⟩ := hg
  have hsum : (n + s.batch.numImages).toInt = n.toInt + s.batch.images.length := by
    have := n.le_toInt
    rw [Int32.toInt_add_of_range, toInt_numImages h.fits] <;> rw [toInt_numImages h.fits] <;> omega
  have hl : l = [] := by
    have hnil := hg rfl (by rw [gt_iff_lt, Int32.lt_iff_toInt_lt, hsum] at fits; omega)
      (by rw [imgs])
    rw [imgs] at hnil
    exact List.map_eq_nil_iff.1 hnil
  subst hl
  rw [restored_eq stored (.inl rfl), moved.eq_of_nil]
  exact h.same rfl rfl rfl fun _ _ => rfl

/-- **A good call** that runs no callback. -/
theorem Owns.kept {op : Op} {r : Result} (hg : s.Good op)
    (hcb : ∀ cb, op ≠ .pushImagesCallback (.ok ()) (some cb))
    (he : Effect s.batch s.images.objs op r b' o') : Kept s op r b' o' := by
  cases he with
  | threw e => exact h.same rfl rfl rfl fun _ _ => rfl
  | pushed stored passed objs moved imgs => exact h.pushDone stored objs moved
  | pushThrew e stored fits passed moved imgs => exact h.pushThrew hg stored fits moved imgs
  | pushedBack stored handed imgs => exact absurd rfl (hcb _)
  | pushBackThrew e stored imgs => exact absurd rfl (hcb _)
  | @popped n b₁ o₁ nonneg enough released eq =>
    refine h.popped released ?_ ?_ <;> rw [eq] <;> split_ifs <;> rfl
  | popThrew e released =>
    obtain ⟨o₁, e₁, -⟩ := h.releasable (count_drop_le s.batch _)
    rw [e₁] at released
    cases released
  | got eq acquired => exact h.got eq acquired
  | getThrew e acquired => exact (h.getNotThrew acquired).elim
  | cleared released => exact h.cleared released
  | clearThrew e released => exact (h.clearNotThrew released).elim
  | maxSize eq =>
    obtain ⟨hi, hc, -⟩ := doUpdateCache_fields s.batch
    exact h.same rfl hi hc nofun
  | uniqueFormat eq =>
    obtain ⟨hi, hc, -⟩ := doUpdateCache_fields s.batch
    exact h.same rfl hi hc nofun
  | exportThrew e dirty upload =>
    obtain ⟨dev, fmt, rfl, -⟩ := uploadDirty_spec upload
    have hsame : Kept s .clear .done { s.batch with devImagesBuffer := dev, devFormatsBuffer := fmt }
        s.images.objs := h.same rfl rfl rfl nofun
    exact ⟨hsame.images, h.fits, nofun⟩
  | @exported _ b₁ _ upload attributes =>
    obtain ⟨hi, hc, -⟩ := doUpdateCache_fields b₁
    have hb : b₁.images = s.batch.images ∧ b₁.capacity = s.batch.capacity := by
      rcases upload with ⟨-, hu⟩ | ⟨-, rfl⟩
      · obtain ⟨dev, fmt, rfl, -⟩ := uploadDirty_spec hu
        exact ⟨rfl, rfl⟩
      · exact ⟨rfl, rfl⟩
    exact h.same rfl (hi.trans hb.1) (hc.trans hb.2) nofun

end

/-! ## Runs -/

section
variable {print : ImageFormat → String} {s s' : Shared}

/-- **A push with a callback** takes over what it stores; when it throws, the references handed
over are the owner's again. -/
theorem callback_owns (h : Owns s) {cb : PushImageFunc} {r : Result}
    (hg : s.Good (.pushImagesCallback (.ok ()) (some cb)))
    (hs : s.Step print (.call (.pushImagesCallback (.ok ()) (some cb)) r) s') :
    Owns s' ∧ ∀ e, r = .threw e → s'.batch = s.batch := by
  obtain ⟨he, hs, w, hd, ho, hw⟩ := hs
  have hacc := hd.accounted h.images
  have hthrew : ∀ e, r = .threw e → s'.batch = s.batch → Owns s' := by
    rintro e rfl hb
    rw [if_neg nofun] at hw
    refine ⟨⟨fun x => ?_, ho ▸ hacc.null⟩, by rw [hb]; exact h.fits⟩
    have hx := hacc.refs x
    rw [ho, hw, hb]
    show w.objs.refs x = s.batch.imgHandles.count x + (w.owned x + hs.count x)
    omega
  generalize hbatch : s'.batch = b' at he
  generalize hobjs : s'.images.objs = o' at he
  cases exec_effect he with
  | threw e => exact ⟨hthrew e rfl hbatch, fun _ _ => rfl⟩
  | @pushedBack _ l _ stored handed imgs =>
    have hl := hd.stored handed imgs
    rw [if_pos rfl] at hw
    refine ⟨⟨⟨fun x => ?_, ho ▸ hacc.null⟩, by rw [hbatch]; exact stored.fits h.fits⟩, nofun⟩
    have hx := hacc.refs x
    rw [ho, hw, hbatch, imgHandles_stored stored, List.count_append, hl]
    exact hx
  | @pushBackThrew _ l b₁ e stored imgs =>
    have hb := restored_eq stored (by
      have hu := hg (by rw [imgs])
      rwa [imgs] at hu)
    exact ⟨hthrew e rfl (hbatch.trans hb), fun _ _ => hb⟩

theorem left_owned {op : Op} {r : Result} {w : Owned Addr Image}
    (hcb : ∀ cb, op ≠ .pushImagesCallback (.ok ()) (some cb)) (h : s.Left op r w) :
    w.owned = fun x => s.images.owned x + r.given.count x := by
  cases op with
  | pushImagesCallback sync cb =>
    rcases sync with e | u
    · exact h
    · rcases cb with _ | cb
      · exact h
      · exact absurd rfl (hcb cb)
  | _ => exact h

/-- **A good call** keeps the account, and a push that throws changes no position or reference. -/
theorem call_owns (h : Owns s) {op : Op} {r : Result} (hg : s.Good op)
    (hs : s.Step print (.call op r) s') :
    Owns s' ∧ ∀ e, r = .threw e → op.Pushes → s'.batch = s.batch ∧
      ∀ sync images n, op = .pushImages sync images n → s'.images = s.images := by
  by_cases hcb : ∃ cb, op = .pushImagesCallback (.ok ()) (some cb)
  · obtain ⟨cb, rfl⟩ := hcb
    obtain ⟨h₁, h₂⟩ := callback_owns h hg hs
    exact ⟨h₁, fun e he _ => ⟨h₂ e he, nofun⟩⟩
  · obtain ⟨he, hleft⟩ := hs
    have hcb : ∀ cb, op ≠ .pushImagesCallback (.ok ()) (some cb) := fun cb hc => hcb ⟨cb, hc⟩
    have hk := h.kept hg hcb (exec_effect he)
    have ho := left_owned hcb hleft
    have himg : s'.images = ⟨s'.images.objs, fun x => s.images.owned x + r.given.count x⟩ := by
      rw [← ho]
    refine ⟨⟨himg ▸ hk.images, hk.fits⟩, fun e hr hp => ?_⟩
    obtain ⟨hb, hobj⟩ := hk.threw e hr hp
    refine ⟨hb, fun _ _ _ _ => ?_⟩
    subst hr
    rw [himg, hobj]
    rfl

/-- **Every good step** keeps the account. -/
theorem step_owns (h : Owns s) {e : Shared.Event} (hs : s.GoodStep print e s') : Owns s' := by
  obtain ⟨hg, hs⟩ := hs
  cases e with
  | owner =>
    obtain ⟨hb, hs⟩ := hs
    refine ⟨?_, by rw [hb]; exact h.fits⟩
    rw [hb]
    exact (hs.accounted h.images).1
  | call op r => exact (call_owns h (hg op r rfl) hs).1

theorem Shared.New.owns (h : s.New) : Owns s := by
  obtain ⟨capacity, devImages, devFormats, hc, hb⟩ := h.batch
  have hi := h.images
  refine ⟨?_, ?_⟩
  · rw [hb]
    simpa [imgHandles] using hi
  · rw [hb]
    exact Int32.le_iff_toInt_le.1 hc

/-- **Ownership and rollback.** After every run of good steps the references on each image are one
for each position that holds it and those of the other owners; every good call has an outcome; and
a push that throws leaves the batch as it was, and the images and the references on them too unless
its callback changed them. -/
theorem runs_owned_images (print : ImageFormat → String) {s s' : Shared} {es : List Shared.Event}
    (hn : s.New) (hr : Run (Shared.GoodStep print) s es s') :
    (∀ x, s'.images.objs.refs x = s'.batch.imgHandles.count x + s'.images.owned x) ∧
      (∀ op, s'.Good op → exec print s'.batch s'.images.objs op ≠ none) ∧
      ∀ op e s'', s'.GoodStep print (.call op (.threw e)) s'' → op.Pushes →
        s''.batch = s'.batch ∧
          ∀ sync images n, op = .pushImages sync images n → s''.images = s'.images := by
  have h : Owns s' := hr.inv (fun _ _ _ h hs => step_owns h hs) hn.owns
  refine ⟨h.images.refs, fun op hg => ?_, fun op e s'' hs hp => ?_⟩
  · obtain ⟨r, he⟩ := exec_some print h.fits hg.inRange
    rw [he]
    exact Option.some_ne_none _
  · exact (call_owns h (hs.1 op _ rfl) hs.2).2 e rfl hp

end

/-! ## Two runs -/

/-- An empty batch; each of the two images has one owner. -/
def ownedTwice : Shared where
  batch := emptyBatch.batch
  images := ⟨twoImages, fun h => if h = 16#64 ∨ h = 32#64 then 1 else 0⟩

theorem ownedTwice_new : ownedTwice.New where
  batch := ⟨4, _, _, by decide, rfl⟩
  images :=
    { refs := fun h => by
        unfold ownedTwice twoImages refs
        by_cases h₁ : h = 16#64
        · simp [h₁]
        · by_cases h₂ : h = 32#64
          · simp [h₂]
          · simp [h₁, h₂]
      null := rfl }

/-- The state after a call that runs no callback. -/
def Shared.after (s : Shared) (op : Op) : Shared :=
  match exec (fun _ => "") s.batch s.images.objs op with
  | none => s
  | some (r, b, o) => ⟨b, o, fun h => s.images.owned h + r.given.count h⟩

theorem shared_after_step {s : Shared} {op : Op} {r : Result}
    (hcb : ∀ sync cb, op ≠ .pushImagesCallback sync cb)
    (h : (exec (fun _ => "") s.batch s.images.objs op).map Prod.fst = some r) :
    s.Step (fun _ => "") (.call op r) (s.after op) := by
  unfold Shared.after
  cases he : exec (fun _ => "") s.batch s.images.objs op with
  | none => simp [he] at h
  | some p =>
    simp only [he, Option.map_some, Option.some.injEq] at h
    subst h
    refine ⟨he, ?_⟩
    cases op with
    | pushImagesCallback sync cb => exact absurd rfl (hcb sync cb)
    | _ => rfl

/-- Both images are pushed, the second is popped, and a push refuses the handle it is given. -/
theorem runs_owned_images_popped : ∃ (s s' : Shared) (es : List Shared.Event), s.New ∧
    Run (Shared.GoodStep fun _ => "") s es s' ∧ s'.batch.imgHandles = [16#64] ∧
    s'.images.objs.refs 16#64 = [16#64].count 16#64 + 1 := by
  have good : ∀ {s s' : Shared} {op : Op} {r : Result}, s.Good op →
      s.Step (fun _ => "") (.call op r) s' → s.GoodStep (fun _ => "") (.call op r) s' := by
    intro s s' op r hg hs
    refine ⟨fun op' r' he => ?_, hs⟩
    cases he
    exact hg
  have h₁ : ownedTwice.GoodStep (fun _ => "") (.call (pushGrayAnd 32#64) .done)
      (ownedTwice.after (pushGrayAnd 32#64)) :=
    good ⟨by decide, fun _ _ h => absurd h (by decide)⟩ (shared_after_step nofun rfl)
  have h₂ : (ownedTwice.after (pushGrayAnd 32#64)).GoodStep (fun _ => "")
      (.call (.popImages 1) .done) _ := good trivial (shared_after_step nofun rfl)
  have h₃ : ((ownedTwice.after (pushGrayAnd 32#64)).after (.popImages 1)).GoodStep (fun _ => "")
      (.call (.pushImages (.ok ()) (some fun _ => 48#64) 1) (.threw destroyedHandle)) _ :=
    good ⟨by decide, fun _ _ _ => rfl⟩ (shared_after_step nofun rfl)
  have hr := Run.cons h₁ (.cons h₂ (.cons h₃ (.nil _)))
  exact ⟨_, _, _, ownedTwice_new, hr, rfl, (runs_owned_images _ ownedTwice_new hr).1 16#64⟩

/-- A push of `gray` and a destroyed handle keeps a reference on `gray` and its size. -/
theorem push_leaks : ∃ (s s' : Shared) (op : Op) (e : Exception), s.New ∧
    s.Step (fun _ => "") (.call op (.threw e)) s' ∧ op.Pushes ∧ s'.batch.imgHandles = [] ∧
    s'.images.objs.refs 16#64 ≠ s'.batch.imgHandles.count 16#64 + s'.images.owned 16#64 ∧
    s'.images.objs.refs 16#64 ≠ s.images.objs.refs 16#64 ∧
    s'.batch.maxSize.map Prod.fst ≠ s.batch.maxSize.map Prod.fst := by
  have h : ownedTwice.Step (fun _ => "") (.call (pushGrayAnd 48#64) (.threw destroyedHandle))
      (ownedTwice.after (pushGrayAnd 48#64)) := shared_after_step nofun rfl
  exact ⟨_, _, _, _, ownedTwice_new, h, trivial, rfl, by decide, by decide, by decide⟩

end Nvcv.ImageBatchVarShape
