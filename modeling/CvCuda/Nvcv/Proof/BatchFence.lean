import CvCuda.Nvcv.BatchCommands

/-! # Copies behind one event

The argument the two batches share, on the commands alone and on the `Window` of elements a batch
has: its copies are ordered one after another, the event has them all, and the host has waited for
all but those of the last export.

* `Ordered`, `Fenced`: the invariant, while a call runs and between calls; `Ordered.copy`,
  `Ordered.record`, `Ordered.waitEvent` and `Ordered.synchronize` say what a command does to it.
* `Fenced.delivered_iff`: which streams have the elements of a batch with nothing dirty.
-/

namespace Nvcv

open StreamOrder

variable {S : Type} {h rest : List (Command S)} {c : Command S} {s : S} {buffer : BatchBuffer}
  {buffers : List BatchBuffer} {p q first last : Nat}

/-! ## The history -/

/-- The command at `p` copies the elements from `first` on. -/
def CopyAt (h : List (Command S)) (p first : Nat) : Prop :=
  ∃ s buffer last, h[p]? = some (.enqueue s (.copy buffer first last))

theorem CopyAt.lt_length (hp : CopyAt h p first) : p < h.length := by
  obtain ⟨s, buffer, last, hp⟩ := hp
  exact (List.getElem?_eq_some_iff.1 hp).1

theorem CopyAt.unique {first' : Nat} (hp : CopyAt h p first) (hq : CopyAt h p first') :
    first = first' := by
  obtain ⟨s, buffer, last, hp⟩ := hp
  obtain ⟨s', buffer', last', hq⟩ := hq
  rw [hp] at hq
  cases hq
  rfl

theorem copyAt_concat : CopyAt (h ++ [c]) p first ↔ CopyAt h p first ∨
    p = h.length ∧ ∃ s buffer last, c = .enqueue s (.copy buffer first last) := by
  unfold CopyAt
  constructor
  · rintro ⟨s, buffer, last, hp⟩
    rcases getElem?_concat.1 hp with hp | ⟨rfl, rfl⟩
    · exact .inl ⟨s, buffer, last, hp⟩
    · exact .inr ⟨rfl, s, buffer, last, rfl⟩
  · rintro (⟨s, buffer, last, hp⟩ | ⟨rfl, s, buffer, last, rfl⟩)
    · exact ⟨s, buffer, last, getElem?_concat.2 (.inl hp)⟩
    · exact ⟨s, buffer, last, getElem?_concat.2 (.inr ⟨rfl, rfl⟩)⟩

theorem WritesAt.copyAt {i : Nat} (hw : WritesAt Work.Writes h (buffer, i) p) :
    ∃ first, CopyAt h p first ∧ first ≤ i := by
  obtain ⟨s, w, hp, hw⟩ := hw
  cases w with
  | copy b first last => exact ⟨first, ⟨s, b, last, hp⟩, hw.2.1⟩
  | other => exact hw.elim

theorem WritesAt.append {x : BatchBuffer × Nat} (hw : WritesAt Work.Writes h x p) :
    WritesAt Work.Writes (h ++ rest) x p := by
  obtain ⟨s, w, hp, hw⟩ := hw
  have hl := (List.getElem?_eq_some_iff.1 hp).1
  exact ⟨s, w, (List.getElem?_append_left hl).trans hp, hw⟩

@[simp] theorem lastExport_concat : lastExport (h ++ [c]) = LastExport.note (lastExport h) c := by
  simp [lastExport]

theorem lt_of_mem_onHost (hp : p ∈ OnHost h) : p < h.length := by
  obtain ⟨j, e, hj, hr⟩ := hp
  have hl := (List.getElem?_eq_some_iff.1 hj).1
  exact lt_of_le_of_lt hr.le hl

theorem lt_of_mem_onStream (hp : p ∈ OnStream h s) : p < h.length := by
  obtain ⟨j, c, hj, -, hr⟩ := hp
  have hl := (List.getElem?_eq_some_iff.1 hj).1
  exact lt_of_le_of_lt hr.le hl

/-! ## The invariant -/

/-- The elements a batch has, and the range of those that are dirty. -/
structure Window where
  length : Nat
  first : Nat
  last : Nat

namespace Window

def Dirty (w : Window) : Prop := w.first < w.last

def Clean (w : Window) (i : Nat) : Prop := i < w.length ∧ ¬(w.first ≤ i ∧ i < w.last)

end Window

/-- The host has waited for the last export that copied. -/
def Waited (h : List (Command S)) : Prop := ∀ l, lastExport h = some l → l.synchronized = true

/-- The stream comes after every copy, by the host or because the copy is one of those that begin
at `first`, on this stream. -/
def Ready (h : List (Command S)) (s : S) (first : Nat) : Prop :=
  ∀ p f, CopyAt h p f → p ∈ OnHost h ∨ f = first ∧ p ∈ OnStream h s

/-- The copies are ordered; all but those of the last export that copied have been waited for, and
of these one that writes the first element is ordered before nothing but its stream. -/
structure Ordered (buffers : List BatchBuffer) (h : List (Command S)) : Prop where
  copies : ∀ p q f g, CopyAt h p f → CopyAt h q g → p < q → Before h p q
  reached : ∀ p f, CopyAt h p f → p ∈ OnHost h ∨ ∃ l, lastExport h = some l ∧
    l.synchronized = false ∧ f = l.first ∧ p ∈ OnStream h l.stream
  hidden : ∀ l, lastExport h = some l → l.synchronized = false → ∃ buffer ∈ buffers, ∃ p,
    WritesAt Work.Writes h (buffer, l.first) p ∧ (∀ q f, CopyAt h q f → q ≤ p) ∧
      p ∉ OnHost h ∧ ∀ s ≠ l.stream, p ∉ OnStream h s

/-- Between calls: the clean elements have been copied, and the event has every copy. -/
structure Fenced (buffers : List BatchBuffer) (w : Window) (h : List (Command S)) : Prop
    extends Ordered buffers h where
  written : ∀ buffer ∈ buffers, ∀ i, w.Clean i → ∃ p, WritesAt Work.Writes h (buffer, i) p
  recorded : ∀ p f, CopyAt h p f → p ∈ AtEvent h .evPostFence

theorem Ordered.nil : Ordered buffers ([] : List (Command S)) where
  copies p q f g hp := absurd hp.lt_length (Nat.not_lt_zero p)
  reached p f hp := absurd hp.lt_length (Nat.not_lt_zero p)
  hidden l hl := by cases hl

theorem Ordered.onHost (hO : Ordered buffers h) (hw : Waited h) (hp : CopyAt h p first) :
    p ∈ OnHost h := by
  rcases hO.reached p first hp with hh | ⟨l, hl, hs, -⟩
  · exact hh
  · rw [hw l hl] at hs
    cases hs

theorem Ordered.ready (hO : Ordered buffers h) (hw : Waited h) : Ready h s first :=
  fun _ _ hp => .inl (hO.onHost hw hp)

/-! ## What a command does to it -/

/-- A copy on a stream that comes after all others. -/
theorem Ordered.copy (hO : Ordered buffers h) (hr : Ready h s first) (hb : buffer ∈ buffers)
    (hlt : first < last) : Ordered buffers (h ++ [.enqueue s (.copy buffer first last)]) ∧
      Ready (h ++ [.enqueue s (.copy buffer first last)]) s first := by
  have hpast : ∀ p f, CopyAt h p f →
      p ∈ Past h (.enqueue s (.copy buffer first last)) := fun p f hp =>
    mem_past_enqueue.2 ((hr p f hp).symm.imp And.right id)
  have hready : Ready (h ++ [.enqueue s (.copy buffer first last)]) s first := by
    intro p f hp
    rcases copyAt_concat.1 hp with hp | ⟨rfl, _, _, _, heq⟩
    · exact (hr p f hp).imp onHost_append (And.imp_right onStream_append)
    · cases heq
      exact .inr ⟨rfl, onStream_concat.2 (.inr ⟨rfl, .inl rfl⟩)⟩
  refine ⟨⟨fun p q f g hp hq hpq => ?_, fun p f hp => ?_, fun l hl _ => ?_⟩, hready⟩
  · have hp : CopyAt h p f := by
      rcases copyAt_concat.1 hp with hp | ⟨rfl, -⟩
      · exact hp
      · have hl := hq.lt_length
        rw [List.length_append, List.length_singleton] at hl
        omega
    rcases copyAt_concat.1 hq with hq | ⟨rfl, -⟩
    · exact (before_append hq.lt_length).2 (hO.copies p q f g hp hq hpq)
    · exact before_concat.2 (hpast p f hp)
  · refine (hready p f hp).imp_right fun ⟨hf, hs⟩ => ?_
    exact ⟨⟨s, first, false⟩, by rw [lastExport_concat, LastExport.note], rfl, hf, hs⟩
  · rw [lastExport_concat, LastExport.note] at hl
    cases hl
    refine ⟨buffer, hb, h.length, ⟨s, _, getElem?_concat.2 (.inr ⟨rfl, rfl⟩),
      rfl, Nat.le_refl first, hlt⟩, fun q f hq => ?_, fun hp => ?_, fun t ht hp => ?_⟩
    · have hl := hq.lt_length
      rw [List.length_append, List.length_singleton] at hl
      exact Nat.le_of_lt_succ hl
    · rcases onHost_concat.1 hp with hp | ⟨⟨e, he⟩, -⟩
      · exact Nat.lt_irrefl _ (lt_of_mem_onHost hp)
      · cases he
    · rcases onStream_concat.1 hp with hp | ⟨hs, -⟩
      · exact Nat.lt_irrefl _ (lt_of_mem_onStream hp)
      · cases hs
        exact ht rfl

theorem Ordered.copies_concat (hO : Ordered buffers h)
    (hc : ∀ s buffer first last, c ≠ .enqueue s (.copy buffer first last)) :
    (∀ p f, CopyAt (h ++ [c]) p f ↔ CopyAt h p f) ∧
      ∀ p q f g, CopyAt (h ++ [c]) p f → CopyAt (h ++ [c]) q g → p < q →
        Before (h ++ [c]) p q := by
  have hcopy : ∀ p f, CopyAt (h ++ [c]) p f ↔ CopyAt h p f := by
    intro p f
    rw [copyAt_concat]
    exact or_iff_left fun ⟨_, s, buffer, last, heq⟩ => hc s buffer f last heq
  refine ⟨hcopy, fun p q f g hp hq hpq => ?_⟩
  have hq := (hcopy q g).1 hq
  exact (before_append hq.lt_length).2 (hO.copies p q f g ((hcopy p f).1 hp) hq hpq)

/-- The event's record on the stream that comes after all copies. -/
theorem Ordered.record (hO : Ordered buffers h) (hr : Ready h s first) :
    Ordered buffers (h ++ [.record .evPostFence s]) ∧
      ∀ p f, CopyAt (h ++ [.record .evPostFence s]) p f →
        p ∈ AtEvent (h ++ [.record .evPostFence s]) .evPostFence := by
  obtain ⟨hcopy, hcopies⟩ := hO.copies_concat (c := .record .evPostFence s) nofun
  have hlast : lastExport (h ++ [.record .evPostFence s]) = lastExport h := by
    rw [lastExport_concat, LastExport.note]
  refine ⟨⟨hcopies, fun p f hp => ?_, fun l hl hs => ?_⟩, fun p f hp => ?_⟩
  · rw [hlast]
    rcases hO.reached p f ((hcopy p f).1 hp) with hp | ⟨l, hl, hs, hf, hp⟩
    · exact .inl (onHost_append hp)
    · exact .inr ⟨l, hl, hs, hf, onStream_append hp⟩
  · rw [hlast] at hl
    obtain ⟨buffer, hb, p, hw, hmax, hh, hn⟩ := hO.hidden l hl hs
    obtain ⟨f, hp, -⟩ := WritesAt.copyAt hw
    refine ⟨buffer, hb, p, WritesAt.append hw, fun q g hq => hmax q g ((hcopy q g).1 hq),
      fun hp => ?_, fun t ht hpt => ?_⟩
    · rcases onHost_concat.1 hp with hp | ⟨⟨e, he⟩, -⟩
      · exact hh hp
      · cases he
    · rcases onStream_concat.1 hpt with hpt | ⟨hst, hpt⟩
      · exact hn t ht hpt
      · -- the stream of the record is the one that copied, as this copy is on no other
        cases hst
        rcases hr p f hp with hp | ⟨-, hp⟩
        · exact hh hp
        · exact hn s ht hp
  · refine atEvent_concat.2 (.inl ⟨⟨s, rfl⟩, .inr (mem_past_record.2 ?_)⟩)
    exact (hr p f ((hcopy p f).1 hp)).symm.imp And.right id

/-- A stream's wait for the event, once the host has waited. -/
theorem Ordered.waitEvent (hO : Ordered buffers h) (hw : Waited h) :
    Ordered buffers (h ++ [.waitEvent s .evPostFence]) ∧
      Waited (h ++ [.waitEvent s .evPostFence]) := by
  obtain ⟨hcopy, hcopies⟩ := hO.copies_concat (c := .waitEvent s .evPostFence) nofun
  have hlast : lastExport (h ++ [.waitEvent s .evPostFence]) = lastExport h := by
    rw [lastExport_concat, LastExport.note]
  have hw' : Waited (h ++ [.waitEvent s .evPostFence]) := by
    unfold Waited
    rwa [hlast]
  refine ⟨⟨hcopies, fun p f hp => ?_, fun l hl hs => ?_⟩, hw'⟩
  · exact .inl (onHost_append (hO.onHost hw ((hcopy p f).1 hp)))
  · rw [hw' l hl] at hs
    cases hs

/-- The host's wait for the event, which has all copies. -/
theorem Ordered.synchronize (hO : Ordered buffers h)
    (hr : ∀ p f, CopyAt h p f → p ∈ AtEvent h .evPostFence) :
    Ordered buffers (h ++ [.synchronize .evPostFence]) ∧
      Waited (h ++ [.synchronize .evPostFence]) := by
  obtain ⟨hcopy, hcopies⟩ := hO.copies_concat (c := .synchronize .evPostFence) nofun
  have hw : Waited (h ++ [.synchronize .evPostFence]) := by
    intro l hl
    rw [lastExport_concat, LastExport.note] at hl
    obtain ⟨l₀, -, rfl⟩ := Option.map_eq_some_iff.1 hl
    rfl
  refine ⟨⟨hcopies, fun p f hp => .inl (onHost_concat.2 (.inr ⟨⟨_, rfl⟩, .inr ?_⟩)),
    fun l hl hs => ?_⟩, hw⟩
  · exact mem_past_synchronize.2 (.inr (hr p f ((hcopy p f).1 hp)))
  · rw [hw l hl] at hs
    cases hs

theorem atEvent_concat_of_ne {e : BatchEvent} (hc : ∀ s, c ≠ .record e s) (hp : p ∈ AtEvent h e) :
    p ∈ AtEvent (h ++ [c]) e :=
  atEvent_concat.2 (.inr ⟨fun ⟨s, hs⟩ => hc s hs, hp⟩)

/-! ## What a call does to it -/

section
variable {w w' : Window}

/-- No commands, and no element that is clean from now on. -/
theorem Fenced.kept (hF : Fenced buffers w h) (hc : ∀ i, w'.Clean i → w.Clean i) :
    Fenced buffers w' h :=
  { hF with written := fun buffer hb i hi => hF.written buffer hb i (hc i hi) }

/-- The host waits. -/
theorem Fenced.synchronized (hF : Fenced buffers w h) :
    Fenced buffers w (h ++ [.synchronize .evPostFence]) ∧
      Waited (h ++ [.synchronize .evPostFence]) := by
  obtain ⟨hO, hw⟩ := hF.toOrdered.synchronize hF.recorded
  obtain ⟨hcopy, -⟩ := hF.toOrdered.copies_concat (c := .synchronize .evPostFence) nofun
  refine ⟨⟨hO, fun buffer hb i hi => ?_, fun p f hp => ?_⟩, hw⟩
  · obtain ⟨p, hp⟩ := hF.written buffer hb i hi
    exact ⟨p, WritesAt.append hp⟩
  · exact atEvent_concat_of_ne nofun (hF.recorded p f ((hcopy p f).1 hp))

/-- A stream waits after the host did. -/
theorem Fenced.waited (hF : Fenced buffers w h) (hw : Waited h) :
    Fenced buffers w (h ++ [.waitEvent s .evPostFence]) ∧
      Waited (h ++ [.waitEvent s .evPostFence]) := by
  obtain ⟨hO, hw'⟩ := hF.toOrdered.waitEvent (s := s) hw
  obtain ⟨hcopy, -⟩ := hF.toOrdered.copies_concat (c := .waitEvent s .evPostFence) nofun
  refine ⟨⟨hO, fun buffer hb i hi => ?_, fun p f hp => ?_⟩, hw'⟩
  · obtain ⟨p, hp⟩ := hF.written buffer hb i hi
    exact ⟨p, WritesAt.append hp⟩
  · exact atEvent_concat_of_ne nofun (hF.recorded p f ((hcopy p f).1 hp))

/-- The dirty range of each buffer is copied on a stream, and the event recorded there. -/
theorem Fenced.exported {todo : List BatchBuffer} (hO : Ordered buffers h)
    (hr : Ready h s w.first) (hd : w.Dirty)
    (hw : ∀ buffer ∈ buffers, ∀ i, w.Clean i → ∃ p, WritesAt Work.Writes h (buffer, i) p)
    (hdone : ∀ buffer ∈ buffers, buffer ∉ todo → ∀ i, w.first ≤ i → i < w.last →
      ∃ p, WritesAt Work.Writes h (buffer, i) p)
    (htodo : ∀ buffer ∈ todo, buffer ∈ buffers) (hl : w'.length = w.length) :
    Fenced buffers w' (h ++ (todo.map fun buffer =>
      .enqueue s (.copy buffer w.first w.last)) ++ [.record .evPostFence s]) := by
  induction todo generalizing h with
  | nil =>
    rw [List.map_nil, List.append_nil]
    obtain ⟨hO', hrec⟩ := hO.record hr
    refine ⟨hO', fun buffer hb i hi => ?_, hrec⟩
    have hi' : i < w.length := hl ▸ hi.1
    have hp : ∃ p, WritesAt Work.Writes h (buffer, i) p := by
      by_cases hin : w.first ≤ i ∧ i < w.last
      · exact hdone buffer hb List.not_mem_nil i hin.1 hin.2
      · exact hw buffer hb i ⟨hi', hin⟩
    obtain ⟨p, hp⟩ := hp
    exact ⟨p, WritesAt.append hp⟩
  | cons next todo ih =>
    obtain ⟨hO', hr'⟩ := hO.copy hr (htodo next (.head _)) hd
    have happ : h ++ ((next :: todo).map fun buffer =>
        (Cmd.enqueue s (.copy buffer w.first w.last) : Command S)) =
        h ++ [.enqueue s (.copy next w.first w.last)] ++ (todo.map fun buffer =>
          .enqueue s (.copy buffer w.first w.last)) := by simp
    rw [happ]
    refine ih hO' hr' (fun buffer hb i hi => ?_) (fun buffer hb hn i h₁ h₂ => ?_)
      (fun buffer hb => htodo buffer (.tail _ hb))
    · obtain ⟨p, hp⟩ := hw buffer hb i hi
      exact ⟨p, WritesAt.append hp⟩
    · by_cases heq : buffer = next
      · subst heq
        exact ⟨h.length, s, _, getElem?_concat.2 (.inr ⟨rfl, rfl⟩), rfl, h₁, h₂⟩
      · obtain ⟨p, hp⟩ := hdone buffer hb (by simp [heq, hn]) i h₁ h₂
        exact ⟨p, WritesAt.append hp⟩

/-! ## What an export delivers -/

/-- Among the copies of an element one is the last. -/
theorem Ordered.lastWriter (hO : Ordered buffers h) {i : Nat}
    (hw : ∃ p, WritesAt Work.Writes h (buffer, i) p) :
    ∃ p, LastWriter Work.Writes h (buffer, i) p := by
  classical
  obtain ⟨p₀, hp₀⟩ := hw
  have hlt : ∀ p, WritesAt Work.Writes h (buffer, i) p → p ≤ h.length := fun p hp => by
    obtain ⟨f, hp, -⟩ := WritesAt.copyAt hp
    exact hp.lt_length.le
  have hspec := Nat.findGreatest_spec (hlt p₀ hp₀) hp₀
  refine ⟨_, hspec, fun q hq hne => ?_⟩
  have hle := Nat.le_findGreatest (hlt q hq) hq
  obtain ⟨f, hcq, -⟩ := WritesAt.copyAt hq
  obtain ⟨g, hcp, -⟩ := WritesAt.copyAt hspec
  exact hO.copies _ _ f g hcq hcp (lt_of_le_of_ne hle hne)

/-- **Which streams have the elements** of a batch with nothing dirty: those that reach the last
export that copied. -/
theorem Fenced.delivered_iff (hF : Fenced buffers w h) (hd : ¬w.Dirty) :
    Delivered h s buffers w.length ↔ Reaches h s w.length := by
  constructor
  · intro hdel l hl
    by_contra hn
    rw [not_or, not_or, Bool.not_eq_true, not_le] at hn
    obtain ⟨hs, hsync, hlt⟩ := hn
    obtain ⟨buffer, hb, p, hw, hmax, hh, hns⟩ := hF.hidden l hl hsync
    obtain ⟨p', ⟨hw', hlast⟩, hp'⟩ := settled_iff.1 (hdel buffer hb l.first hlt)
    have heq : p = p' := by
      by_contra hne
      obtain ⟨f, hcp, -⟩ := WritesAt.copyAt hw'
      have hle := hmax p' f hcp
      have hbef := (hlast p hw hne).lt
      omega
    subst heq
    rcases hp' with hp' | hp'
    · exact hns s (Ne.symm hs) hp'
    · exact hh hp'
  · intro hr buffer hb i hi
    have hc : w.Clean i := ⟨hi, fun hin => hd (lt_of_le_of_lt hin.1 hin.2)⟩
    obtain ⟨p, hp⟩ := hF.toOrdered.lastWriter (hF.written buffer hb i hc)
    refine settled_iff.2 ⟨p, hp, ?_⟩
    obtain ⟨f, hcp, hfi⟩ := WritesAt.copyAt hp.1
    rcases hF.reached p f hcp with hh | ⟨l, hl, hsync, rfl, hs⟩
    · exact .inr hh
    · rcases hr l hl with rfl | hsync' | hle
      · exact .inl hs
      · rw [hsync'] at hsync
        cases hsync
      · omega

end

end Nvcv
