import Mathlib.Data.Set.Basic
import Mathlib.Logic.Relation

/-! # The order of work on streams

One host thread hands commands to streams. A stream does its commands one after another, streams
do theirs at the same time, and what orders commands of different streams are events: a stream or
the host waits for what came before an event's last record. Commands are named by their positions
in the history of all commands.

* `Before`: the order that holds however the streams run.
* `OnStream`, `OnHost`, `AtEvent`: what comes before the next command of a stream, before any next
  command, and before who waits for an event (`before_concat`); `onStream_concat`, `onHost_concat`
  and `atEvent_concat` say what a command adds to them.
* `settled_iff`: when whatever a stream does next finds what was last written somewhere.
-/

namespace StreamOrder

/-- `synchronize` is the host's wait for an event. -/
inductive Cmd (S E W : Type*) where
  | enqueue (s : S) (w : W)
  | record (e : E) (s : S)
  | waitEvent (s : S) (e : E)
  | synchronize (e : E)
  deriving DecidableEq

variable {S E W X : Type*}

/-- The stream of a command. -/
def Cmd.stream? : Cmd S E W → Option S
  | .enqueue s _ | .record _ s | .waitEvent s _ => some s
  | .synchronize _ => none

/-- The event a command waits for. -/
def Cmd.awaited? : Cmd S E W → Option E
  | .waitEvent _ e | .synchronize e => some e
  | .enqueue _ _ | .record _ _ => none

/-- The command at position `i` is the last one that records the event. -/
def LastRecord (h : List (Cmd S E W)) (e : E) (i : Nat) : Prop :=
  (∃ s, h[i]? = some (.record e s)) ∧ ∀ k s, i < k → h[k]? ≠ some (.record e s)

/-- What orders two commands: their stream, the host, which issues nothing before its wait ends,
or an event. -/
inductive Direct (h : List (Cmd S E W)) (i j : Nat) : Prop where
  | stream {s : S} {c d : Cmd S E W} (lt : i < j) (hi : h[i]? = some c) (hj : h[j]? = some d)
      (hc : c.stream? = some s) (hd : d.stream? = some s)
  | host {e : E} {d : Cmd S E W} (lt : i < j) (hi : h[i]? = some (.synchronize e))
      (hj : h[j]? = some d)
  | event {e : E} {d : Cmd S E W} (lt : i < j) (hi : LastRecord (h.take j) e i)
      (hj : h[j]? = some d) (hd : d.awaited? = some e)

/-- The command at `i` ends before the one at `j` starts. -/
def Before (h : List (Cmd S E W)) : Nat → Nat → Prop := Relation.TransGen (Direct h)

/-- `i` is `j` or comes before it. -/
def UpTo (h : List (Cmd S E W)) : Nat → Nat → Prop := Relation.ReflTransGen (Direct h)

/-- What comes before the next command of a stream because of the stream. -/
def OnStream (h : List (Cmd S E W)) (s : S) : Set Nat :=
  {i | ∃ j c, h[j]? = some c ∧ c.stream? = some s ∧ UpTo h i j}

/-- What comes before any next command. -/
def OnHost (h : List (Cmd S E W)) : Set Nat :=
  {i | ∃ j e, h[j]? = some (.synchronize e) ∧ UpTo h i j}

/-- What comes before a command that waits for an event. -/
def AtEvent (h : List (Cmd S E W)) (e : E) : Set Nat :=
  {i | ∃ j, LastRecord h e j ∧ UpTo h i j}

/-- What comes before a next command. -/
def Past (h : List (Cmd S E W)) (c : Cmd S E W) : Set Nat :=
  {i | (∃ s, c.stream? = some s ∧ i ∈ OnStream h s) ∨ i ∈ OnHost h ∨
    ∃ e, c.awaited? = some e ∧ i ∈ AtEvent h e}

variable {h : List (Cmd S E W)} {c : Cmd S E W} {s : S} {e : E} {i j : Nat}

/-! ## One more command -/

theorem Direct.lt (hd : Direct h i j) : i < j := by
  cases hd <;> assumption

theorem Direct.lt_length (hd : Direct h i j) : j < h.length := by
  cases hd with
  | stream _ _ hj => exact (List.getElem?_eq_some_iff.1 hj).1
  | host _ _ hj => exact (List.getElem?_eq_some_iff.1 hj).1
  | event _ _ hj => exact (List.getElem?_eq_some_iff.1 hj).1

theorem UpTo.le (hr : UpTo h i j) : i ≤ j := by
  induction hr with
  | refl => exact Nat.le_refl i
  | tail _ hd ih => exact ih.trans hd.lt.le

theorem Before.lt (hb : Before h i j) : i < j := by
  induction hb with
  | single hd => exact hd.lt
  | tail _ hd ih => exact ih.trans hd.lt

/-- What orders two commands does not depend on later ones. -/
theorem direct_append {rest : List (Cmd S E W)} (hj : j < h.length) :
    Direct (h ++ rest) i j ↔ Direct h i j := by
  have hat : ∀ k < h.length, (h ++ rest)[k]? = h[k]? := fun k hk => List.getElem?_append_left hk
  have htake : (h ++ rest).take j = h.take j := List.take_append_of_le_length hj.le
  constructor
  · intro hd
    have hi := hd.lt
    cases hd with
    | stream lt h₁ h₂ hc hd => exact .stream lt (hat i (by omega) ▸ h₁) (hat j hj ▸ h₂) hc hd
    | host lt h₁ h₂ => exact .host lt (hat i (by omega) ▸ h₁) (hat j hj ▸ h₂)
    | event lt h₁ h₂ hd => exact .event lt (htake ▸ h₁) (hat j hj ▸ h₂) hd
  · intro hd
    have hi := hd.lt
    cases hd with
    | stream lt h₁ h₂ hc hd => exact .stream lt (hat i (by omega) ▸ h₁) (hat j hj ▸ h₂) hc hd
    | host lt h₁ h₂ => exact .host lt (hat i (by omega) ▸ h₁) (hat j hj ▸ h₂)
    | event lt h₁ h₂ hd => exact .event lt (htake ▸ h₁) (hat j hj ▸ h₂) hd

theorem upTo_append {rest : List (Cmd S E W)} (hj : j < h.length) :
    UpTo (h ++ rest) i j ↔ UpTo h i j := by
  constructor
  · intro hr
    induction hr with
    | refl => exact .refl
    | tail _ hd ih =>
      have hd := (direct_append hj).1 hd
      exact .tail (ih (hd.lt.trans hj)) hd
  · intro hr
    induction hr with
    | refl => exact .refl
    | tail _ hd ih => exact .tail (ih (hd.lt.trans hj)) ((direct_append hj).2 hd)

theorem before_append {rest : List (Cmd S E W)} (hj : j < h.length) :
    Before (h ++ rest) i j ↔ Before h i j := by
  unfold Before
  rw [Relation.TransGen.tail'_iff, Relation.TransGen.tail'_iff]
  refine exists_congr fun k => ?_
  constructor
  · rintro ⟨hr, hd⟩
    have hd := (direct_append hj).1 hd
    exact ⟨(upTo_append (hd.lt.trans hj)).1 hr, hd⟩
  · rintro ⟨hr, hd⟩
    exact ⟨(upTo_append (hd.lt.trans hj)).2 hr, (direct_append hj).2 hd⟩

theorem LastRecord.lt_length (hr : LastRecord h e i) : i < h.length := by
  obtain ⟨⟨s, hs⟩, -⟩ := hr
  exact (List.getElem?_eq_some_iff.1 hs).1

theorem getElem?_concat {d : Cmd S E W} :
    (h ++ [c])[i]? = some d ↔ h[i]? = some d ∨ i = h.length ∧ c = d := by
  rcases lt_trichotomy i h.length with hi | hi | hi
  · rw [List.getElem?_append_left hi]
    simp [hi.ne]
  · subst hi
    simp
  · rw [List.getElem?_eq_none (by simp; omega), List.getElem?_eq_none hi.le]
    simp [hi.ne']

theorem direct_concat : Direct (h ++ [c]) i h.length ↔
    (∃ s d, c.stream? = some s ∧ h[i]? = some d ∧ d.stream? = some s) ∨
      (∃ e, h[i]? = some (.synchronize e)) ∨ ∃ e, c.awaited? = some e ∧ LastRecord h e i := by
  have hlast : (h ++ [c])[h.length]? = some c := by simp
  constructor
  · intro hd
    have hi : (h ++ [c])[i]? = h[i]? := List.getElem?_append_left hd.lt
    cases hd with
    | stream lt h₁ h₂ hc hd =>
      rw [hi] at h₁
      rw [hlast] at h₂
      cases h₂
      exact .inl ⟨_, _, hd, h₁, hc⟩
    | host lt h₁ h₂ =>
      rw [hi] at h₁
      exact .inr (.inl ⟨_, h₁⟩)
    | event lt h₁ h₂ hd =>
      rw [hlast] at h₂
      cases h₂
      rw [List.take_left] at h₁
      exact .inr (.inr ⟨_, hd, h₁⟩)
  · have hcat : ∀ d, h[i]? = some d → i < h.length ∧ (h ++ [c])[i]? = some d := fun d hd => by
      have hi := (List.getElem?_eq_some_iff.1 hd).1
      exact ⟨hi, (List.getElem?_append_left hi).trans hd⟩
    rintro (⟨s, d, hc, hi, hd⟩ | ⟨e, hi⟩ | ⟨e, hc, hi⟩)
    · obtain ⟨hlt, hi⟩ := hcat d hi
      exact .stream hlt hi hlast hd hc
    · obtain ⟨hlt, hi⟩ := hcat _ hi
      exact .host hlt hi hlast
    · exact .event hi.lt_length (by rwa [List.take_left]) hlast hc

/-- **What comes before the next command.** -/
theorem before_concat : Before (h ++ [c]) i h.length ↔ i ∈ Past h c := by
  unfold Before
  rw [Relation.TransGen.tail'_iff]
  constructor
  · rintro ⟨k, hr, hd⟩
    have hr : UpTo h i k := (upTo_append hd.lt).1 hr
    rcases direct_concat.1 hd with ⟨s, d, hc, hk, hd⟩ | ⟨e, hk⟩ | ⟨e, hc, hk⟩
    · exact .inl ⟨s, hc, k, d, hk, hd, hr⟩
    · exact .inr (.inl ⟨k, e, hk, hr⟩)
    · exact .inr (.inr ⟨e, hc, k, hk, hr⟩)
  · rintro (⟨s, hc, k, d, hk, hd, hr⟩ | ⟨k, e, hk, hr⟩ | ⟨e, hc, k, hk, hr⟩)
    · have hl := (List.getElem?_eq_some_iff.1 hk).1
      exact ⟨k, (upTo_append hl).2 hr, direct_concat.2 (.inl ⟨s, d, hc, hk, hd⟩)⟩
    · have hl := (List.getElem?_eq_some_iff.1 hk).1
      exact ⟨k, (upTo_append hl).2 hr, direct_concat.2 (.inr (.inl ⟨e, hk⟩))⟩
    · exact ⟨k, (upTo_append hk.lt_length).2 hr, direct_concat.2 (.inr (.inr ⟨e, hc, hk⟩))⟩

theorem upTo_concat : UpTo (h ++ [c]) i h.length ↔ i = h.length ∨ i ∈ Past h c := by
  rw [← before_concat]
  unfold UpTo Before
  rw [Relation.reflTransGen_iff_eq_or_transGen]
  exact or_congr_left eq_comm

/-! ## What a command adds -/

theorem onStream_concat : i ∈ OnStream (h ++ [c]) s ↔
    i ∈ OnStream h s ∨ c.stream? = some s ∧ (i = h.length ∨ i ∈ Past h c) := by
  constructor
  · rintro ⟨j, d, hj, hd, hr⟩
    rcases getElem?_concat.1 hj with hj | ⟨rfl, rfl⟩
    · have hl := (List.getElem?_eq_some_iff.1 hj).1
      exact .inl ⟨j, d, hj, hd, (upTo_append hl).1 hr⟩
    · exact .inr ⟨hd, upTo_concat.1 hr⟩
  · rintro (⟨j, d, hj, hd, hr⟩ | ⟨hc, hi⟩)
    · have hl := (List.getElem?_eq_some_iff.1 hj).1
      exact ⟨j, d, getElem?_concat.2 (.inl hj), hd, (upTo_append hl).2 hr⟩
    · exact ⟨h.length, c, getElem?_concat.2 (.inr ⟨rfl, rfl⟩), hc, upTo_concat.2 hi⟩

theorem onHost_concat : i ∈ OnHost (h ++ [c]) ↔
    i ∈ OnHost h ∨ (∃ e, c = .synchronize e) ∧ (i = h.length ∨ i ∈ Past h c) := by
  constructor
  · rintro ⟨j, e, hj, hr⟩
    rcases getElem?_concat.1 hj with hj | ⟨rfl, rfl⟩
    · have hl := (List.getElem?_eq_some_iff.1 hj).1
      exact .inl ⟨j, e, hj, (upTo_append hl).1 hr⟩
    · exact .inr ⟨⟨e, rfl⟩, upTo_concat.1 hr⟩
  · rintro (⟨j, e, hj, hr⟩ | ⟨⟨e, rfl⟩, hi⟩)
    · have hl := (List.getElem?_eq_some_iff.1 hj).1
      exact ⟨j, e, getElem?_concat.2 (.inl hj), (upTo_append hl).2 hr⟩
    · exact ⟨h.length, e, getElem?_concat.2 (.inr ⟨rfl, rfl⟩), upTo_concat.2 hi⟩

theorem lastRecord_concat : LastRecord (h ++ [c]) e i ↔
    (∃ s, c = .record e s) ∧ i = h.length ∨ (¬∃ s, c = .record e s) ∧ LastRecord h e i := by
  unfold LastRecord
  simp only [getElem?_concat, ne_eq]
  constructor
  · rintro ⟨⟨s, hi | ⟨rfl, rfl⟩⟩, hl⟩
    · have hlt := (List.getElem?_eq_some_iff.1 hi).1
      exact .inr ⟨fun ⟨t, ht⟩ => hl _ t hlt (.inr ⟨rfl, ht⟩), ⟨s, hi⟩,
        fun k t hk hn => hl k t hk (.inl hn)⟩
    · exact .inl ⟨⟨s, rfl⟩, rfl⟩
  · rintro (⟨⟨s, rfl⟩, rfl⟩ | ⟨hc, ⟨s, hi⟩, hl⟩)
    · refine ⟨⟨s, .inr ⟨rfl, rfl⟩⟩, fun k t hk hn => ?_⟩
      rcases hn with hn | ⟨rfl, -⟩
      · exact absurd (List.getElem?_eq_some_iff.1 hn).1 (by omega)
      · exact Nat.lt_irrefl _ hk
    · refine ⟨⟨s, .inl hi⟩, fun k t hk hn => ?_⟩
      rcases hn with hn | ⟨-, rfl⟩
      · exact hl k t hk hn
      · exact hc ⟨t, rfl⟩

theorem atEvent_concat : i ∈ AtEvent (h ++ [c]) e ↔
    (∃ s, c = .record e s) ∧ (i = h.length ∨ i ∈ Past h c) ∨
      (¬∃ s, c = .record e s) ∧ i ∈ AtEvent h e := by
  constructor
  · rintro ⟨j, hj, hr⟩
    rcases lastRecord_concat.1 hj with ⟨hc, rfl⟩ | ⟨hc, hj⟩
    · exact .inl ⟨hc, upTo_concat.1 hr⟩
    · exact .inr ⟨hc, j, hj, (upTo_append hj.lt_length).1 hr⟩
  · rintro (⟨hc, hi⟩ | ⟨hc, j, hj, hr⟩)
    · exact ⟨h.length, lastRecord_concat.2 (.inl ⟨hc, rfl⟩), upTo_concat.2 hi⟩
    · exact ⟨j, lastRecord_concat.2 (.inr ⟨hc, hj⟩), (upTo_append hj.lt_length).2 hr⟩

@[simp] theorem mem_past_enqueue {w : W} :
    i ∈ Past h (.enqueue s w) ↔ i ∈ OnStream h s ∨ i ∈ OnHost h := by
  simp [Past, Cmd.stream?, Cmd.awaited?]

@[simp] theorem mem_past_record :
    i ∈ Past h (.record e s) ↔ i ∈ OnStream h s ∨ i ∈ OnHost h := by
  simp [Past, Cmd.stream?, Cmd.awaited?]

@[simp] theorem mem_past_waitEvent :
    i ∈ Past h (.waitEvent s e) ↔ i ∈ OnStream h s ∨ i ∈ OnHost h ∨ i ∈ AtEvent h e := by
  simp [Past, Cmd.stream?, Cmd.awaited?]

@[simp] theorem mem_past_synchronize :
    i ∈ Past h (.synchronize e) ↔ i ∈ OnHost h ∨ i ∈ AtEvent h e := by
  simp [Past, Cmd.stream?, Cmd.awaited?]

theorem onStream_append {rest : List (Cmd S E W)} (hi : i ∈ OnStream h s) :
    i ∈ OnStream (h ++ rest) s := by
  obtain ⟨j, c, hj, hc, hr⟩ := hi
  have hl := (List.getElem?_eq_some_iff.1 hj).1
  exact ⟨j, c, (List.getElem?_append_left hl).trans hj, hc, (upTo_append hl).2 hr⟩

theorem onHost_append {rest : List (Cmd S E W)} (hi : i ∈ OnHost h) : i ∈ OnHost (h ++ rest) := by
  obtain ⟨j, e, hj, hr⟩ := hi
  have hl := (List.getElem?_eq_some_iff.1 hj).1
  exact ⟨j, e, (List.getElem?_append_left hl).trans hj, (upTo_append hl).2 hr⟩

theorem not_mem_onStream_nil : i ∉ OnStream ([] : List (Cmd S E W)) s := by
  rintro ⟨j, c, hj, -⟩
  cases hj

theorem not_mem_onHost_nil : i ∉ OnHost ([] : List (Cmd S E W)) := by
  rintro ⟨j, e, hj, -⟩
  cases hj

/-! ## What was last written -/

section
variable (writes : W → X → Prop)

/-- The command at `p` writes `x`. -/
def WritesAt (h : List (Cmd S E W)) (x : X) (p : Nat) : Prop :=
  ∃ s w, h[p]? = some (.enqueue s w) ∧ writes w x

/-- The command at `p` writes `x`, and no other one may end after it. -/
def LastWriter (h : List (Cmd S E W)) (x : X) (p : Nat) : Prop :=
  WritesAt writes h x p ∧ ∀ q, WritesAt writes h x q → q ≠ p → Before h q p

/-- `x` was last written by a command that ends before anything starts that is enqueued on the
stream from here on, whatever comes in between. -/
def Settled (h : List (Cmd S E W)) (s : S) (x : X) : Prop :=
  ∃ p, LastWriter writes h x p ∧
    ∀ rest w, Before (h ++ rest ++ [.enqueue s w]) p (h ++ rest).length

end

variable {writes : W → X → Prop} {x : X}

theorem settled_iff [Nonempty W] : Settled writes h s x ↔
    ∃ p, LastWriter writes h x p ∧ (p ∈ OnStream h s ∨ p ∈ OnHost h) := by
  refine exists_congr fun p => and_congr_right fun _ => ?_
  constructor
  · intro hb
    obtain ⟨w⟩ := ‹Nonempty W›
    have hb := hb [] w
    rw [before_concat, List.append_nil] at hb
    exact mem_past_enqueue.1 hb
  · intro hp rest w
    rw [before_concat]
    exact mem_past_enqueue.2 (hp.imp onStream_append onHost_append)

end StreamOrder
