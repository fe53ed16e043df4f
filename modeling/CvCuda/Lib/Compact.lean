import Mathlib.Tactic

/-! # Compaction

Blocks select some of their items. Each reserves a range of the output, by adding to a shared size
how many it selected, and writes its items there; blocks reserve in any order, and items are
written in any order.

* `reserve`: what the shared size becomes and what a block finds in it.
* `getElem?_flatMap`, `exists_of_getElem?_flatMap`: in the order of the reservations the ranges
  hold the selected items one after another.
* `getElem?_filter`, `exists_of_getElem?_filter`: the rank of an item among the selected ones.
* `nodup_flatMap_of_key`: items of which a key gives the block are not in two blocks.
* `writeAll`: writes, of which later ones win.
* `complete_of_ranks`: items written at places their ranks give make a complete list.
-/

namespace Compact

variable {β γ : Type*} [DecidableEq β]

/-! ## Reserving -/

/-- The shared size, and what each block found there. -/
structure Reservation (β : Type*) where
  size : ℤ
  base : β → ℤ

/-- A block adds its count to the size. -/
def reserve (wrap : ℤ → ℤ) (cnt : β → Nat) (r : Reservation β) (b : β) : Reservation β where
  size := wrap (r.size + cnt b)
  base := Function.update r.base b r.size

/-- How much is reserved before a block. -/
def before (cnt : β → Nat) (order : List β) (b : β) : Nat :=
  ((order.takeWhile (· ≠ b)).map cnt).sum

theorem before_cons_self (cnt : β → Nat) (order : List β) (b : β) :
    before cnt (b :: order) b = 0 := by
  simp [before]

theorem before_cons_of_ne (cnt : β → Nat) (order : List β) {a b : β} (h : a ≠ b) :
    before cnt (a :: order) b = cnt a + before cnt order b := by
  simp [before, h]

section
variable {wrap : ℤ → ℤ} (hw : ∀ a b, wrap (wrap a + b) = wrap (a + b)) (cnt : β → Nat)
include hw

theorem foldl_reserve_size (order : List β) (n : ℤ) (base : β → ℤ) :
    (order.foldl (reserve wrap cnt) ⟨wrap n, base⟩).size = wrap (n + (order.map cnt).sum) := by
  induction order generalizing n base with
  | nil => simp
  | cons a order ih =>
    rw [List.foldl_cons, reserve, hw, ih, List.map_cons, List.sum_cons]
    push_cast
    rw [add_assoc]

omit hw in
theorem foldl_reserve_frame {order : List β} {b : β} (h : b ∉ order) (r : Reservation β) :
    (order.foldl (reserve wrap cnt) r).base b = r.base b := by
  induction order generalizing r with
  | nil => rfl
  | cons a order ih =>
    rw [List.foldl_cons, ih (fun hb => h (.tail a hb)), reserve]
    exact Function.update_of_ne (fun hba : b = a => h (hba ▸ List.mem_cons_self)) ..

/-- A block finds what was reserved before it. -/
theorem foldl_reserve_base {order : List β} (hnd : order.Nodup) {b : β} (hb : b ∈ order) (n : ℤ)
    (base : β → ℤ) : (order.foldl (reserve wrap cnt) ⟨wrap n, base⟩).base b =
      wrap (n + before cnt order b) := by
  induction order generalizing n base with
  | nil => cases hb
  | cons a order ih =>
    obtain ⟨ha, hnd⟩ := List.nodup_cons.1 hnd
    rw [List.foldl_cons]
    by_cases hab : a = b
    · subst hab
      rw [foldl_reserve_frame cnt ha, before_cons_self, reserve]
      simp
    · have hb : b ∈ order := (List.mem_cons.1 hb).resolve_left (Ne.symm hab)
      rw [reserve, hw, ih hnd hb, before_cons_of_ne cnt order hab]
      push_cast
      rw [add_assoc]

end

/-! ## The ranges -/

variable {items : β → List γ} {cnt : β → Nat} (hcnt : ∀ b, cnt b = (items b).length)
include hcnt

omit [DecidableEq β] in
theorem length_flatMap (order : List β) :
    (order.flatMap items).length = (order.map cnt).sum := by
  rw [List.length_flatMap]
  exact congrArg List.sum (List.map_congr_left fun b _ => (hcnt b).symm)

/-- A block's range holds its items. -/
theorem getElem?_flatMap {order : List β} {b : β} (hb : b ∈ order) {k : Nat} {c : γ}
    (hk : (items b)[k]? = some c) : (order.flatMap items)[before cnt order b + k]? = some c := by
  induction order with
  | nil => cases hb
  | cons a order ih =>
    rw [List.flatMap_cons]
    by_cases hab : a = b
    · subst hab
      rw [before_cons_self, zero_add,
        List.getElem?_append_left (List.getElem?_eq_some_iff.1 hk).1, hk]
    · have hb : b ∈ order := (List.mem_cons.1 hb).resolve_left (Ne.symm hab)
      rw [before_cons_of_ne cnt order hab, hcnt a, add_assoc,
        List.getElem?_append_right (Nat.le_add_right ..), Nat.add_sub_cancel_left]
      exact ih hb

theorem exists_of_getElem?_flatMap {order : List β} (hnd : order.Nodup) {n : Nat} {c : γ}
    (h : (order.flatMap items)[n]? = some c) :
    ∃ b ∈ order, ∃ k, (items b)[k]? = some c ∧ n = before cnt order b + k := by
  induction order generalizing n with
  | nil => cases h
  | cons a order ih =>
    obtain ⟨ha, hnd⟩ := List.nodup_cons.1 hnd
    rw [List.flatMap_cons] at h
    by_cases hn : n < (items a).length
    · rw [List.getElem?_append_left hn] at h
      exact ⟨a, .head _, n, h, by rw [before_cons_self, zero_add]⟩
    · rw [List.getElem?_append_right (not_lt.1 hn)] at h
      obtain ⟨b, hb, k, hk, heq⟩ := ih hnd h
      refine ⟨b, .tail a hb, k, hk, ?_⟩
      rw [before_cons_of_ne cnt order (fun hab : a = b => ha (hab ▸ hb)), hcnt a]
      omega

end Compact

namespace Compact

variable {β γ : Type*}

theorem nodup_flatMap_of_key {order : List β} {items : β → List γ} (hnd : order.Nodup)
    (key : γ → β) (hkey : ∀ b ∈ order, ∀ c ∈ items b, key c = b)
    (hitems : ∀ b ∈ order, (items b).Nodup) : (order.flatMap items).Nodup := by
  refine List.nodup_flatMap.2 ⟨hitems, hnd.imp_of_mem fun {a b} ha hb hne => ?_⟩
  exact fun c hca hcb => hne ((hkey a ha c hca).symm.trans (hkey b hb c hcb))

/-! ## Ranks -/

/-- An item that is selected has as its rank how many before it are. -/
theorem getElem?_filter {p : γ → Bool} {l : List γ} {k : Nat} {c : γ} (h : l[k]? = some c)
    (hp : p c = true) : (l.filter p)[(l.take k).countP p]? = some c := by
  induction l generalizing k with
  | nil => cases h
  | cons a l ih =>
    cases k with
    | zero =>
      obtain rfl : a = c := Option.some.inj h
      simp [hp]
    | succ k =>
      have := ih (k := k) h
      by_cases ha : p a = true
      · simpa [List.filter_cons, ha] using this
      · simpa [List.filter_cons, ha] using this

theorem exists_of_getElem?_filter {p : γ → Bool} {l : List γ} {n : Nat} {c : γ}
    (h : (l.filter p)[n]? = some c) :
    ∃ k, l[k]? = some c ∧ p c = true ∧ (l.take k).countP p = n := by
  induction l generalizing n with
  | nil => cases h
  | cons a l ih =>
    by_cases ha : p a = true
    · rw [List.filter_cons_of_pos ha] at h
      cases n with
      | zero =>
        obtain rfl : a = c := Option.some.inj h
        exact ⟨0, rfl, ha, rfl⟩
      | succ n =>
        obtain ⟨k, hk, hp, hn⟩ := ih h
        exact ⟨k + 1, hk, hp, by rw [List.take_succ_cons, List.countP_cons_of_pos ha, hn]⟩
    · rw [List.filter_cons_of_neg ha] at h
      obtain ⟨k, hk, hp, hn⟩ := ih h
      exact ⟨k + 1, hk, hp, by rw [List.take_succ_cons, List.countP_cons_of_neg ha, hn]⟩

/-! ## Writing -/

/-- The writes `ws`, one after another. -/
def writeAll (ws : List (ℤ × γ)) (loc : ℤ → Option γ) : ℤ → Option γ :=
  ws.foldl (fun loc w => Function.update loc w.1 (some w.2)) loc

/-- A place no write is to stays. -/
theorem writeAll_frame {ws : List (ℤ × γ)} {i : ℤ} (h : ∀ c, (i, c) ∉ ws) (loc : ℤ → Option γ) :
    writeAll ws loc i = loc i := by
  induction ws generalizing loc with
  | nil => rfl
  | cons w ws ih =>
    refine (ih (fun c hc => h c (.tail w hc)) _).trans (Function.update_of_ne ?_ ..)
    exact fun hw => h w.2 (hw ▸ .head _)

/-- A place some write is to holds what one of them wrote. -/
theorem writeAll_mem {ws : List (ℤ × γ)} {i : ℤ} {c : γ} (h : (i, c) ∈ ws) (loc : ℤ → Option γ) :
    ∃ d, (i, d) ∈ ws ∧ writeAll ws loc i = some d := by
  induction ws generalizing loc c with
  | nil => cases h
  | cons w ws ih =>
    by_cases hlater : ∃ d, (i, d) ∈ ws
    · obtain ⟨d, hd⟩ := hlater
      obtain ⟨e, he, heq⟩ := ih hd (Function.update loc w.1 (some w.2))
      exact ⟨e, .tail w he, heq⟩
    · -- this is the last write there
      have hw : w = (i, c) := by
        rcases List.mem_cons.1 h with hw | hw
        · exact hw.symm
        · exact absurd ⟨c, hw⟩ hlater
      refine ⟨c, h, (writeAll_frame (fun d hd => hlater ⟨d, hd⟩) _).trans ?_⟩
      rw [hw]
      exact Function.update_self ..

theorem mem_of_writeAll {ws : List (ℤ × γ)} {i : ℤ} {d : γ}
    (h : writeAll ws (fun _ => none) i = some d) : (i, d) ∈ ws := by
  by_cases hex : ∃ c, (i, c) ∈ ws
  · obtain ⟨c, hc⟩ := hex
    obtain ⟨e, he, heq⟩ := writeAll_mem hc fun _ => none
    rwa [Option.some.inj (h.symm.trans heq)]
  · rw [writeAll_frame (fun c hc => hex ⟨c, hc⟩)] at h
    cases h

/-! ## Complete lists -/

/-- A list reports how many items there are, and as many of them as it has room for, each once. -/
structure Complete (capacity : Nat) (num : ℤ) (loc : ℤ → Option γ) (S : Finset γ) : Prop where
  count : num = S.card
  entry : ∀ i < min S.card capacity, ∃ c ∈ S, loc i = some c
  inj : ∀ i < min S.card capacity, ∀ j < min S.card capacity, loc i = loc j → i = j

theorem card_eq_length {ranks : List γ} {S : Finset γ} (hnd : ranks.Nodup)
    (hS : ∀ c, c ∈ ranks ↔ c ∈ S) : S.card = ranks.length := by
  classical
  rw [← List.toFinset_card_of_nodup hnd]
  exact congrArg Finset.card (Finset.ext fun c => by rw [List.mem_toFinset, hS])

/-- Items at places that depend on their rank only. -/
theorem complete_of_ranks {capacity : Nat} {num : ℤ} {S : Finset γ} {ranks : List γ}
    (hnd : ranks.Nodup) (hS : ∀ c, c ∈ ranks ↔ c ∈ S) (hnum : num = ranks.length) (slot : Nat → ℤ)
    {ws : List (ℤ × γ)} (hws : ∀ i c, (i, c) ∈ ws → ∃ n, ranks[n]? = some c ∧ i = slot n)
    (hall : ∀ n < min ranks.length capacity, ∃ c, ((n : ℤ), c) ∈ ws) :
    Complete capacity num (writeAll ws fun _ => none) S := by
  have hcard := card_eq_length hnd hS
  refine ⟨by rw [hnum, hcard], fun i hi => ?_, fun i hi j hj heq => ?_⟩
  · rw [hcard] at hi
    obtain ⟨c, hc⟩ := hall i hi
    obtain ⟨d, hd, hloc⟩ := writeAll_mem hc fun _ => none
    obtain ⟨n, hn, -⟩ := hws _ _ hd
    exact ⟨d, (hS d).1 (List.mem_of_getElem? hn), hloc⟩
  · rw [hcard] at hi
    obtain ⟨c, hc⟩ := hall i hi
    obtain ⟨d, -, hloc⟩ := writeAll_mem hc fun _ => none
    obtain ⟨n, hn, hslot⟩ := hws _ _ (mem_of_writeAll hloc)
    obtain ⟨n', hn', hslot'⟩ := hws _ _ (mem_of_writeAll (heq.symm.trans hloc))
    -- the item has one rank
    obtain ⟨hlt, hget⟩ := List.getElem?_eq_some_iff.1 hn
    obtain ⟨hlt', hget'⟩ := List.getElem?_eq_some_iff.1 hn'
    have : n = n' := (hnd.getElem_inj_iff).1 (hget.trans hget'.symm)
    rw [← this, ← hslot] at hslot'
    exact_mod_cast hslot'.symm

end Compact
