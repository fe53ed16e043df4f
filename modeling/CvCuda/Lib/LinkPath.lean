import Mathlib.Tactic

/-! # Paths of a forward list

`LinkPath next p ns q`: from `p`, the links `next` go through the nodes `ns`, in order, to `q`.
A list in memory is a path to the null pointer, determined by its head (`LinkPath.unique`). A
store to a node outside a path keeps the path (`LinkPath.update`), and paths are joined end to
end (`LinkPath.append`).
-/

/-- From `p` the links go through `ns` to `q`. -/
def LinkPath {α : Type*} (next : α → α) : α → List α → α → Prop
  | p, [], q => p = q
  | p, n :: ns, q => p = n ∧ LinkPath next (next n) ns q

instance instDecidableLinkPath {α : Type*} [DecidableEq α] (next : α → α) :
    ∀ p ns q, Decidable (LinkPath next p ns q)
  | _, [], _ => inferInstanceAs (Decidable (_ = _))
  | p, n :: ns, q =>
    have := instDecidableLinkPath next (next n) ns q
    inferInstanceAs (Decidable (p = n ∧ LinkPath next (next n) ns q))

namespace LinkPath

variable {α : Type*} {next : α → α} {p q r : α} {ns ms : List α}

theorem append (h : LinkPath next p ns q) (h' : LinkPath next q ms r) : LinkPath next p (ns ++ ms) r := by
  induction ns generalizing p with
  | nil =>
    obtain rfl : p = q := h
    exact h'
  | cons n ns ih => exact ⟨h.1, ih h.2⟩

/-- A path starts at one of its nodes, or at its end. -/
theorem head_mem (h : LinkPath next p ns q) : p ∈ ns ++ [q] := by
  cases ns with
  | nil =>
    obtain rfl : p = q := h
    exact .head _
  | cons n ns =>
    obtain ⟨rfl, -⟩ := h
    exact .head _

/-- A path depends on the links of its nodes only. -/
theorem congr {next' : α → α} (h : LinkPath next p ns q) (hn : ∀ n ∈ ns, next' n = next n) :
    LinkPath next' p ns q := by
  induction ns generalizing p with
  | nil => exact h
  | cons m ms ih =>
    refine ⟨h.1, ?_⟩
    rw [hn m (.head _)]
    exact ih h.2 fun n hm => hn n (.tail _ hm)

theorem update [DecidableEq α] {n : α} (v : α) (hn : n ∉ ns) (h : LinkPath next p ns q) :
    LinkPath (Function.update next n v) p ns q :=
  h.congr fun _ hm => Function.update_of_ne (ne_of_mem_of_not_mem hm hn) ..

/-- A path to a null pointer that is none of its nodes is determined by its head. -/
theorem unique {null : α} (hn : null ∉ ns) (hm : null ∉ ms) (h : LinkPath next p ns null)
    (h' : LinkPath next p ms null) : ns = ms := by
  induction ns generalizing p ms with
  | nil =>
    cases ms with
    | nil => rfl
    | cons m ms => exact absurd (h.symm.trans h'.1 ▸ List.mem_cons_self) hm
  | cons n ns ih =>
    cases ms with
    | nil => exact absurd (h'.symm.trans h.1 ▸ List.mem_cons_self) hn
    | cons m ms =>
      obtain ⟨rfl, h⟩ := h
      obtain ⟨rfl, h'⟩ := h'
      rw [ih (fun hi => hn (.tail _ hi)) (fun hi => hm (.tail _ hi)) h h']

end LinkPath
