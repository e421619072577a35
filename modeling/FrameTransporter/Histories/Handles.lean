import Mathlib.Data.Finset.Basic
import Mathlib.Data.List.Count

/-! # Histories of handles

A program acquires handles from a system, works with the ones it holds, and gives
them back. A history of these calls is correct if no handle is used or released
while it is not held, so that none is released twice. In a correct history each
handle was acquired as often as it was released, and once more if it is held.
-/

namespace Handles

variable {α : Type*} [DecidableEq α]

/-- A call with a handle. -/
inductive Call (α : Type*)
  | acquire (a : α)
  | use (a : α)
  | release (a : α)
  deriving DecidableEq

/-- The handles held after a call, which is null if the call is not correct. -/
def step (s : Finset α) : Call α → Option (Finset α)
  | .acquire a => if a ∈ s then none else some (insert a s)
  | .use a => if a ∈ s then some s else none
  | .release a => if a ∈ s then some (s.erase a) else none

/-- The handles held after a history, which is null if the history is not correct. -/
def held (h : List (Call α)) : Option (Finset α) := h.foldlM step ∅

section Held

variable {h g : List (Call α)} {s t : Finset α} {a b : α}

theorem held_append (hh : held h = some s) : held (h ++ g) = g.foldlM step s := by
  rw [held, List.foldlM_append]
  change (held h).bind _ = _
  rw [hh]
  rfl

theorem held_acquire (hh : held h = some s) (ha : a ∉ s) :
    held (h ++ [.acquire a]) = some (insert a s) := by
  rw [held_append hh, List.foldlM_cons, step, if_neg ha]
  rfl

theorem held_use (hh : held h = some s) (ha : a ∈ s) : held (h ++ [.use a]) = some s := by
  rw [held_append hh, List.foldlM_cons, step, if_pos ha]
  rfl

theorem held_release (hh : held h = some s) (ha : a ∈ s) :
    held (h ++ [.release a]) = some (s.erase a) := by
  rw [held_append hh, List.foldlM_cons, step, if_pos ha]
  rfl

/-- Whatever call ends a correct history was correct. -/
theorem held_concat {x : Call α} (hh : held (h ++ [x]) = some t) :
    ∃ s, held h = some s ∧ step s x = some t := by
  rw [held, List.foldlM_append] at hh
  obtain ⟨s, hs, hx⟩ := Option.bind_eq_some_iff.mp hh
  exact ⟨s, hs, by simpa using hx⟩

/-- A handle was acquired as often as it was released, and once more if it is held. -/
theorem count_acquire (hh : held h = some s) (a : α) :
    h.count (.acquire a) = h.count (.release a) + if a ∈ s then 1 else 0 := by
  induction h using List.reverseRecOn generalizing s with
  | nil =>
    cases hh
    simp
  | append_singleton h x ih =>
    obtain ⟨t, ht, hx⟩ := held_concat hh
    have hcount := ih ht
    rw [List.count_append, List.count_append]
    cases x with
    | acquire b =>
      rw [step] at hx
      split_ifs at hx with hb
      cases hx
      by_cases hab : a = b
      · subst hab
        simp_all
      · simpa [hab, Ne.symm hab] using hcount
    | use b =>
      rw [step] at hx
      split_ifs at hx with hb
      cases hx
      simpa using hcount
    | release b =>
      rw [step] at hx
      split_ifs at hx with hb
      cases hx
      by_cases hab : a = b
      · subst hab
        simp_all
      · simpa [hab, Ne.symm hab] using hcount

/-- Once no handle is held, each was released as often as it was acquired. -/
theorem balanced (hh : held h = some ∅) (a : α) :
    h.count (.acquire a) = h.count (.release a) := by
  simpa using count_acquire hh a

end Held

end Handles
