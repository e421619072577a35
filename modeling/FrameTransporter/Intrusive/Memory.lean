import Mathlib.Data.List.Basic
import Mathlib.Tactic.Linarith

/-! # Byte memories

A memory is a function from addresses to cells. Slices read a range of it, and
splices overwrite a range and leave every other cell alone.
-/

namespace Intrusive

variable {β : Type*} {mem : ℕ → β} {off m n i : ℕ} {bs : List β}

/-- The `n` cells from address `off`. -/
def slice (mem : ℕ → β) (off n : ℕ) : List β := (List.range n).map fun i => mem (off + i)

/-- Overwrite the cells from address `off` with the listed values. -/
def splice (mem : ℕ → β) (off : ℕ) (bs : List β) : ℕ → β :=
  fun i => if off ≤ i then (bs[i - off]?).getD (mem i) else mem i

@[simp] theorem length_slice : (slice mem off n).length = n := by simp [slice]

@[simp] theorem slice_zero : slice mem off 0 = [] := rfl

theorem slice_add : slice mem off (m + n) = slice mem off m ++ slice mem (off + m) n := by
  simp [slice, List.range_add, Nat.add_assoc]

theorem slice_take (h : m ≤ n) : (slice mem off n).take m = slice mem off m := by
  obtain ⟨k, rfl⟩ := Nat.exists_eq_add_of_le h
  rw [slice_add, List.take_left' (by simp)]

theorem slice_drop (h : m ≤ n) : (slice mem off n).drop m = slice mem (off + m) (n - m) := by
  obtain ⟨k, rfl⟩ := Nat.exists_eq_add_of_le h
  rw [slice_add, List.drop_left' (by simp), Nat.add_sub_cancel_left]

/-- A slice depends on the cells of its range. -/
theorem slice_congr {mem' : ℕ → β} (h : ∀ i, off ≤ i → i < off + n → mem i = mem' i) :
    slice mem off n = slice mem' off n :=
  List.map_congr_left fun i hi => h _ (by omega) (by have := List.mem_range.mp hi; omega)

theorem splice_of_lt (h : i < off) : splice mem off bs i = mem i := by
  simp [splice, Nat.not_le.mpr h]

theorem splice_of_ge (h : off + bs.length ≤ i) : splice mem off bs i = mem i := by
  have hi : bs[i - off]? = none := List.getElem?_eq_none (by omega)
  simp [splice, hi]

@[simp] theorem slice_splice_self : slice (splice mem off bs) off bs.length = bs := by
  apply List.ext_getElem (by simp)
  intro i h h'
  simp [slice, splice, List.getElem?_eq_getElem h']

@[simp] theorem splice_nil : splice mem off [] = mem := by
  ext i
  simp [splice]

/-- Values that are spliced one behind the other. -/
theorem splice_append {cs : List β} :
    splice mem off (bs ++ cs) = splice (splice mem off bs) (off + bs.length) cs := by
  ext i
  rcases Nat.lt_or_ge i off with hlt | hge
  · rw [splice_of_lt hlt, splice_of_lt (by omega), splice_of_lt hlt]
  · obtain ⟨k, rfl⟩ := Nat.exists_eq_add_of_le hge
    rcases Nat.lt_or_ge k bs.length with hk | hk
    · have hlt : off + k < off + bs.length := by omega
      rw [splice_of_lt hlt]
      simp [splice, List.getElem?_append_left hk]
    · have hge' : off + bs.length ≤ off + k := by omega
      have hsub : off + k - (off + bs.length) = k - bs.length := by omega
      simp [splice, hge', hsub, List.getElem?_append_right hk, hk]

/-- A range that the splice does not touch reads as before. -/
theorem slice_splice_of_disjoint (h : off + n ≤ m ∨ m + bs.length ≤ off) :
    slice (splice mem m bs) off n = slice mem off n := by
  apply List.map_congr_left
  intro i hi
  have hi := List.mem_range.mp hi
  rcases h with h | h
  · exact splice_of_lt (by omega)
  · exact splice_of_ge (by omega)

end Intrusive
