import Mathlib.Algebra.BigOperators.Group.List.Basic
import Mathlib.Algebra.Ring.Nat
import Mathlib.Order.Nat

/-! # Tilings of an interval

Elements with a start and a length tile an interval when each one starts where the
one before it ends. Then every point of the interval lies in one of them, and none
of them overlaps another.
-/

namespace Intervals

variable {α : Type*} {start length : α → ℕ} {a b c n : ℕ} {x : α} {xs ys : List α}

/-- The elements lie one behind the other, from `a` up to `b`. -/
def Tiles (start length : α → ℕ) : ℕ → List α → ℕ → Prop
  | a, [], b => a = b
  | a, x :: xs, b => start x = a ∧ Tiles start length (a + length x) xs b

@[simp] theorem tiles_nil : Tiles start length a [] b ↔ a = b := Iff.rfl

@[simp] theorem tiles_cons :
    Tiles start length a (x :: xs) b ↔ start x = a ∧ Tiles start length (a + length x) xs b :=
  Iff.rfl

theorem tiles_append : Tiles start length a (xs ++ ys) c ↔
    ∃ b, Tiles start length a xs b ∧ Tiles start length b ys c := by
  induction xs generalizing a with
  | nil => simp
  | cons x xs ih => simp [ih, and_assoc]

theorem tiles_concat : Tiles start length a (xs ++ [x]) c ↔
    Tiles start length a xs (start x) ∧ start x + length x = c := by
  rw [tiles_append]
  constructor
  · rintro ⟨b, hxs, rfl, hc⟩
    exact ⟨hxs, hc⟩
  · rintro ⟨hxs, hc⟩
    exact ⟨start x, hxs, rfl, hc⟩

/-- A tiling ends where the lengths of its elements add up to. -/
theorem Tiles.end_eq (h : Tiles start length a xs b) : b = a + (xs.map length).sum := by
  induction xs generalizing a with
  | nil => simpa using h.symm
  | cons x xs ih =>
    rw [ih h.2, List.map_cons, List.sum_cons, Nat.add_assoc]

theorem Tiles.le (h : Tiles start length a xs b) : a ≤ b := by
  rw [h.end_eq]
  exact Nat.le_add_right _ _

theorem Tiles.mem_bounds (h : Tiles start length a xs b) (hx : x ∈ xs) :
    a ≤ start x ∧ start x + length x ≤ b := by
  induction xs generalizing a with
  | nil => cases hx
  | cons y xs ih =>
    obtain ⟨rfl, ht⟩ := h
    rcases List.mem_cons.mp hx with rfl | hx
    · exact ⟨le_rfl, ht.le⟩
    · obtain ⟨hl, hu⟩ := ih ht hx
      exact ⟨(Nat.le_add_right _ _).trans hl, hu⟩

/-- The elements cover the interval and nothing else. -/
theorem Tiles.covers (h : Tiles start length a xs b) :
    (a ≤ n ∧ n < b) ↔ ∃ x ∈ xs, start x ≤ n ∧ n < start x + length x := by
  constructor
  · intro hn
    induction xs generalizing a with
    | nil =>
      obtain rfl := tiles_nil.mp h
      omega
    | cons x xs ih =>
      obtain ⟨rfl, ht⟩ := h
      rcases lt_or_ge n (start x + length x) with hlt | hge
      · exact ⟨x, List.mem_cons_self, hn.1, hlt⟩
      · obtain ⟨y, hy, hyn⟩ := ih ht ⟨hge, hn.2⟩
        exact ⟨y, List.mem_cons_of_mem _ hy, hyn⟩
  · rintro ⟨x, hx, hl, hu⟩
    obtain ⟨hxl, hxu⟩ := h.mem_bounds hx
    exact ⟨hxl.trans hl, hu.trans_le hxu⟩

/-- An element ends before the ones behind it start. -/
theorem Tiles.apart (h : Tiles start length a xs b) :
    xs.Pairwise fun x y => start x + length x ≤ start y := by
  induction xs generalizing a with
  | nil => exact List.Pairwise.nil
  | cons x xs ih =>
    obtain ⟨rfl, ht⟩ := h
    exact List.pairwise_cons.mpr ⟨fun y hy => (ht.mem_bounds hy).1, ih ht⟩

/-- An element is replaced by one that lies in the same place. -/
theorem Tiles.set {i : ℕ} {y : α} (h : Tiles start length a xs b) (hx : xs[i]? = some x)
    (hs : start y = start x) (hl : length y = length x) :
    Tiles start length a (xs.set i y) b := by
  induction xs generalizing a i with
  | nil => cases hx
  | cons z xs ih =>
    cases i with
    | zero =>
      obtain rfl : z = x := Option.some.inj hx
      rw [List.set_cons_zero, tiles_cons, hs, hl]
      exact h
    | succ i =>
      rw [List.set_cons_succ]
      exact ⟨h.1, ih h.2 hx⟩

end Intervals
