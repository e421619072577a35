import Mathlib.Data.List.Nodup
import Mathlib.Logic.Function.Basic

/-! # Chains through an intrusive link

A node carries the link to its successor, so a list is a start pointer together
with the links of all nodes. A chain reads the nodes off and ends at null. Since
links are deterministic, a chain that ends has no repetition.
-/

namespace Intrusive

variable {α : Type*} {next next' : α → Option α} {p q : Option α} {xs ys : List α} {a l : α}

/-- Following `next` from `p` visits exactly the listed nodes and ends at null. -/
def Chain (next : α → Option α) : Option α → List α → Prop
  | p, [] => p = none
  | p, x :: xs => p = some x ∧ Chain next (next x) xs

@[simp] theorem chain_nil : Chain next p [] ↔ p = none := Iff.rfl

@[simp] theorem chain_cons : Chain next p (a :: xs) ↔ p = some a ∧ Chain next (next a) xs := Iff.rfl

theorem Chain.start_eq (h : Chain next p xs) : p = xs.head? := by
  cases xs with
  | nil => exact h
  | cons x xs => exact h.1

theorem Chain.eq_nil (h : Chain next none xs) : xs = [] := by
  cases xs with
  | nil => rfl
  | cons x xs => cases h.1

theorem Chain.exists_cons (h : Chain next (some a) xs) :
    ∃ ys, xs = a :: ys ∧ Chain next (next a) ys := by
  cases xs with
  | nil => cases h
  | cons x xs =>
    obtain ⟨hx, h⟩ := h
    obtain rfl := Option.some.inj hx
    exact ⟨xs, rfl, h⟩

/-- A start pointer and the links determine the nodes. -/
theorem Chain.unique (h : Chain next p xs) (h' : Chain next p ys) : xs = ys := by
  induction xs generalizing p ys with
  | nil => obtain rfl := chain_nil.mp h; exact h'.eq_nil.symm
  | cons x xs ih =>
    obtain ⟨rfl, h⟩ := h
    obtain ⟨ys, rfl, ht⟩ := h'.exists_cons
    rw [ih h ht]

theorem Chain.suffix (h : Chain next p xs) (ha : a ∈ xs) :
    ∃ ys, Chain next (next a) ys ∧ ys.length < xs.length := by
  induction xs generalizing p with
  | nil => cases ha
  | cons x xs ih =>
    rcases List.mem_cons.mp ha with rfl | ha
    · exact ⟨xs, h.2, by simp⟩
    · obtain ⟨ys, hy, hl⟩ := ih h.2 ha
      exact ⟨ys, hy, by simp; omega⟩

/-- A chain that ends is acyclic: no node occurs twice. -/
theorem Chain.nodup (h : Chain next p xs) : xs.Nodup := by
  induction xs generalizing p with
  | nil => exact .nil
  | cons x xs ih =>
    refine List.nodup_cons.mpr ⟨fun hx => ?_, ih h.2⟩
    -- the tail after the second visit would be the tail after the first one
    obtain ⟨ys, hy, hl⟩ := h.2.suffix hx
    rw [h.2.unique hy] at hl
    exact Nat.lt_irrefl _ hl

theorem Chain.congr (h : Chain next p xs) (hn : ∀ x ∈ xs, next x = next' x) :
    Chain next' p xs := by
  induction xs generalizing p with
  | nil => exact h
  | cons x xs ih =>
    refine ⟨h.1, ?_⟩
    rw [← hn x (by simp)]
    exact ih h.2 fun y hy => hn y (by simp [hy])

section Update

variable [DecidableEq α]

theorem Chain.update (h : Chain next p xs) (ha : a ∉ xs) :
    Chain (Function.update next a q) p xs :=
  h.congr fun x hx => (Function.update_of_ne (fun e : x = a => ha (e ▸ hx)) _ _).symm

/-- Linking a fresh node before a chain. -/
theorem Chain.push (h : Chain next p xs) (ha : a ∉ xs) :
    Chain (Function.update next a p) (some a) (a :: xs) := by
  simpa using h.update ha

end Update

/-- A pointer to a pointer: the variable that heads a list, or the link of a node. -/
inductive Link (α : Type*) where
  | head
  | next (a : α)
  deriving DecidableEq

/-- The link that ends a list, where the next node is to be stored. -/
def Link.last : List α → Link α
  | [] => .head
  | x :: xs => .next ((x :: xs).getLast (by simp))

@[simp] theorem Link.last_nil : Link.last ([] : List α) = .head := rfl

@[simp] theorem Link.last_concat (xs : List α) (a : α) : Link.last (xs ++ [a]) = .next a := by
  cases xs <;> simp [Link.last]

theorem Link.last_cons_cons (x y : α) (xs : List α) :
    Link.last (x :: y :: xs) = Link.last (y :: xs) := by
  simp [Link.last]

/-- What a link points to. -/
def Link.deref (link : Link α) (next : α → Option α) (head : Option α) : Option α :=
  match link with
  | .head => head
  | .next l => next l

/-- The link behind the nodes `xs` points to the node after them. -/
theorem Chain.deref_last (h : Chain next p (xs ++ ys)) :
    (Link.last xs).deref next p = ys.head? := by
  induction xs generalizing p with
  | nil => exact h.start_eq
  | cons x xs ih =>
    obtain ⟨rfl, h⟩ := h
    have ih := ih h
    cases xs with
    | nil => simpa [Link.last, Link.deref] using h.start_eq
    | cons y xs =>
      rw [Link.last_cons_cons]
      simpa [Link.last, Link.deref] using ih

/-- The nodes behind `a` are chained from its link. -/
theorem Chain.drop (h : Chain next p (xs ++ a :: ys)) : Chain next (next a) ys := by
  induction xs generalizing p with
  | nil => exact h.2
  | cons x xs ih => exact ih h.2

variable [DecidableEq α]

/-- The links after `q` is stored through `link`. -/
def Link.assign (link : Link α) (q : Option α) (next : α → Option α) : α → Option α :=
  match link with
  | .head => next
  | .next l => Function.update next l q

/-- The head pointer after `q` is stored through `link`. -/
def Link.assignHead (link : Link α) (q head : Option α) : Option α :=
  match link with
  | .head => q
  | .next _ => head

/-- Only the link of the last node is stored through. -/
theorem Link.assign_last_of_not_mem (ha : a ∉ xs) : (Link.last xs).assign q next a = next a := by
  rcases xs.eq_nil_or_concat with rfl | ⟨ys, l, rfl⟩
  · rfl
  · rw [List.concat_eq_append] at ha ⊢
    have hl : a ≠ l := fun e => ha (by simp [e])
    rw [Link.last_concat, Link.assign, Function.update_of_ne hl]

/-- Storing the link of a node through the link to it takes the node out. -/
theorem Chain.unlink (h : Chain next p (xs ++ a :: ys)) :
    Chain ((Link.last xs).assign (next a) next) ((Link.last xs).assignHead (next a) p)
      (xs ++ ys) := by
  induction xs generalizing p with
  | nil => exact h.2
  | cons x xs ih =>
    have hn := h.nodup
    obtain ⟨rfl, h⟩ := h
    have ih := ih h
    cases xs with
    | nil =>
      have hx : x ∉ ys := fun hx => (List.nodup_cons.mp hn).1 (by simp [hx])
      simpa [Link.last, Link.assign, Link.assignHead] using h.2.update hx
    | cons y xs =>
      have hne : x ≠ (y :: xs).getLast (by simp) := fun e =>
        (List.nodup_cons.mp hn).1 (List.mem_append_left _ (e ▸ List.getLast_mem _))
      rw [Link.last_cons_cons]
      refine ⟨rfl, ?_⟩
      simpa [Link.last, Link.assign, Link.assignHead, Function.update_of_ne hne] using ih

/-- Storing a fresh node in the link of the last one extends the chain. -/
theorem Chain.concat (h : Chain next p (xs ++ [l])) (ha : a ∉ xs ++ [l]) :
    Chain (Function.update (Function.update next l (some a)) a none) p (xs ++ [l] ++ [a]) := by
  induction xs generalizing p with
  | nil =>
    have hl : l ≠ a := fun e => ha (by simp [e])
    obtain ⟨rfl, -⟩ := h
    simp [Function.update_of_ne hl]
  | cons x xs ih =>
    obtain ⟨rfl, h⟩ := h
    have hx : x ∉ xs ++ [l] := (List.nodup_cons.mp (Chain.nodup (p := some x) ⟨rfl, h⟩)).1
    have hxl : x ≠ l := fun e => hx (by simp [e])
    have hxa : x ≠ a := fun e => ha (by simp [e])
    refine ⟨rfl, ?_⟩
    rw [Function.update_of_ne hxa, Function.update_of_ne hxl]
    exact ih h fun hm => ha (by simp only [List.cons_append, List.mem_cons]; exact Or.inr hm)

/-- A queue held by a head pointer and the link where the next node is stored. -/
structure Queue (next : α → Option α) (head : Option α) (last : Link α) (xs : List α) : Prop where
  chain : Chain next head xs
  last_eq : last = Link.last xs

/-- The links after `a` is stored through `link`, and the link of `a` is cleared. -/
def Link.store (link : Link α) (a : α) (next : α → Option α) : α → Option α :=
  match link with
  | .head => Function.update next a none
  | .next l => Function.update (Function.update next l (some a)) a none

/-- The head pointer after `a` is stored through `link`. -/
def Link.storeHead (link : Link α) (a : α) (head : Option α) : Option α :=
  match link with
  | .head => some a
  | .next _ => head

/-- Storing through the last link and moving it to the new node enqueues at the end. -/
theorem Queue.enqueue {last : Link α} (h : Queue next p last xs) (ha : a ∉ xs) :
    Queue (last.store a next) (last.storeHead a p) (.next a) (xs ++ [a]) := by
  refine ⟨?_, by simp⟩
  obtain ⟨hc, rfl⟩ := h
  rcases xs.eq_nil_or_concat with rfl | ⟨ys, l, rfl⟩
  · simp [Link.store, Link.storeHead]
  · simp only [List.concat_eq_append] at *
    simpa [Link.store, Link.storeHead] using hc.concat ha

/-- Storing a fresh node with a cleared link through the link that ends a chain. -/
theorem Chain.append (h : Chain next p xs) (ha : a ∉ xs) (hn : next a = none) :
    Chain ((Link.last xs).assign (some a) next) ((Link.last xs).assignHead (some a) p)
      (xs ++ [a]) := by
  have hc := (Queue.enqueue ⟨h, rfl⟩ ha).chain
  rcases xs.eq_nil_or_concat with rfl | ⟨ys, l, rfl⟩
  · have he : Function.update next a none = next := by rw [← hn, Function.update_eq_self]
    simpa [Link.store, Link.storeHead, Link.assign, Link.assignHead, he] using hc
  · simp only [List.concat_eq_append] at *
    have hl : a ≠ l := fun e => ha (by simp [e])
    have he : Function.update (Function.update next l (some a)) a none =
        Function.update next l (some a) := by
      rw [Function.update_eq_self_iff, Function.update_of_ne hl, hn]
    simpa [Link.store, Link.storeHead, Link.assign, Link.assignHead, he] using hc

omit [DecidableEq α] in
/-- Taking the first node, and resetting the last link when none is left. -/
theorem Queue.dequeue {last : Link α} (h : Queue next p last (a :: xs)) :
    Queue next (next a) (if next a = none then .head else last) xs := by
  obtain ⟨⟨rfl, hc⟩, rfl⟩ := h
  refine ⟨hc, ?_⟩
  cases xs with
  | nil => simp [chain_nil.mp hc]
  | cons x xs => simp [hc.1, Link.last_cons_cons]

end Intrusive
