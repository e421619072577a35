import FrameTransporter.Intrusive.Chain

/-! # Doubly linked lists

Two chains through the same nodes, one in each direction. A node is taken out by
storing its two links through the links that point to it, and a node with cleared
links is added at the end.
-/

namespace Intrusive

variable {α : Type*} {next prev : α → Option α} {head tail : Option α} {xs ys : List α} {a : α}

/-- The listed nodes in both directions. -/
structure Doubly (next prev : α → Option α) (head tail : Option α) (xs : List α) : Prop where
  forward : Chain next head xs
  backward : Chain prev tail xs.reverse

/-- The link of the node that a pointer points to, or the variable that heads the list. -/
def Link.behind : Option α → Link α
  | none => .head
  | some a => .next a

theorem Link.last_eq_behind (xs : List α) : Link.last xs = Link.behind xs.getLast? := by
  rcases List.eq_nil_or_concat' xs with rfl | ⟨ys, a, rfl⟩
  · rfl
  · rw [Link.last_concat, List.getLast?_concat]
    rfl

namespace Doubly

theorem head_eq (h : Doubly next prev head tail xs) : head = xs.head? := h.forward.start_eq

theorem tail_eq (h : Doubly next prev head tail xs) : tail = xs.getLast? := by
  rw [h.backward.start_eq, List.head?_reverse]

theorem nodup (h : Doubly next prev head tail xs) : xs.Nodup := h.forward.nodup

/-- The links of a node point to its neighbours. -/
theorem next_eq (h : Doubly next prev head tail (xs ++ a :: ys)) : next a = ys.head? :=
  h.forward.drop.start_eq

theorem prev_eq (h : Doubly next prev head tail (xs ++ a :: ys)) : prev a = xs.getLast? := by
  have hb := h.backward
  rw [List.reverse_append, List.reverse_cons, List.append_assoc, List.singleton_append] at hb
  rw [hb.drop.start_eq, List.head?_reverse]

theorem nil : Doubly next prev none none [] := ⟨rfl, rfl⟩

variable [DecidableEq α] {q r : Option α}

/-- The links of a node outside do not matter. -/
theorem update (h : Doubly next prev head tail xs) (ha : a ∉ xs) :
    Doubly (Function.update next a q) (Function.update prev a r) head tail xs :=
  ⟨h.forward.update ha, h.backward.update (by simpa using ha)⟩

/-- Storing the links of a node through the links to it takes the node out. -/
theorem unlink (h : Doubly next prev head tail (xs ++ a :: ys)) :
    Doubly ((Link.behind (prev a)).assign (next a) next)
      ((Link.behind (next a)).assign (prev a) prev)
      ((Link.behind (prev a)).assignHead (next a) head)
      ((Link.behind (next a)).assignHead (prev a) tail) (xs ++ ys) := by
  constructor
  · rw [h.prev_eq, ← Link.last_eq_behind]
    exact h.forward.unlink
  · have hb := h.backward
    rw [List.reverse_append, List.reverse_cons, List.append_assoc, List.singleton_append] at hb
    rw [h.next_eq, ← List.getLast?_reverse, ← Link.last_eq_behind, List.reverse_append]
    exact hb.unlink

/-- Storing a node with cleared links behind the last one adds it at the end. -/
theorem append (h : Doubly next prev head tail xs) (ha : a ∉ xs) (hn : next a = none) :
    Doubly ((Link.behind tail).assign (some a) next) (Function.update prev a tail)
      ((Link.behind tail).assignHead (some a) head) (some a) (xs ++ [a]) := by
  constructor
  · rw [h.tail_eq, ← Link.last_eq_behind]
    exact h.forward.append ha hn
  · rw [List.reverse_append, List.reverse_singleton, List.singleton_append]
    exact h.backward.push (by simpa using ha)

end Doubly

end Intrusive
