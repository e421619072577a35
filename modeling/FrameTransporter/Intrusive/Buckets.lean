import FrameTransporter.Intrusive.Chain

/-! # Buckets of intrusive chains

Nodes that share one link field can be in one of several lists, each with a head of
its own. The lists are then disjoint, and an operation on one of them leaves the
others as they are. A list is searched for a node along its links, and the link that
the search stops at is the place to insert a node or to take the found one out.
-/

namespace Intrusive

variable {ι α : Type*} {next : α → Option α} {head : Option α} {heads : ι → Option α}
  {xs : ι → List α} {ys zs us : List α} {i j : ι} {a : α} {n : ℕ} {stop : α → Bool}

/-- Walk along a list from a link, for at most `n` rounds, up to a node to stop at or to the
end. The result is the link to that place. -/
def Link.seek (stop : α → Bool) (next : α → Option α) (head : Option α) :
    ℕ → Link α → Option (Link α)
  | 0, _ => none
  | n + 1, link =>
    match link.deref next head with
    | none => some link
    | some a => if stop a then some link else seek stop next head n (.next a)

/-- Walk along a list from a node, for at most `n` rounds, up to a node to stop at. -/
def find (stop : α → Bool) (next : α → Option α) : ℕ → Option α → Option (Option α)
  | 0, _ => none
  | _ + 1, none => some none
  | n + 1, some a => if stop a then some (some a) else find stop next n (next a)

/-- Both walks stop at the same node. -/
theorem find_eq_seek (n : ℕ) (link : Link α) :
    find stop next n (link.deref next head) =
      (link.seek stop next head n).map (Link.deref · next head) := by
  induction n generalizing link with
  | zero => rfl
  | succ n ih =>
    rw [Link.seek]
    cases hd : link.deref next head with
    | none => simp [find, hd]
    | some a =>
      rw [find]
      have ih := ih (.next a)
      rw [Link.deref] at ih
      by_cases hs : stop a
      · simp [hs, hd]
      · simpa [hs] using ih

/-- A walk stops at the first node to stop at. -/
theorem Chain.seek_found (ys : List α) (h : Chain next head (ys ++ us ++ a :: zs))
    (hn : us.length < n)
    (hus : ∀ b ∈ us, stop b = false) (ha : stop a = true) :
    (Link.last ys).seek stop next head n = some (Link.last (ys ++ us)) := by
  induction n generalizing ys us with
  | zero => omega
  | succ n ih =>
    have hd := (List.append_assoc ys us _ ▸ h).deref_last
    rw [Link.seek, hd]
    cases us with
    | nil => simp [ha]
    | cons u us =>
      have h' : Chain next head (ys ++ [u] ++ us ++ a :: zs) := by simpa using h
      have ih := ih (ys ++ [u]) h' (by simpa using hn) fun b hb => hus b (List.mem_cons_of_mem _ hb)
      rw [Link.last_concat] at ih
      simpa [hus u] using ih

/-- A walk along a list without a node to stop at goes to its end. -/
theorem Chain.seek_end (ys : List α) (h : Chain next head (ys ++ us)) (hn : us.length < n)
    (hus : ∀ b ∈ us, stop b = false) :
    (Link.last ys).seek stop next head n = some (Link.last (ys ++ us)) := by
  induction n generalizing ys us with
  | zero => omega
  | succ n ih =>
    rw [Link.seek, h.deref_last]
    cases us with
    | nil => simp
    | cons u us =>
      have h' : Chain next head (ys ++ [u] ++ us) := by simpa using h
      have ih := ih (ys ++ [u]) h' (by simpa using hn) fun b hb => hus b (List.mem_cons_of_mem _ hb)
      rw [Link.last_concat] at ih
      simpa [hus u] using ih

/-- Disjoint chains over one link field: `xs i` has the nodes of the list `i`. -/
structure Buckets (next : α → Option α) (heads : ι → Option α) (xs : ι → List α) : Prop where
  chain : ∀ i, Chain next (heads i) (xs i)
  disjoint : ∀ i j a, a ∈ xs i → a ∈ xs j → i = j

theorem buckets_nil : Buckets next (fun _ : ι => none) fun _ => [] :=
  ⟨fun _ => rfl, by rintro _ _ _ ⟨⟩⟩

variable [DecidableEq α]

/-- Storing through the last link of nodes of one list leaves the other lists alone. -/
theorem Buckets.chain_of_ne {q : Option α} (h : Buckets next heads xs) (hj : j ≠ i)
    (hy : ∀ b ∈ ys, b ∈ xs i) : Chain ((Link.last ys).assign q next) (heads j) (xs j) :=
  (h.chain j).congr fun b hb =>
    (Link.assign_last_of_not_mem fun hm => hj (h.disjoint j i b hb (hy b hm))).symm

/-- The link of a node in no list does not matter. -/
theorem Buckets.update {q : Option α} (h : Buckets next heads xs) (ha : ∀ i, a ∉ xs i) :
    Buckets (Function.update next a q) heads xs :=
  ⟨fun i => (h.chain i).update (ha i), h.disjoint⟩

variable [DecidableEq ι]

/-- A fresh node with a cleared link is stored behind the last one of a list. -/
theorem Buckets.append (h : Buckets next heads xs) (ha : ∀ i, a ∉ xs i) (hn : next a = none)
    (i : ι) :
    Buckets ((Link.last (xs i)).assign (some a) next)
      (Function.update heads i ((Link.last (xs i)).assignHead (some a) (heads i)))
      (Function.update xs i (xs i ++ [a])) := by
  refine ⟨fun j => ?_, fun j k b hj hk => ?_⟩
  · by_cases hij : j = i
    · subst hij
      rw [Function.update_self, Function.update_self]
      exact (h.chain j).append (ha j) hn
    · rw [Function.update_of_ne hij, Function.update_of_ne hij]
      exact h.chain_of_ne hij fun _ hb => hb
  · have hmem : ∀ j, b ∈ Function.update xs i (xs i ++ [a]) j → b ∈ xs j ∨ b = a ∧ j = i := by
      intro j hj
      by_cases hij : j = i
      · subst hij
        rw [Function.update_self, List.mem_append, List.mem_singleton] at hj
        exact hj.imp id fun hb => ⟨hb, rfl⟩
      · rw [Function.update_of_ne hij] at hj
        exact .inl hj
    rcases hmem j hj with hbj | ⟨rfl, hji⟩
    · rcases hmem k hk with hbk | ⟨rfl, -⟩
      · exact h.disjoint j k b hbj hbk
      · exact absurd hbj (ha j)
    · rcases hmem k hk with hbk | ⟨-, hki⟩
      · exact absurd hbk (ha k)
      · rw [hji, hki]

/-- A node is taken out of its list. -/
theorem Buckets.unlink (h : Buckets next heads xs) (hx : xs i = ys ++ a :: zs) :
    Buckets ((Link.last ys).assign (next a) next)
      (Function.update heads i ((Link.last ys).assignHead (next a) (heads i)))
      (Function.update xs i (ys ++ zs)) := by
  refine ⟨fun j => ?_, fun j k b hj hk => ?_⟩
  · by_cases hij : j = i
    · subst hij
      rw [Function.update_self, Function.update_self]
      exact (hx ▸ h.chain j).unlink
    · rw [Function.update_of_ne hij, Function.update_of_ne hij]
      exact h.chain_of_ne hij fun b hb => by simp [hx, hb]
  · have hmem : ∀ j, b ∈ Function.update xs i (ys ++ zs) j → b ∈ xs j := by
      intro j hj
      by_cases hij : j = i
      · subst hij
        rw [Function.update_self] at hj
        rw [hx]
        rcases List.mem_append.mp hj with hj | hj
        · exact List.mem_append_left _ hj
        · exact List.mem_append_right _ (List.mem_cons_of_mem _ hj)
      · rwa [Function.update_of_ne hij] at hj
    exact h.disjoint j k b (hmem j hj) (hmem k hk)

end Intrusive
