import Mathlib.Data.UInt
import Mathlib.Order.Interval.Finset.Nat
import Mathlib.Tactic.Simps.Basic
import FrameTransporter.Basic
import FrameTransporter.Hoare.Wp
import FrameTransporter.Intrusive.Doubly

/-! # The doubly linked list

Nodes are allocated by the user of a list and freed by the list when they are
removed, after a callback. Over whole runs the list has the nodes that were
appended and not removed, in the order of both links.
-/

namespace FrameTransporter.FtList

open Hoare Intrusive

/-- The address of a node, which is any but null. -/
abbrev NodeId := { a : UInt64 // a ≠ 0 }

/-- `struct ft_list_node`. -/
structure Node where
  next : Option NodeId
  prev : Option NodeId
  deriving DecidableEq

/-- A call of `on_remove_callback` with the node as it is then, and a call of `free`. -/
inductive Event
  | onRemove (node : NodeId) (links : Node)
  | free (node : NodeId)
  deriving DecidableEq

/-- `struct ft_list`, where `onRemoveCallback` tells whether there is a callback, and the nodes in
memory with the addresses of those that were allocated and not freed. The events are not in
memory. -/
structure State where
  size : ℕ
  onRemoveCallback : Bool
  head : Option NodeId
  tail : Option NodeId
  nodes : NodeId → Node
  allocated : NodeId → Bool
  events : List Event

abbrev ListM := Prog State Fault

namespace State

def next (w : State) (a : NodeId) : Option NodeId := (w.nodes a).next

def prev (w : State) (a : NodeId) : Option NodeId := (w.nodes a).prev

def setNode (w : State) (a : NodeId) (x : Node) : State :=
  { w with nodes := Function.update w.nodes a x }

@[simps -fullyApplied] def setSize (w : State) (size : ℕ) : State := { w with size }

@[simps -fullyApplied] def setHead (w : State) (head : Option NodeId) : State := { w with head }

@[simps -fullyApplied] def setTail (w : State) (tail : Option NodeId) : State := { w with tail }

@[simps -fullyApplied] def setAllocated (w : State) (a : NodeId) (b : Bool) : State :=
  { w with allocated := Function.update w.allocated a b }

@[simps -fullyApplied] def record (w : State) (e : Event) :
    State := { w with events := w.events ++ [e] }

end State

/-- Read a node. Memory that is not allocated must not be read. -/
def getNode (a : NodeId) : ListM Node := do
  let w ← get
  if w.allocated a then return w.nodes a else throw .misuse

/-- Write a node. -/
def setNode (a : NodeId) (x : Node) : ListM Unit := do
  let w ← get
  if w.allocated a then set (w.setNode a x) else throw .misuse

/-- Store the link to the next node into a node, unless it is null. -/
def storeNext (node q : Option NodeId) : ListM Unit := do
  match node with
  | some a =>
    let x ← getNode a
    setNode a { x with next := q }
  | none => return ()

/-- Store the link to the previous node into a node, unless it is null. -/
def storePrev (node q : Option NodeId) : ListM Unit := do
  match node with
  | some a =>
    let x ← getNode a
    setNode a { x with prev := q }
  | none => return ()

/-- `ft_list_node_new`, when `malloc` answers the address. -/
def nodeNew (a : NodeId) : ListM Unit := do
  modify fun w => w.setAllocated a true
  setNode a ⟨none, none⟩

/-- `ft_list_node_del`. Memory must not be freed twice. -/
def nodeDel (a : NodeId) : ListM Unit := do
  let w ← get
  if w.allocated a then set ((w.setAllocated a false).record (.free a)) else throw .misuse

/-- `ft_list_init`. -/
def init (onRemoveCallback : Bool) (nodes : NodeId → Node) : State where
  size := 0
  onRemoveCallback := onRemoveCallback
  head := none
  tail := none
  nodes := nodes
  allocated := fun _ => false
  events := []

/-- The part of `ft_list_append` that links the node. -/
def link (node : NodeId) : ListM Unit := do
  let w ← get
  if w.size = 0 then
    modify fun w => w.setHead (some node)
    modify fun w => w.setTail (some node)
  else
    storePrev (some node) w.tail
    match w.tail with
    | none => throw .misuse
    | some last =>
      storeNext (some last) (some node)
      modify fun w => w.setTail (some node)

/-- `ft_list_append`. -/
def append (node : NodeId) : ListM Unit := do
  link node
  modify fun w => w.setSize ((w.size + 1) % 2 ^ 64)

/-- The end of `ft_list_unlink`: the callback and `ft_list_node_del`. -/
def dispose (node : NodeId) : ListM Unit := do
  let w ← get
  let x ← getNode node
  when w.onRemoveCallback <| modify fun w => w.record (.onRemove node x)
  nodeDel node

/-- `ft_list_unlink`. -/
def unlink (node : NodeId) : ListM Unit := do
  let x ← getNode node
  storeNext x.prev x.next
  let x ← getNode node
  when (x.prev = none) <| modify fun w => w.setHead x.next
  when (x.next = none) <| modify fun w => w.setTail x.prev
  storePrev x.next x.prev
  modify fun w => w.setSize ((2 ^ 64 + w.size - 1) % 2 ^ 64)
  storePrev (some node) none
  storeNext (some node) none
  dispose node

/-- `ft_list_remove`. -/
def remove (node : NodeId) : ListM Bool := do
  unlink node
  return true

/-- `ft_list_remove_first`. -/
def removeFirst : ListM Bool := do
  let w ← get
  if w.size = 0 then return false
  else
    match w.head with
    | none => throw .misuse
    | some node =>
      unlink node
      return true

/-- `ft_list_remove_last`. -/
def removeLast : ListM Bool := do
  let w ← get
  if w.size = 0 then return false
  else
    match w.tail with
    | none => throw .misuse
    | some node =>
      unlink node
      return true

/-- `ft_list_clear`, for at most `n` rounds. -/
def clear : ℕ → ListM Unit
  | 0 => throw .misuse
  | n + 1 => do
    let w ← get
    match w.head with
    | none => return ()
    | some _ =>
      let _ ← removeFirst
      clear n

/-- `ft_list_fini`. -/
def fini (n : ℕ) : ListM Unit := clear n

/-- `ft_list_on_remove`. -/
def onRemove (callback : Bool) : ListM Unit :=
  modify fun w => { w with onRemoveCallback := callback }

/-- The operations on a list. The node that is appended is a new one, at the address that `malloc`
answers. -/
inductive Op
  | append (node : NodeId)
  | remove (node : NodeId)
  | removeFirst
  | removeLast
  | clear
  | fini
  | onRemove (callback : Bool)

/-- An operation, with at most `n` rounds of a loop. What `malloc` answers is not allocated, and
only nodes of the list are removed from it. -/
def Op.exec (n : ℕ) : Op → ListM Unit
  | append node => do
    let w ← get
    when (w.allocated node = false) do
      nodeNew node
      FtList.append node
  | remove node => do
    let w ← get
    when (w.allocated node = true) do
      let _ ← FtList.remove node
  | removeFirst => do
    let _ ← FtList.removeFirst
  | removeLast => do
    let _ ← FtList.removeLast
  | clear => FtList.clear n
  | fini => FtList.fini n
  | onRemove callback => FtList.onRemove callback

def run (n : ℕ) (ops : List Op) : ListM Unit := forM ops (Op.exec n)

/-- The abstract list: its nodes, whether there is a callback, and the nodes removed so far, each
with the presence of a callback at that time. -/
structure Spec where
  items : List NodeId
  onRemoveCallback : Bool
  removed : List (NodeId × Bool)

namespace Spec

/-- Remove the nodes `gone`, so that `items` remain. -/
def drop (s : Spec) (gone items : List NodeId) : Spec :=
  { s with items, removed := s.removed ++ gone.map fun a => (a, s.onRemoveCallback) }

/-- What an operation does to the abstract list. -/
def step (s : Spec) : Op → Spec
  | .append node => if node ∈ s.items then s else { s with items := s.items ++ [node] }
  | .remove node => if node ∈ s.items then s.drop [node] (s.items.erase node) else s
  | .removeFirst => s.drop s.items.head?.toList s.items.tail
  | .removeLast => s.drop s.items.getLast?.toList s.items.dropLast
  | .clear | .fini => s.drop s.items []
  | .onRemove callback => { s with onRemoveCallback := callback }

/-- The abstract list after a run. -/
def run (onRemoveCallback : Bool) (ops : List Op) : Spec :=
  ops.foldl step ⟨[], onRemoveCallback, []⟩

/-- What the removal of a node does: one call of the callback, if there is one, with the links of
the node cleared, and one call of `free`. -/
def removal (r : NodeId × Bool) : List Event :=
  (if r.2 then [.onRemove r.1 ⟨none, none⟩] else []) ++ [.free r.1]

end Spec

/-- The list in memory is the abstract one. -/
structure State.Represents (w : State) (s : Spec) : Prop where
  doubly : Doubly w.next w.prev w.head w.tail s.items
  size : w.size = s.items.length
  allocated : ∀ a, w.allocated a = true ↔ a ∈ s.items
  callback : w.onRemoveCallback = s.onRemoveCallback
  events : w.events = s.removed.flatMap Spec.removal

section Memory

variable {E : Fault → Prop} {w : State} {a b : NodeId} {x : Node} {node q : Option NodeId}

@[simp] theorem next_setNode : (w.setNode a x).next = Function.update w.next a x.next := by
  funext b
  rcases eq_or_ne b a with rfl | hb
  · simp [State.next, State.setNode]
  · simp [State.next, State.setNode, hb]

@[simp] theorem prev_setNode : (w.setNode a x).prev = Function.update w.prev a x.prev := by
  funext b
  rcases eq_or_ne b a with rfl | hb
  · simp [State.prev, State.setNode]
  · simp [State.prev, State.setNode, hb]

@[simp] theorem next_setHead : (w.setHead q).next = w.next := rfl

@[simp] theorem prev_setHead : (w.setHead q).prev = w.prev := rfl

@[simp] theorem next_setTail : (w.setTail q).next = w.next := rfl

@[simp] theorem prev_setTail : (w.setTail q).prev = w.prev := rfl

@[simp] theorem next_setSize {n : ℕ} : (w.setSize n).next = w.next := rfl

@[simp] theorem prev_setSize {n : ℕ} : (w.setSize n).prev = w.prev := rfl

theorem wp_getNode (h : w.allocated a = true) {Q : Node → State → Prop} :
    wp E (getNode a) Q w ↔ Q ⟨w.next a, w.prev a⟩ w := by
  rw [getNode, wp_bind, wp_get, if_pos h, wp_pure]
  rfl

theorem wp_setNode (h : w.allocated a = true) {Q : Unit → State → Prop} :
    wp E (setNode a x) Q w ↔ Q () (w.setNode a x) := by
  rw [setNode, wp_bind, wp_get, if_pos h]
  rfl

namespace State

/-- The state after a link to the next node was stored into a node, if there is one. -/
@[simps -fullyApplied size onRemoveCallback head tail allocated events]
def linkNext (w : State) (node q : Option NodeId) : State :=
  { w with nodes := match node with
    | some a => Function.update w.nodes a { w.nodes a with next := q }
    | none => w.nodes }

/-- The state after a link to the previous node was stored into a node, if there is one. -/
@[simps -fullyApplied size onRemoveCallback head tail allocated events]
def linkPrev (w : State) (node q : Option NodeId) : State :=
  { w with nodes := match node with
    | some a => Function.update w.nodes a { w.nodes a with prev := q }
    | none => w.nodes }

@[simp] theorem linkNext_next : (w.linkNext node q).next = (Link.behind node).assign q w.next := by
  cases node with
  | none => rfl
  | some a => exact next_setNode

@[simp] theorem linkNext_prev : (w.linkNext node q).prev = w.prev := by
  cases node with
  | none => rfl
  | some a => exact prev_setNode.trans (Function.update_eq_self a w.prev)

@[simp] theorem linkPrev_next : (w.linkPrev node q).next = w.next := by
  cases node with
  | none => rfl
  | some a => exact next_setNode.trans (Function.update_eq_self a w.next)

@[simp] theorem linkPrev_prev : (w.linkPrev node q).prev = (Link.behind node).assign q w.prev := by
  cases node with
  | none => rfl
  | some a => exact prev_setNode

theorem linkNext_nodes (h : node ≠ some b) : (w.linkNext node q).nodes b = w.nodes b := by
  cases node with
  | none => rfl
  | some a => exact Function.update_of_ne (fun hb => h (congrArg some hb.symm)) _ _

end State

theorem wp_storeNext (h : ∀ a ∈ node, w.allocated a = true) {Q : Unit → State → Prop} :
    wp E (storeNext node q) Q w ↔ Q () (w.linkNext node q) := by
  cases node with
  | none => rfl
  | some a =>
    have ha := h a rfl
    rw [storeNext, wp_bind, wp_getNode ha, wp_setNode ha]
    rfl

theorem wp_storePrev (h : ∀ a ∈ node, w.allocated a = true) {Q : Unit → State → Prop} :
    wp E (storePrev node q) Q w ↔ Q () (w.linkPrev node q) := by
  cases node with
  | none => rfl
  | some a =>
    have ha := h a rfl
    rw [storePrev, wp_bind, wp_getNode ha, wp_setNode ha]
    rfl

/-- The head and the tail are stored into when a neighbour is missing. -/
theorem head_if (p q : Option NodeId) (w : State) :
    (if p = none then w.setHead q else w) = w.setHead ((Link.behind p).assignHead q w.head) := by
  cases p <;> rfl

theorem tail_if (p q : Option NodeId) (w : State) :
    (if p = none then w.setTail q else w) = w.setTail ((Link.behind p).assignHead q w.tail) := by
  cases p <;> rfl

theorem wp_when_modify {c : Prop} [Decidable c] {f : State → State} {Q : Unit → State → Prop} :
    wp E (when c (modify f)) Q w ↔ Q () (if c then f w else w) := by
  unfold when
  split_ifs <;> rfl

end Memory

section Unlink

variable {E : Fault → Prop} {w : State} {a : NodeId} {xs ys : List NodeId}

/-- The neighbours of a node of the list are other nodes of it. -/
theorem neighbours (h : Doubly w.next w.prev w.head w.tail (xs ++ a :: ys)) :
    (∀ p ∈ w.prev a, p ∈ xs) ∧ (∀ q ∈ w.next a, q ∈ ys) ∧ a ∉ xs ++ ys := by
  refine ⟨fun p hp => ?_, fun q hq => ?_, ?_⟩
  · rw [h.prev_eq] at hp
    exact List.mem_of_getLast? hp
  · rw [h.next_eq] at hq
    exact List.mem_of_head? hq
  · exact (List.nodup_middle.mp h.nodup).notMem

/-- A node with cleared links is given to the callback, if there is one, and freed. -/
theorem dispose_wp (ha : w.allocated a = true) (hnext : w.next a = none) (hprev : w.prev a = none) :
    wp E (dispose a) (fun _ w' => w'.next = w.next ∧ w'.prev = w.prev ∧ w'.head = w.head ∧
      w'.tail = w.tail ∧ w'.size = w.size ∧ w'.allocated = Function.update w.allocated a false ∧
      w'.onRemoveCallback = w.onRemoveCallback ∧
      w'.events = w.events ++ Spec.removal (a, w.onRemoveCallback)) w := by
  rw [dispose, wp_bind, wp_get, wp_bind, wp_getNode ha, wp_bind, wp_when_modify, nodeDel, wp_bind,
    wp_get, hnext, hprev]
  by_cases hc : w.onRemoveCallback = true
  · rw [if_pos hc, if_pos (by exact ha), wp_set]
    refine ⟨rfl, rfl, rfl, rfl, rfl, rfl, rfl, ?_⟩
    simp [Spec.removal, hc]
  · rw [if_neg hc, if_pos ha, wp_set]
    refine ⟨rfl, rfl, rfl, rfl, rfl, rfl, rfl, ?_⟩
    simp [Spec.removal, hc]

/-- A node of the list is taken out, given to the callback with its links cleared, and freed. -/
theorem unlink_wp (h : Doubly w.next w.prev w.head w.tail (xs ++ a :: ys))
    (halloc : ∀ b ∈ xs ++ a :: ys, w.allocated b = true) :
    wp E (unlink a) (fun _ w' => Doubly w'.next w'.prev w'.head w'.tail (xs ++ ys) ∧
      w'.size = (2 ^ 64 + w.size - 1) % 2 ^ 64 ∧
      w'.allocated = Function.update w.allocated a false ∧
      w'.onRemoveCallback = w.onRemoveCallback ∧
      w'.events = w.events ++ Spec.removal (a, w.onRemoveCallback)) w := by
  obtain ⟨hprev, hnext, hnot⟩ := neighbours h
  have ha : w.allocated a = true := halloc a (by simp)
  have hp : ∀ p ∈ w.prev a, w.allocated p = true := fun p hm =>
    halloc p (List.mem_append_left _ (hprev p hm))
  have hn : ∀ q ∈ w.next a, w.allocated q = true := fun q hm =>
    halloc q (List.mem_append_right _ (List.mem_cons_of_mem _ (hnext q hm)))
  have hne : w.prev a ≠ some a := fun hm => hnot (List.mem_append_left _ (hprev a hm))
  have hnode : ∀ b ∈ some a, w.allocated b = true := fun b hb => Option.some.inj hb ▸ ha
  have hself : (w.linkNext (w.prev a) (w.next a)).next a = w.next a :=
    congrArg Node.next (State.linkNext_nodes hne)
  have hlinks := h.unlink.update (q := none) (r := none) hnot
  rw [unlink, wp_bind, wp_getNode ha, wp_bind, wp_storeNext hp, wp_bind,
    wp_getNode (w := w.linkNext _ _) ha]
  simp only [hself, State.linkNext_prev]
  rw [wp_bind, wp_when_modify, head_if, wp_bind, wp_when_modify, tail_if, wp_bind]
  refine (wp_storePrev (by exact hn)).mpr ?_
  rw [wp_bind, wp_modify, wp_bind]
  refine (wp_storePrev (by exact hnode)).mpr ?_
  rw [wp_bind]
  refine (wp_storeNext (by exact hnode)).mpr ?_
  refine wp_mono (dispose_wp (by exact ha) ?_ ?_) fun _ w' h' => ?_
  · rw [State.linkNext_next]
    exact Function.update_self _ _ _
  · rw [State.linkNext_prev, State.linkPrev_prev]
    exact Function.update_self _ _ _
  · obtain ⟨hn', hp', hh', ht', hs', ha', hc', he'⟩ := h'
    rw [hn', hp', hh', ht', hs', ha', hc', he']
    simp [hself]
    exact hlinks

end Unlink

/-- There are fewer addresses than a `size_t` counts. -/
theorem length_lt {xs : List NodeId} (h : xs.Nodup) : xs.length < 2 ^ 64 := by
  have hinj : Function.Injective fun a : NodeId => a.1.toNat := fun a b hab =>
    Subtype.ext (UInt64.toNat_inj.mp hab)
  have hsub : (xs.map fun a => a.1.toNat).toFinset ⊆ Finset.Ico 1 (2 ^ 64) := by
    intro n hn
    obtain ⟨a, -, rfl⟩ := List.mem_map.mp (List.mem_toFinset.mp hn)
    refine Finset.mem_Ico.mpr ⟨Nat.pos_of_ne_zero fun h0 => a.2 ?_, a.1.toNat_lt⟩
    exact UInt64.toNat_inj.mp h0
  have hcard := Finset.card_le_card hsub
  rw [List.toFinset_card_of_nodup (h.map hinj), List.length_map, Nat.card_Ico] at hcard
  omega

section Operations

variable {w : State} {s : Spec} {a : NodeId} {xs ys : List NodeId} {n : ℕ}

namespace Spec

theorem drop_nil (s : Spec) : s.drop [] s.items = s := by simp [drop]

theorem drop_drop (s : Spec) (gone gone' items items' : List NodeId) :
    (s.drop gone items).drop gone' items' = s.drop (gone ++ gone') items' := by
  simp [drop]

theorem length_step_le (s : Spec) (op : Op) : (s.step op).items.length ≤ s.items.length + 1 := by
  cases op with
  | append node =>
    rw [step]
    split_ifs
    · omega
    · simp
  | remove node =>
    rw [step]
    split_ifs
    · exact (List.length_erase_le).trans (Nat.le_succ _)
    · omega
  | removeFirst | removeLast => simp [step, drop]; omega
  | clear | fini => simp [step, drop]
  | onRemove callback => simp [step]

end Spec

/-- The list after a node was removed. -/
theorem represents_unlink (h : w.Represents s) (hs : s.items = xs ++ a :: ys) :
    wp (fun _ => False) (unlink a) (fun _ w' => w'.Represents (s.drop [a] (xs ++ ys))) w := by
  have hd := hs ▸ h.doubly
  have halloc : ∀ b ∈ xs ++ a :: ys, w.allocated b = true := fun b hb =>
    (h.allocated b).mpr (hs ▸ hb)
  have hnot := (neighbours hd).2.2
  refine wp_mono (unlink_wp hd halloc) ?_
  rintro _ w' ⟨hd', hsize, ha, hc, he⟩
  refine ⟨hd', ?_, ?_, ?_, ?_⟩
  · have hlen : (xs ++ a :: ys).length = (xs ++ ys).length + 1 := by simp; omega
    have hlt := length_lt hd.nodup
    rw [hsize, h.size, hs, hlen, Spec.drop]
    dsimp only
    omega
  · intro b
    rw [ha, Spec.drop]
    rcases eq_or_ne b a with rfl | hb
    · simpa using hnot
    · rw [Function.update_of_ne hb, h.allocated, hs]
      simp [hb]
  · rw [hc, h.callback]
    rfl
  · rw [he, h.events, h.callback, Spec.drop]
    simp

theorem represents_remove (h : w.Represents s) (ha : a ∈ s.items) :
    wp (fun _ => False) (remove a) (fun _ w' => w'.Represents (s.step (.remove a))) w := by
  obtain ⟨xs, ys, hs⟩ := List.append_of_mem ha
  have hnot : a ∉ xs := fun hm => (neighbours (hs ▸ h.doubly)).2.2 (List.mem_append_left _ hm)
  rw [remove, wp_bind]
  refine wp_mono (represents_unlink h hs) fun _ w' h' => ?_
  rw [Spec.step, if_pos ha, hs, List.erase_append_right _ hnot, List.erase_cons_head]
  exact h'

theorem represents_removeFirst (h : w.Represents s) :
    wp (fun _ => False) removeFirst (fun _ w' => w'.Represents (s.step .removeFirst)) w := by
  rw [removeFirst, wp_bind, wp_get, h.size, h.doubly.head_eq, Spec.step]
  cases hs : s.items with
  | nil =>
    have hnil := s.drop_nil
    rw [hs] at hnil
    exact hnil.symm ▸ h
  | cons a ys =>
    have hs : s.items = [] ++ a :: ys := hs
    rw [if_neg (by simp), List.head?_cons]
    dsimp only
    rw [wp_bind]
    exact represents_unlink h hs

theorem represents_removeLast (h : w.Represents s) :
    wp (fun _ => False) removeLast (fun _ w' => w'.Represents (s.step .removeLast)) w := by
  rw [removeLast, wp_bind, wp_get, h.size, h.doubly.tail_eq, Spec.step]
  rcases List.eq_nil_or_concat' s.items with hs | ⟨xs, a, hs⟩
  · have hnil := s.drop_nil
    rw [hs] at hnil ⊢
    exact hnil.symm ▸ h
  · have hunlink := represents_unlink h hs
    rw [List.append_nil] at hunlink
    rw [hs, if_neg (by simp), List.getLast?_concat, List.dropLast_concat]
    dsimp only
    rw [wp_bind]
    exact hunlink

/-- A node with cleared links is stored behind the last one. -/
theorem append_wp {E : Fault → Prop} (h : Doubly w.next w.prev w.head w.tail xs) (ha : a ∉ xs)
    (hnext : w.next a = none) (hprev : w.prev a = none) (hsize : w.size = xs.length)
    (halloc : ∀ b ∈ a :: xs, w.allocated b = true) :
    wp E (append a) (fun _ w' => Doubly w'.next w'.prev w'.head w'.tail (xs ++ [a]) ∧
      w'.size = (w.size + 1) % 2 ^ 64 ∧ w'.allocated = w.allocated ∧
      w'.onRemoveCallback = w.onRemoveCallback ∧ w'.events = w.events) w := by
  have happend := h.append ha hnext
  rw [append, wp_bind, link, wp_bind, wp_get, hsize]
  rcases List.eq_nil_or_concat' xs with rfl | ⟨ys, b, rfl⟩
  · have htail : w.tail = none := h.tail_eq
    rw [htail, ← hprev, Function.update_eq_self] at happend
    rw [if_pos List.length_nil, wp_bind, wp_modify, wp_modify, wp_modify]
    refine ⟨?_, by simp [hsize], rfl, rfl, rfl⟩
    rw [hprev] at happend
    exact happend
  · have htail : w.tail = some b := by rw [h.tail_eq, List.getLast?_concat]
    have hb : ∀ c ∈ some b, w.allocated c = true := fun c hc =>
      halloc c (List.mem_cons_of_mem _ (Option.some.inj hc ▸ by simp))
    have hnode : ∀ c ∈ some a, w.allocated c = true := fun c hc =>
      halloc c (Option.some.inj hc ▸ List.mem_cons_self)
    rw [if_neg (by simp), htail, wp_bind, wp_storePrev hnode]
    dsimp only
    rw [wp_bind]
    refine (wp_storeNext (by exact hb)).mpr ?_
    rw [wp_modify, wp_modify]
    rw [htail] at happend
    refine ⟨?_, by simp [hsize], rfl, rfl, rfl⟩
    rw [next_setSize, prev_setSize, next_setTail, prev_setTail, State.linkNext_next,
      State.linkNext_prev, State.linkPrev_next, State.linkPrev_prev]
    exact happend

/-- A node at a new address is added at the end. -/
theorem represents_append (h : w.Represents s) (ha : a ∉ s.items) :
    wp (fun _ => False) (do nodeNew a; append a)
      (fun _ w' => w'.Represents (s.step (.append a))) w := by
  have hdoubly := h.doubly.update (q := none) (r := none) ha
  have hlt : (s.items ++ [a]).length < 2 ^ 64 :=
    length_lt (List.nodup_append_comm.mp (List.nodup_cons.mpr ⟨ha, h.doubly.nodup⟩))
  rw [wp_bind, nodeNew, wp_bind, wp_modify]
  refine (wp_setNode (by exact Function.update_self _ _ _)).mpr ?_
  refine wp_mono (append_wp ?_ ha ?_ ?_ h.size ?_) ?_
  · rw [next_setNode, prev_setNode]
    exact hdoubly
  · rw [next_setNode, Function.update_self]
  · rw [prev_setNode, Function.update_self]
  · intro b hb
    rcases List.mem_cons.mp hb with rfl | hb
    · exact Function.update_self _ _ _
    · have hne : b ≠ a := fun e => ha (e ▸ hb)
      exact (Function.update_of_ne hne _ _).trans ((h.allocated b).mpr hb)
  · rintro _ w' ⟨hd, hs, hal, hc, he⟩
    rw [Spec.step, if_neg ha]
    refine ⟨hd, ?_, fun b => ?_, hc.trans h.callback, he.trans h.events⟩
    · rw [List.length_append, List.length_singleton] at hlt ⊢
      rw [hs]
      change (w.size + 1) % 2 ^ 64 = _
      rw [h.size, Nat.mod_eq_of_lt hlt]
    · rw [hal, List.mem_append, List.mem_singleton, ← h.allocated]
      change Function.update w.allocated a true b = true ↔ _
      rcases eq_or_ne b a with rfl | hne
      · simp
      · simp [hne]

/-- Clearing ends, with all nodes removed in their order. -/
theorem represents_clear (h : w.Represents s) (hn : s.items.length < n) :
    wp (fun _ => False) (clear n) (fun _ w' => w'.Represents (s.step .clear)) w := by
  induction n generalizing w s with
  | zero => omega
  | succ n ih =>
    rw [clear, wp_bind, wp_get, h.doubly.head_eq, Spec.step]
    cases hs : s.items with
    | nil =>
      have hnil := s.drop_nil
      rw [hs] at hnil
      exact hnil.symm ▸ h
    | cons a ys =>
      dsimp only [List.head?_cons]
      rw [wp_bind]
      refine wp_mono (represents_removeFirst h) fun _ w' h' => ?_
      have hstep : s.step .removeFirst = s.drop [a] ys := by rw [Spec.step, hs]; rfl
      rw [hstep] at h'
      have hclear : (s.drop [a] ys).step .clear = s.drop (a :: ys) [] := s.drop_drop [a] ys ys []
      rw [← hclear]
      refine ih h' ?_
      rw [hs, List.length_cons] at hn
      exact Nat.lt_of_succ_lt_succ hn

/-- An operation does to the list what it does to the abstract one. -/
theorem represents_exec (op : Op) (h : w.Represents s) (hn : s.items.length < n) :
    wp (fun _ => False) (op.exec n) (fun _ w' => w'.Represents (s.step op)) w := by
  cases op with
  | append a =>
    rw [Op.exec, wp_bind, wp_get, wp_when]
    refine ⟨fun ha => represents_append h fun hm => ?_, fun ha => ?_⟩
    · rw [(h.allocated a).mpr hm] at ha
      cases ha
    · rw [Bool.not_eq_false] at ha
      rw [Spec.step, if_pos ((h.allocated a).mp ha)]
      exact h
  | remove a =>
    rw [Op.exec, wp_bind, wp_get, wp_when]
    refine ⟨fun ha => ?_, fun ha => ?_⟩
    · rw [wp_bind]
      exact represents_remove h ((h.allocated a).mp ha)
    · rw [Spec.step, if_neg fun hm => ha ((h.allocated a).mpr hm)]
      exact h
  | removeFirst =>
    rw [Op.exec, wp_bind]
    exact represents_removeFirst h
  | removeLast =>
    rw [Op.exec, wp_bind]
    exact represents_removeLast h
  | clear | fini => exact represents_clear h hn
  | onRemove callback => exact ⟨h.doubly, h.size, h.allocated, rfl, h.events⟩

theorem represents_ops (ops : List Op) (h : w.Represents s)
    (hn : s.items.length + ops.length < n) :
    wp (fun _ => False) (FtList.run n ops) (fun _ w' => w'.Represents (ops.foldl Spec.step s))
      w := by
  induction ops generalizing w s with
  | nil => exact h
  | cons op ops ih =>
    rw [List.length_cons] at hn
    rw [FtList.run, List.forM_cons, wp_bind]
    refine wp_mono (represents_exec op h (by omega)) fun _ w' h' => ih h' ?_
    have := s.length_step_le op
    omega

end Operations

/-- A new list represents the empty one. -/
theorem represents_init (onRemoveCallback : Bool) (nodes : NodeId → Node) :
    (init onRemoveCallback nodes).Represents ⟨[], onRemoveCallback, []⟩ where
  doubly := .nil
  size := rfl
  allocated := by simp [init]
  callback := rfl
  events := rfl

/-- A list that represents the abstract one is empty in all its fields or in none. -/
theorem State.Represents.empty {w : State} {s : Spec} (h : w.Represents s) :
    (w.head = none ↔ w.size = 0) ∧ (w.tail = none ↔ w.size = 0) := by
  rw [h.doubly.head_eq, h.doubly.tail_eq, h.size]
  simp

/-- Every run ends without touching freed memory. The list then has the nodes of the abstract one
in both directions, its size, and what its removals do was done once for each of them. -/
theorem run_represents (onRemoveCallback : Bool) (nodes : NodeId → Node) (ops : List Op) :
    ∃ N, ∀ n ≥ N, wp (fun _ => False) (run n ops) (fun _ w =>
      w.Represents (Spec.run onRemoveCallback ops) ∧ (w.head = none ↔ w.size = 0) ∧
        (w.tail = none ↔ w.size = 0)) (init onRemoveCallback nodes) := by
  refine ⟨ops.length + 1, fun n hn => ?_⟩
  have hlt : ([] : List NodeId).length + ops.length < n := by
    rw [List.length_nil, Nat.zero_add]
    exact hn
  refine wp_mono (represents_ops ops (represents_init onRemoveCallback nodes) hlt) fun _ w h => ?_
  exact ⟨h, h.empty⟩

/-- The middle one of three nodes is removed, and then the first one. -/
example : (Spec.run true [.append ⟨16, by decide⟩, .append ⟨32, by decide⟩, .append ⟨48, by decide⟩,
    .remove ⟨32, by decide⟩, .removeFirst]).items = [⟨48, by decide⟩] := by decide

end FrameTransporter.FtList
