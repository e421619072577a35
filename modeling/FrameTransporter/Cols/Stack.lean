import FrameTransporter.Basic
import FrameTransporter.Histories.Stack
import Mathlib.Logic.Function.Basic

/-! # The lock-free stack

The head is a pointer to the top node together with a counter that each successful
compare-and-swap advances. Threads interleave at the atomic steps of push and pop: a
load of the head, an access to the link of a node, a compare-and-swap, a change of the
size. Between the steps a thread has its variables only.
-/

namespace FrameTransporter.Stack

open Histories

abbrev NodeId := ℕ

/-- `struct ft_stack_head`. -/
structure Head where
  aba : UInt64
  node : Option NodeId
  deriving DecidableEq

/-- Where a thread is in a call, with the variables that it has there. -/
inductive Pc
  | idle
  /-- In `_ft_stack_push`, before the load of the head. -/
  | pushLoad (node : NodeId)
  /-- At the start of the loop of `_ft_stack_push`. -/
  | pushLoop (node : NodeId) (orig : Head)
  /-- At the compare-and-swap of `_ft_stack_push`. -/
  | pushSwap (node : NodeId) (orig next : Head)
  /-- In `ft_stack_push`, before the size is changed. -/
  | pushSize
  /-- In `_ft_stack_pop`, before the load of the head. -/
  | popLoad
  /-- At the start of the loop of `_ft_stack_pop`. -/
  | popLoop (orig : Head)
  /-- At the compare-and-swap of `_ft_stack_pop`, with the node in `orig`. -/
  | popSwap (node : NodeId) (orig next : Head)
  /-- In `ft_stack_pop`, before the size is changed. -/
  | popSize (node : NodeId)

/-- A pop that has loaded the head and may read the link of the node there. -/
def Pc.popping : Pc → Bool
  | popLoop _ => true
  | popSwap _ _ _ => true
  | _ => false

/-- `struct ft_stack` and the links of the nodes in memory, with the threads that use it. Three
fields are no part of the program: which nodes are allocated, which thread has a node that is not
on the stack, and what has taken effect. -/
structure State (T : Type) where
  head : Head
  size : UInt64
  next : NodeId → Option NodeId
  pc : T → Pc
  allocated : NodeId → Bool
  owner : NodeId → Option T
  history : List (Event T NodeId)

/-- `ft_stack_init`, before any node is allocated. -/
def init {T : Type} (next : NodeId → Option NodeId) : State T where
  head := ⟨0, none⟩
  size := 0
  next := next
  pc := fun _ => .idle
  allocated := fun _ => false
  owner := fun _ => none
  history := []

namespace State

variable {T : Type} [DecidableEq T] (s : State T) (t : T)

def goto (pc : Pc) : State T := { s with pc := Function.update s.pc t pc }

def setNext (node : NodeId) (q : Option NodeId) : State T :=
  { s with next := Function.update s.next node q }

def setOwner (node : NodeId) (o : Option T) : State T :=
  { s with owner := Function.update s.owner node o }

def log (e : Event T NodeId) : State T := { s with history := e :: s.history }

/-- Whether `atomic_compare_exchange_weak` stores, which it may refuse to do at any time. -/
def swaps (orig : Head) (weak : Bool) : Bool := s.head = orig && !weak

/-- The next atomic step of the call in which a thread is. -/
def run (weak : Bool) : State T :=
  match s.pc t with
  | .idle => s
  | .pushLoad node => s.goto t (.pushLoop node s.head)
  | .pushLoop node orig =>
    (s.setNext node orig.node).goto t (.pushSwap node orig ⟨orig.aba + 1, some node⟩)
  | .pushSwap node orig next =>
    if s.swaps orig weak then
      (({ s with head := next }.setOwner node none).log (.push t node)).goto t .pushSize
    else s.goto t (.pushLoop node s.head)
  | .pushSize => { s with size := s.size + 1 }.goto t .idle
  | .popLoad => s.goto t (.popLoop s.head)
  | .popLoop orig =>
    match orig.node with
    | none => (s.log (.ret t none)).goto t .idle
    | some node => s.goto t (.popSwap node orig ⟨orig.aba + 1, s.next node⟩)
  | .popSwap node orig next =>
    if s.swaps orig weak then
      (({ s with head := next }.setOwner node (some t)).log (.pop t node)).goto t (.popSize node)
    else s.goto t (.popLoop s.head)
  | .popSize node => ({ s with size := s.size - 1 }.log (.ret t (some node))).goto t .idle

/-- `ft_stack_node_new`, where `malloc` returns `node`. -/
def nodeNew (node : NodeId) : State T :=
  ({ s with allocated := Function.update s.allocated node true }.setNext node none).setOwner node
    (some t)

/-- `ft_stack_node_del`. -/
def nodeDel (node : NodeId) : State T :=
  { s with allocated := Function.update s.allocated node false }.setOwner node none

end State

section Runs

variable {T : Type} [DecidableEq T]

/-- A thread calls push with a node that it has. It has the nodes that it allocated or popped, or
was handed by another thread, and it frees one only while no pop is reading links. -/
inductive Step (s : State T) : State T → Prop
  | nodeNew (t : T) (node : NodeId) (hpc : s.pc t = .idle) (hnew : s.allocated node = false) :
    Step s (s.nodeNew t node)
  | nodeDel (t : T) (node : NodeId) (hpc : s.pc t = .idle) (hown : s.owner node = some t)
    (hpop : ∀ t', (s.pc t').popping = false) : Step s (s.nodeDel node)
  | hand (t t' : T) (node : NodeId) (hpc : s.pc t = .idle) (hown : s.owner node = some t) :
    Step s (s.setOwner node (some t'))
  | push (t : T) (node : NodeId) (hpc : s.pc t = .idle) (hown : s.owner node = some t) :
    Step s (s.goto t (.pushLoad node))
  | pop (t : T) (hpc : s.pc t = .idle) : Step s (s.goto t .popLoad)
  | run (t : T) (weak : Bool) : Step s (s.run t weak)

/-- The states that the steps of the threads lead to, in any order, while the counter does not
wrap. -/
inductive Reached : State T → Prop
  | init (next : NodeId → Option NodeId) : Reached (init next)
  | step {s s' : State T} (hs : Reached s) (h : Step s s') (haba : s.head.aba ≤ s'.head.aba) :
    Reached s'

end Runs

end FrameTransporter.Stack
