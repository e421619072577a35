import Mathlib.Tactic.Simps.Basic
import FrameTransporter.Mempool.Pool

/-! # A socket and its surroundings

Socket code runs on one socket object, the frames in memory and the data of the
protocol above it. Whatever comes from outside is a function of a clock that
counts the questions asked so far, so quantifying over these functions covers
every behaviour. The owner of each frame and the trace of what was done are kept
beside the memory; no code reads them.
-/

namespace FrameTransporter

open Hoare Intrusive

/-- The values of `errno` that the code tells apart. -/
inductive Errno
  | EAGAIN
  | ENOTCONN
  | ECONNRESET
  | EINPROGRESS
  | ENOBUFS
  | ENOMEM
  | other (n : ℕ)
  deriving DecidableEq, Repr

/-- Who may use a frame: the pool, the delegate and application, the read side of the socket or
its write queue. -/
inductive Owner
  | pool
  | user
  | reader
  | writer
  deriving DecidableEq, Repr

/-- The second argument of `shutdown`. -/
inductive How
  | SHUT_RD
  | SHUT_WR
  | SHUT_RDWR
  deriving DecidableEq, Repr

/-- What a socket did, seen from outside. -/
inductive Io
  | recv (vec : Vec) (size : ℕ) (bytes : List UInt8)
  | send (bytes : List UInt8)
  | shutdown (how : How)
  | setSslState (server : Bool)
  | obtained (f : FrameId)
  | accepted (f : FrameId) (type : FrameType) (bytes : List UInt8)
  | offer (f : FrameId) (type : FrameType)
  | read (f : FrameId) (bytes : List UInt8) (taken last : Bool)
  | connected
  | error (sysErrno : Option Errno) (readFrame : Option FrameId)
  | readEnd (eos : Option FrameId)
  | release (f : FrameId) (side : Char)
  | frameReturn (f : FrameId)
  deriving DecidableEq, Repr

/-- An entry of a trace with one more entry is the new one or was there before. -/
theorem concat_eq_split {α : Type} {t pre post : List α} {x y : α}
    (h : t ++ [x] = pre ++ y :: post) :
    (post = [] ∧ x = y ∧ t = pre) ∨ ∃ post', post = post' ++ [x] ∧ t = pre ++ y :: post' := by
  rcases List.eq_nil_or_concat' post with rfl | ⟨post, z, rfl⟩
  · obtain ⟨ht, hxy⟩ := List.append_inj' h rfl
    exact Or.inl ⟨rfl, List.head_eq_of_cons_eq hxy, ht⟩
  · have h : t ++ [x] = (pre ++ y :: post) ++ [z] := by simpa using h
    obtain ⟨ht, hxz⟩ := List.append_inj' h rfl
    exact Or.inr ⟨post, by rw [List.head_eq_of_cons_eq hxz], ht⟩

/-- The context of a socket: the time of its event loop, the frame that its pool has on offer,
and the link that the pool stores into a returned frame. -/
structure Context where
  evNow : ℕ → ℚ
  framePool : ℕ → Option FrameId
  availableFrames : ℕ → Option FrameId

structure World (σ π : Type) where
  socket : σ
  proto : π
  heap : FrameId → Frame
  owner : FrameId → Owner
  clock : ℕ
  trace : List Io

/-- Code of a socket `σ` below a protocol `π`. -/
abbrev SocketM (σ π α : Type) := Prog (World σ π) Fault α

namespace World

variable {σ π α : Type}

/-- Before the socket exists all frames are in the pool, with any bytes in them. -/
def init (socket : σ) (proto : π) (data : FrameId → ℕ → UInt8) : World σ π where
  socket := socket
  proto := proto
  heap := fun f => { Pool.frameInit none with data := data f }
  owner := fun _ => .pool
  clock := 0
  trace := []

/-- The link stored in a frame. -/
def next (w : World σ π) (f : FrameId) : Option FrameId := (w.heap f).next

@[simps] def tick (w : World σ π) : World σ π := { w with clock := w.clock + 1 }

@[simps] def setSocket (w : World σ π) (s : σ) : World σ π := { w with socket := s }

@[simp] theorem setSocket_setSocket (w : World σ π) (s t : σ) :
    (w.setSocket s).setSocket t = w.setSocket t := rfl

@[simps] def setFrame (w : World σ π) (f : FrameId) (x : Frame) : World σ π :=
  { w with heap := Function.update w.heap f x }

theorem setFrame_setFrame (w : World σ π) (f : FrameId) (x y : Frame) :
    (w.setFrame f x).setFrame f y = w.setFrame f y := by
  simp [setFrame]

@[simps] def setOwner (w : World σ π) (f : FrameId) (o : Owner) : World σ π :=
  { w with owner := Function.update w.owner f o }

@[simps] def record (w : World σ π) (x : Io) : World σ π := { w with trace := w.trace ++ [x] }

/-- Store a frame at the end of a write queue and clear its link. -/
@[simps] def enqueue (w : World σ π) (link : Link FrameId) (f : FrameId) : World σ π :=
  { w with heap := fun g => { w.heap g with next := link.store f w.next g } }

end World

section Operations

variable {σ π α : Type}

/-- An answer from outside. -/
def ask (q : ℕ → α) : SocketM σ π α := do
  let w ← get
  set w.tick
  return q w.clock

def getSocket : SocketM σ π σ := do
  let w ← get
  return w.socket

def modifySocket (g : σ → σ) : SocketM σ π Unit := modify fun w => w.setSocket (g w.socket)

def getFrame (f : FrameId) : SocketM σ π Frame := do
  let w ← get
  return w.heap f

def setFrame (f : FrameId) (x : Frame) : SocketM σ π Unit := modify fun w => w.setFrame f x

def setOwner (f : FrameId) (o : Owner) : SocketM σ π Unit := modify fun w => w.setOwner f o

def record (x : Io) : SocketM σ π Unit := modify fun w => w.record x

/-- `ft_pool_borrow`: a free frame with a fresh header, or null. -/
def poolBorrow (ctx : Context) (type : FrameType) (file : String) (line : ℕ) :
    SocketM σ π (Option FrameId) := do
  let f ← ask ctx.framePool
  let w ← get
  match f with
  | none => return none
  | some f =>
    if w.owner f = .pool then
      set ((w.setFrame f (Pool.resetFrame (w.heap f) type file line)).setOwner f .user)
      return some f
    else return none

/-- `ft_frame_return`; `Pool.frameReturn` has the bookkeeping of the zone. -/
def frameReturn (ctx : Context) (f : FrameId) : SocketM σ π Unit := do
  let x ← getFrame f
  if x.type = .free then throw (.abort .typeNotFree)
  else if x.lastSeenByFile = none then throw (.abort .lastSeenByFile)
  else if x.lastSeenByLine = 0 then throw (.abort .lastSeenByLine)
  else
    let next ← ask ctx.availableFrames
    setFrame f { x with type := .free, next, lastSeenByFile := none, lastSeenByLine := 0 }
    setOwner f .pool
    record (.frameReturn f)

end Operations

section Rules

variable {σ π α : Type} {E : Fault → Prop} {w : World σ π}

@[simp] theorem wp_ask (q : ℕ → α) {Q : α → World σ π → Prop} :
    wp E (ask q) Q w ↔ Q (q w.clock) w.tick := Iff.rfl

@[simp] theorem wp_getSocket {Q : σ → World σ π → Prop} :
    wp E getSocket Q w ↔ Q w.socket w := Iff.rfl

@[simp] theorem wp_modifySocket (g : σ → σ) {Q : Unit → World σ π → Prop} :
    wp E (modifySocket g) Q w ↔ Q () (w.setSocket (g w.socket)) := Iff.rfl

@[simp] theorem wp_getFrame (f : FrameId) {Q : Frame → World σ π → Prop} :
    wp E (getFrame f) Q w ↔ Q (w.heap f) w := Iff.rfl

@[simp] theorem wp_setFrame (f : FrameId) (x : Frame) {Q : Unit → World σ π → Prop} :
    wp E (setFrame f x) Q w ↔ Q () (w.setFrame f x) := Iff.rfl

@[simp] theorem wp_setOwner (f : FrameId) (o : Owner) {Q : Unit → World σ π → Prop} :
    wp E (setOwner f o) Q w ↔ Q () (w.setOwner f o) := Iff.rfl

@[simp] theorem wp_record (x : Io) {Q : Unit → World σ π → Prop} :
    wp E (record x) Q w ↔ Q () (w.record x) := Iff.rfl

end Rules

section Lifted

variable {σ π α : Type} {E : Fault → Prop} {J : σ → Prop} {K : σ → σ → Prop} {w : World σ π}

/-- A condition on the socket alone. -/
def OnSocket (J : σ → Prop) (w : World σ π) : Prop := J w.socket

/-- A relation between the sockets before and after. -/
def SocketStep (K : σ → σ → Prop) (w w' : World σ π) : Prop := K w.socket w'.socket

instance [IsPreorder σ K] : IsPreorder (World σ π) (SocketStep K) where
  refl w := refl_of K w.socket
  trans _ _ _ h h' := trans_of K h h'

theorem preserves_modifySocket {g : σ → σ} (hg : ∀ s, J s → J (g s) ∧ K s (g s)) :
    Preserves E (OnSocket J) (SocketStep K) (modifySocket (π := π) g) := fun w h => hg w.socket h

/-- After reading the socket, the rest may use that it is the current one. -/
theorem preserves_getSocket_bind {I : World σ π → Prop} {R : World σ π → World σ π → Prop}
    {k : σ → SocketM σ π α} (hk : ∀ w, I w → wp E (k w.socket) (fun _ w' => I w' ∧ R w w') w) :
    Preserves E I R (getSocket >>= k) := hk

variable [IsPreorder σ K]

/-- What leaves the socket alone keeps every condition on it. -/
theorem preserves_of_socket {m : SocketM σ π α}
    (hm : ∀ w, wp E m (fun _ w' => w'.socket = w.socket) w) :
    Preserves E (OnSocket J) (SocketStep K) m := by
  intro w h
  refine wp_mono (hm w) fun _ w' hs => ?_
  unfold OnSocket SocketStep
  rw [hs]
  exact ⟨h, refl_of K _⟩

/-- A pure computation leaves the socket alone, whether it fails or not. -/
theorem preserves_liftM {r : Except Fault α} (hr : ∀ e, r = .error e → E e) :
    Preserves E (OnSocket J) (SocketStep K) (liftM r : SocketM σ π α) := by
  refine preserves_of_socket fun w => ?_
  cases r with
  | error e => exact hr e rfl
  | ok a => rfl

theorem poolBorrow_socket (ctx : Context) (type : FrameType) (file : String) (line : ℕ) :
    wp E (poolBorrow ctx type file line) (fun _ w' => w'.socket = w.socket) w := by
  unfold poolBorrow
  rw [wp_bind, wp_ask, wp_bind, wp_get]
  cases ctx.framePool w.clock with
  | none => rfl
  | some f =>
    dsimp only
    rw [wp_ite]
    exact ⟨fun _ => rfl, fun _ => rfl⟩

/-- A borrowed frame has the wanted type. -/
theorem poolBorrow_type (ctx : Context) (type : FrameType) (file : String) (line : ℕ) :
    wp (fun _ => True) (poolBorrow ctx type file line)
      (fun r w' => ∀ f, r = some f → (w'.heap f).type = type) w := by
  unfold poolBorrow
  rw [wp_bind, wp_ask, wp_bind, wp_get]
  cases ctx.framePool w.clock with
  | none => simp
  | some f =>
    dsimp only
    rw [wp_ite]
    refine ⟨fun _ g hg => ?_, fun _ => by simp⟩
    obtain rfl := Option.some.inj hg
    simp [Pool.resetFrame]

theorem frameReturn_socket
    (hE : ∀ a ∈ [Assertion.typeNotFree, .lastSeenByFile, .lastSeenByLine], E (.abort a))
    (ctx : Context) (f : FrameId) :
    wp E (frameReturn ctx f) (fun _ w' => w'.socket = w.socket) w := by
  unfold frameReturn
  rw [wp_bind, wp_getFrame, wp_ite, wp_ite, wp_ite]
  exact ⟨fun _ => hE _ (by simp), fun _ => ⟨fun _ => hE _ (by simp), fun _ =>
    ⟨fun _ => hE _ (by simp), fun _ => rfl⟩⟩⟩

end Lifted

end FrameTransporter
