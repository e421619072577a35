import Mathlib.Data.Finset.Option
import Mathlib.Data.Fintype.EquivFin
import Mathlib.Tactic.Abel
import FrameTransporter.Histories.Handles
import FrameTransporter.Sock.Listener

/-! # Descriptors of sockets

A process opens listeners, streams and datagram sockets, accepts connections and
gives everything up again, while system calls fail at will. The descriptors that
are open are at all times those of its sockets, each of one socket, and none is
used or closed after it was closed. A socket file is left behind only if it could
not be unlinked.
-/

namespace FrameTransporter

namespace Sockets

open Listener

/-- A path, as in `struct sockaddr_un`. -/
abbrev Path := List UInt8

def SOCK_STREAM : ℤ := 1

/-- The descriptors that the system gives out. None of them is open. -/
structure Kernel where
  fresh : Finset ℕ → ℕ → ℕ
  fresh_notMem : ∀ s n, fresh s n ∉ s

/-- The system may give out the lowest free descriptor. -/
instance : Inhabited Kernel where
  default := {
    fresh := fun s _ => Nat.find (Infinite.exists_notMem_finset s)
    fresh_notMem := fun s _ => Nat.find_spec (Infinite.exists_notMem_finset s) }

/-- `struct ft_listener` with its watcher. -/
structure Listening extends Listener where
  active : Bool

/-- `struct ft_stream`, as far as its descriptor goes. -/
structure Connection where
  fd : ℕ

/-- `struct ft_dgram`, as far as its descriptor and its address go. The address is null if its
length is zero. -/
structure Datagram where
  fd : ℕ
  family : Family
  addr : Option Path
  bind : Bool
  connect : Bool

/-- What a process does with descriptors, the socket files that there are, and those that could
not be unlinked. -/
structure Process where
  clock : ℕ
  calls : List (Handles.Call ℕ)
  opened : Finset ℕ
  paths : Finset Path
  refused : Finset Path
  listeners : List Listening
  streams : List Connection
  dgrams : List Datagram

/-- How `bind` or `connect` returns: with zero, with `EINPROGRESS`, or with another error. -/
inductive Rc
  | done
  | inProgress
  | failed
  deriving DecidableEq

namespace Process

/-- A call that opens a descriptor. -/
def acquire (k : Kernel) (w : Process) : Process :=
  { w with
    clock := w.clock + 1
    calls := w.calls ++ [.acquire (k.fresh w.opened w.clock)]
    opened := insert (k.fresh w.opened w.clock) w.opened }

/-- A call on a descriptor. -/
def use (fd : ℕ) (w : Process) : Process := { w with calls := w.calls ++ [.use fd] }

/-- `close`. -/
def close (fd : ℕ) (w : Process) : Process :=
  { w with calls := w.calls ++ [.release fd], opened := w.opened.erase fd }

/-- `unlink`, which may be refused. -/
def unlink (ok : Bool) (path : Option Path) (w : Process) : Process :=
  match path with
  | none => w
  | some p =>
    if ok then { w with paths := w.paths.erase p } else { w with refused := insert p w.refused }

/-- The removal of a stalled socket file, if `stat` finds one. -/
def unlinkStalled (ok : Bool) (path : Option Path) (w : Process) : Process :=
  if ∃ p ∈ path, p ∈ w.paths then w.unlink ok path else w

/-- The socket file that a successful `bind` makes. -/
def touch (p : Option Path) (w : Process) : Process :=
  match p with
  | none => w
  | some p => { w with paths := insert p w.paths }

end Process

/-- The path of an address of `AF_UNIX`. -/
def unixPath (family : Family) (addr : Path) : Option Path :=
  if family = .AF_UNIX then some addr else none

section Functions

variable (k : Kernel)

/-- What the system answers in `ft_listener_init`. -/
structure OpenAnswers where
  unlink : Bool
  unsupported : Bool
  socket : Bool
  ipv6Only : Bool
  bind : Bool

/-- The part of `ft_listener_init` behind `socket`. A path at which there is a file cannot be
bound to. -/
def bindListener (a : OpenAnswers) (backlog : ℤ) (ai : AddrInfo) (fd : ℕ) (w : Process) :
    Option Listening × Process :=
  -- the options of the socket and its non-blocking mode
  let w := w.use fd
  if ai.family = .AF_INET6 ∧ a.ipv6Only = false then (none, w.close fd)
  else
    let w := w.use fd
    if a.bind = false ∨ ∃ p ∈ unixPath ai.family ai.addr, p ∈ w.paths then (none, w.close fd)
    else
      let l := { ai with
        data := 0, fd, listening := false, backlog, acceptEvents := 0, active := false }
      (some l, w.touch (unixPath ai.family ai.addr))

/-- `ft_listener_init`, null if it returns false. -/
def listenerInit (a : OpenAnswers) (backlog : ℤ) (ai : AddrInfo) (w : Process) :
    Option Listening × Process :=
  let w := w.unlinkStalled a.unlink (unixPath ai.family ai.addr)
  if ai.family ≠ .AF_UNIX ∧ a.unsupported = true then (none, w)
  else if a.socket = false then (none, w)
  else bindListener a backlog ai (k.fresh w.opened w.clock) (w.acquire k)

/-- `ft_listener_fini`. -/
def listenerFini (unlink : Bool) (l : Listening) (w : Process) : Process :=
  (w.close l.fd).unlink unlink (unixPath l.family l.addr)

/-- `enum ft_listener_cntl_codes`. -/
inductive Cntl
  | START
  | STOP
  deriving DecidableEq

/-- `_ft_listener_cntl_start`, where `listen` may fail. -/
def cntlStart (ok : Bool) (l : Listening) (w : Process) : Bool × Listening × Process :=
  if l.listening then (true, { l with active := true }, w)
  else
    let w := w.use l.fd
    if ok = false then (false, l, w) else (true, { l with listening := true, active := true }, w)

/-- `_ft_listener_cntl_stop`. -/
def cntlStop (l : Listening) : Bool × Listening := (true, { l with active := false })

/-- `ft_listener_cntl`. -/
def cntl (codes : Finset Cntl) (listen : Bool) (l : Listening) (w : Process) :
    Bool × Listening × Process :=
  let (ok, l, w) := if .START ∈ codes then cntlStart listen l w else (true, l, w)
  if .STOP ∈ codes then
    let (ok', l) := cntlStop l
    (ok && ok', l, w)
  else (ok, l, w)

/-- The loop of `ft_listener_list_cntl` over the nodes that are left, which answers the ones that
it has visited. -/
def listCntl (codes : Finset Cntl) : List (Listening × Bool) → Process →
    Bool × List Listening × Process
  | [], w => (true, [], w)
  | (l, listen) :: ls, w =>
    let (ok, l, w) := cntl codes listen l w
    let (ok', ls, w) := listCntl codes ls w
    (ok && ok', l :: ls, w)

/-- `ft_listener_list_extend_by_addrinfo` with what the system answers for each address, which is
null if there is no memory for the node. -/
def extendByAddrinfo (backlog : ℤ) (data : ℕ) : List (AddrInfo × Option OpenAnswers) → ℤ → Process →
    ℤ × Process
  | [], rc, w => (rc, w)
  | (_, none) :: rest, rc, w => extendByAddrinfo backlog data rest rc w
  | (rp, some a) :: rest, rc, w =>
    match listenerInit k a backlog rp w with
    | (none, w) => extendByAddrinfo backlog data rest rc w
    | (some l, w) => extendByAddrinfo backlog data rest (rc + 1)
        { w with listeners := w.listeners ++ [{ l with data }] }

/-- `ft_stream_accept` of a connection of the listener, null if it returns false. -/
def streamAccept (l : Listening) (fd : ℕ) (w : Process) : Option Connection × Process :=
  if l.socktype ≠ SOCK_STREAM then (none, w) else (some ⟨fd⟩, w.use fd)

/-- `ft_stream_connect`, null if it returns false. -/
def streamConnect (ai : AddrInfo) (socket : Bool) (rc : Rc) (w : Process) :
    Option Connection × Process :=
  if ai.socktype ≠ SOCK_STREAM then (none, w)
  else if socket = false then (none, w)
  else
    let fd := k.fresh w.opened w.clock
    let w := (w.acquire k).use fd
    let w := w.use fd
    if rc = .failed then (none, w.close fd) else (some ⟨fd⟩, w)

/-- `ft_stream_fini`. -/
def streamFini (s : Connection) (w : Process) : Process := w.close s.fd

/-- `ft_dgram_init`, null if it returns false. -/
def dgramInit (family : Family) (socket : Bool) (w : Process) : Option Datagram × Process :=
  if socket = false then (none, w)
  else
    let fd := k.fresh w.opened w.clock
    (some ⟨fd, family, none, false, false⟩, (w.acquire k).use fd)

/-- `ft_dgram_bind`. A bound socket cannot be bound again, nor a socket to a path at which there is
a file. -/
def dgramBind (unlink : Bool) (rc : Rc) (addr : Option Path) (d : Datagram) (w : Process) :
    Bool × Datagram × Process :=
  let path := addr.bind (unixPath d.family)
  let w := (w.unlinkStalled unlink path).use d.fd
  if rc = .failed ∨ d.bind = true ∨ (rc = .done ∧ ∃ p ∈ path, p ∈ w.paths) then (false, d, w)
  else (true, { d with addr, bind := true }, if rc = .done then w.touch path else w)

/-- `ft_dgram_connect`. -/
def dgramConnect (rc : Rc) (d : Datagram) (w : Process) : Bool × Datagram × Process :=
  let w := w.use d.fd
  if rc = .failed then (false, d, w) else (true, { d with connect := true }, w)

/-- `ft_dgram_fini`, where a socket file is removed as by default. -/
def dgramFini (unlink : Bool) (d : Datagram) (w : Process) : Process :=
  (w.close d.fd).unlink unlink (d.addr.bind (unixPath d.family))

/-- What happens when the watcher of a listener fires: its events, whether `accept` gives a
descriptor, whether the delegate has a callback, and whether there is memory for a node. -/
structure IoAnswers where
  error : Bool
  read : Bool
  accept : Bool
  callback : Bool
  nodeNew : Bool

/-- `on_accept_cb` of a server that keeps its streams in a list. -/
def onAcceptCb (nodeNew : Bool) (l : Listening) (fd : ℕ) (w : Process) : Bool × Process :=
  if nodeNew = false then (false, w)
  else
    match streamAccept l fd w with
    | (none, w) => (false, w)
    | (some s, w) => (true, { w with streams := w.streams ++ [s] })

/-- The accepted descriptor goes to the delegate, and is closed if the delegate refuses it. -/
def handOver (a : IoAnswers) (l : Listening) (fd : ℕ) (w : Process) : Process :=
  if a.callback = false then w.close fd
  else
    match onAcceptCb a.nodeNew l fd w with
    | (false, w) => w.close fd
    | (true, w) => w

/-- `_ft_listener_on_io` for the listener number `i`, and the listener after it. -/
def onIo (a : IoAnswers) (i : ℕ) (l : Listening) (w : Process) : Process :=
  if a.error = true ∨ a.read = false then w
  else
    let l := { l with acceptEvents := (l.acceptEvents + 1) % 2 ^ 32 }
    let w := { w with listeners := w.listeners.set i l }
    let w := w.use l.fd
    if a.accept = false then w
    else handOver a l (k.fresh w.opened w.clock) (w.acquire k)

/-- `ft_list_clear` of the listeners, whose callback is `ft_listener_list_on_remove`. -/
def clearListeners (unlink : Path → Bool) : List Listening → Process → Process
  | [], w => w
  | l :: ls, w =>
    clearListeners unlink ls (listenerFini (unlink l.addr) l { w with listeners := ls })

/-- `ft_list_clear` of the streams, whose callback is `streams_on_remove`. -/
def clearStreams : List Connection → Process → Process
  | [], w => w
  | s :: ss, w => clearStreams ss (streamFini s { w with streams := ss })

/-- `ft_dgram_fini` of every datagram socket. -/
def clearDgrams (unlink : Path → Bool) : List Datagram → Process → Process
  | [], w => w
  | d :: ds, w =>
    clearDgrams unlink ds (dgramFini (unlink (d.addr.getD [])) d { w with dgrams := ds })

end Functions

section Runs

/-- What a process does with its sockets: it extends and controls the list of listeners, the event
loop runs a watcher that is active, and single sockets are opened and finished. -/
inductive Event
  | extend (backlog : ℤ) (data : ℕ) (addresses : List (AddrInfo × Option OpenAnswers))
  | control (codes : Finset Cntl) (listen : ℕ → Bool)
  | io (a : IoAnswers) (i : ℕ)
  | removeListener (unlink : Bool) (i : ℕ)
  | connect (ai : AddrInfo) (socket : Bool) (rc : Rc)
  | removeStream (i : ℕ)
  | dgramInit (family : Family) (socket : Bool)
  | dgramBind (unlink : Bool) (rc : Rc) (addr : Option Path) (i : ℕ)
  | dgramConnect (rc : Rc) (i : ℕ)
  | dgramFini (unlink : Bool) (i : ℕ)

variable (k : Kernel)

/-- The process after an event. An event of a socket that there is not does nothing. -/
def Event.exec : Event → Process → Process
  | .extend backlog data addresses, w => (extendByAddrinfo k backlog data addresses 0 w).2
  | .control codes listen, w =>
    let r := listCntl codes (w.listeners.zipIdx.map fun l => (l.1, listen l.2)) w
    { r.2.2 with listeners := r.2.1 }
  | .io a i, w =>
    match w.listeners[i]? with
    | none => w
    | some l => if l.active then onIo k a i l w else w
  | .removeListener unlink i, w =>
    match w.listeners[i]? with
    | none => w
    | some l => listenerFini unlink l { w with listeners := w.listeners.eraseIdx i }
  | .connect ai socket rc, w =>
    match streamConnect k ai socket rc w with
    | (none, w) => w
    | (some s, w) => { w with streams := w.streams ++ [s] }
  | .removeStream i, w =>
    match w.streams[i]? with
    | none => w
    | some s => streamFini s { w with streams := w.streams.eraseIdx i }
  | .dgramInit family socket, w =>
    match Sockets.dgramInit k family socket w with
    | (none, w) => w
    | (some d, w) => { w with dgrams := w.dgrams ++ [d] }
  | .dgramBind unlink rc addr i, w =>
    match w.dgrams[i]? with
    | none => w
    | some d =>
      let r := Sockets.dgramBind unlink rc addr d w
      { r.2.2 with dgrams := w.dgrams.set i r.2.1 }
  | .dgramConnect rc i, w =>
    match w.dgrams[i]? with
    | none => w
    | some d =>
      let r := Sockets.dgramConnect rc d w
      { r.2.2 with dgrams := w.dgrams.set i r.2.1 }
  | .dgramFini unlink i, w =>
    match w.dgrams[i]? with
    | none => w
    | some d => Sockets.dgramFini unlink d { w with dgrams := w.dgrams.eraseIdx i }

def run (events : List Event) (w : Process) : Process := events.foldl (fun w e => e.exec k w) w

/-- A process without sockets, and the socket files of others. -/
def init (paths : Finset Path) : Process := ⟨0, [], ∅, paths, ∅, [], [], []⟩

/-- The end of the program: all sockets are finished. -/
def cleanUp (unlink : Path → Bool) (w : Process) : Process :=
  let w := clearStreams w.streams w
  let w := clearListeners unlink w.listeners w
  clearDgrams unlink w.dgrams w

end Runs

section Invariant

variable {base : Finset Path} {extra extra' : Multiset ℕ} {pend pend' : Finset Path}
  {w w' : Process} {fd : ℕ} {p : Path} {k : Kernel}

/-- The descriptors of the sockets of the process. -/
def Process.fds (w : Process) : Multiset ℕ :=
  ↑(w.listeners.map (·.fd)) + ↑(w.streams.map (·.fd)) + ↑(w.dgrams.map (·.fd))

/-- The path that a listener is bound to. -/
def Listening.path (l : Listening) : Option Path := unixPath l.family l.addr

/-- The path that a datagram socket is bound to. -/
def Datagram.path (d : Datagram) : Option Path := d.addr.bind (unixPath d.family)

/-- A socket of the process is bound to the path. -/
def Process.Bound (w : Process) (p : Path) : Prop :=
  (∃ l ∈ w.listeners, l.path = some p) ∨ ∃ d ∈ w.dgrams, d.path = some p

/-- The descriptors `extra` are open and belong to no socket yet, or no longer, and so are the
socket files `pend` bound. -/
structure Holding (base : Finset Path) (extra : Multiset ℕ) (pend : Finset Path) (w : Process) :
    Prop where
  correct : Handles.held w.calls = some w.opened
  owned : w.opened.val = w.fds + extra
  listening : ∀ l ∈ w.listeners, l.active = true → l.listening = true
  unbound : ∀ d ∈ w.dgrams, d.bind = false → d.addr = none
  files : ∀ p ∈ w.paths, p ∈ base ∨ p ∈ w.refused ∨ w.Bound p ∨ p ∈ pend

theorem Holding.acquire (h : Holding base extra pend w) :
    Holding base (k.fresh w.opened w.clock ::ₘ extra) pend (w.acquire k) where
  __ := h
  correct := Handles.held_acquire h.correct (k.fresh_notMem _ _)
  owned := by
    change (insert (k.fresh w.opened w.clock) w.opened).val = w.fds + _
    rw [Finset.insert_val_of_notMem (k.fresh_notMem _ _), h.owned, Multiset.add_cons]

theorem Holding.mem_opened (h : Holding base extra pend w) (hfd : fd ∈ w.fds + extra) :
    fd ∈ w.opened := by
  rw [← Finset.mem_val, h.owned]
  exact hfd

theorem Holding.use (h : Holding base extra pend w) (fd : ℕ) (hfd : fd ∈ w.fds + extra) :
    Holding base extra pend (w.use fd) where
  __ := h
  correct := Handles.held_use h.correct (h.mem_opened hfd)

theorem Holding.close (h : Holding base (fd ::ₘ extra) pend w) :
    Holding base extra pend (w.close fd) where
  __ := h
  correct := Handles.held_release h.correct (h.mem_opened (by simp))
  owned := by
    change (w.opened.erase fd).val = w.fds + extra
    rw [Finset.erase_val, h.owned, Multiset.add_cons, Multiset.erase_cons_head]

theorem Holding.unlink (ok : Bool) (path : Option Path)
    (h : Holding base extra (path.toFinset ∪ pend) w) :
    Holding base extra pend (w.unlink ok path) := by
  cases path with
  | none => simpa [Process.unlink] using h
  | some p =>
    cases ok with
    | true =>
      refine { h with files := fun q hq => ?_ }
      obtain ⟨hne, hq⟩ := Finset.mem_erase.mp hq
      have hp : q ∉ (some p).toFinset := by simpa using hne
      have hf := h.files q hq
      rwa [Finset.mem_union, or_iff_right hp] at hf
    | false =>
      refine { h with files := fun q hq => ?_ }
      rcases h.files q hq with hb | hr | hs | hp
      · exact .inl hb
      · exact .inr (.inl (Finset.mem_insert_of_mem hr))
      · exact .inr (.inr (.inl hs))
      · rcases Finset.mem_union.mp hp with hp | hp
        · exact .inr (.inl (Finset.mem_insert.mpr (.inl (by simpa using hp))))
        · exact .inr (.inr (.inr hp))

theorem Holding.mono (h : Holding base extra pend w) (hp : pend ⊆ pend') :
    Holding base extra pend' w where
  __ := h
  files q hq := (h.files q hq).imp_right (Or.imp_right (Or.imp_right (@hp q)))

theorem Holding.unlinkStalled (ok : Bool) (path : Option Path) (h : Holding base extra pend w) :
    Holding base extra pend (w.unlinkStalled ok path) := by
  unfold Process.unlinkStalled
  split_ifs
  · exact (h.mono Finset.subset_union_right).unlink ok path
  · exact h

theorem Holding.touch (h : Holding base extra pend w) (path : Option Path) :
    Holding base extra (path.toFinset ∪ pend) (w.touch path) := by
  cases path with
  | none => exact h.mono Finset.subset_union_right
  | some p =>
    refine { h with files := fun q hq => ?_ }
    rcases Finset.mem_insert.mp hq with rfl | hq
    · exact .inr (.inr (.inr (by simp)))
    · exact (h.mono Finset.subset_union_right).files q hq

/-- Descriptors and socket files move between the sockets and the rest. -/
theorem Holding.regroup (h : Holding base extra pend w) (hc : w'.calls = w.calls)
    (ho : w'.opened = w.opened) (hp : w'.paths = w.paths) (hr : w'.refused = w.refused)
    (hfds : w'.fds + extra' = w.fds + extra)
    (hl : ∀ l ∈ w'.listeners, l.active = true → l.listening = true)
    (hd : ∀ d ∈ w'.dgrams, d.bind = false → d.addr = none)
    (hb : ∀ p, w.Bound p ∨ p ∈ pend → w'.Bound p ∨ p ∈ pend') : Holding base extra' pend' w' where
  correct := by rw [hc, ho, h.correct]
  owned := by rw [ho, h.owned, hfds]
  listening := hl
  unbound := hd
  files q hq := by
    rw [hr]
    rw [hp] at hq
    exact (h.files q hq).imp_right (Or.imp_right (hb q))

/-- A listener is taken out of the list. -/
theorem Holding.takeListener {l : Listening} {ls : List Listening} (h : Holding base extra pend w)
    (hl : (l :: ls).Perm w.listeners) :
    Holding base (l.fd ::ₘ extra) (l.path.toFinset ∪ pend) { w with listeners := ls } := by
  have hfds : (↑(w.listeners.map (·.fd)) : Multiset ℕ) = l.fd ::ₘ ↑(ls.map (·.fd)) :=
    Multiset.coe_eq_coe.mpr (hl.symm.map _)
  refine h.regroup rfl rfl rfl rfl ?_ ?_ h.unbound ?_
  · simp only [Process.fds, hfds, Multiset.cons_add, Multiset.add_cons]
  · exact fun x hx => h.listening x (hl.subset (List.mem_cons_of_mem _ hx))
  · intro p hp
    rcases hp with (⟨x, hx, hp⟩ | hd) | hp
    · rcases List.mem_cons.mp (hl.symm.subset hx) with rfl | hx
      · exact .inr (Finset.mem_union_left _ (by simp [hp]))
      · exact .inl (.inl ⟨x, hx, hp⟩)
    · exact .inl (.inr hd)
    · exact .inr (Finset.mem_union_right _ hp)

/-- A listener is put into the list. -/
theorem Holding.putListener {l : Listening} {ls : List Listening}
    (h : Holding base (l.fd ::ₘ extra) (l.path.toFinset ∪ pend) w)
    (hl : ls.Perm (l :: w.listeners)) (ha : l.active = true → l.listening = true) :
    Holding base extra pend { w with listeners := ls } := by
  have hfds : (↑(ls.map (·.fd)) : Multiset ℕ) = l.fd ::ₘ ↑(w.listeners.map (·.fd)) :=
    Multiset.coe_eq_coe.mpr (hl.map _)
  refine h.regroup rfl rfl rfl rfl ?_ ?_ h.unbound ?_
  · simp only [Process.fds, hfds, Multiset.cons_add, Multiset.add_cons]
  · intro x hx
    rcases List.mem_cons.mp (hl.subset hx) with rfl | hx
    · exact ha
    · exact h.listening x hx
  · intro p hp
    rcases hp with (⟨x, hx, hp⟩ | hd) | hp
    · exact .inl (.inl ⟨x, hl.symm.subset (List.mem_cons_of_mem _ hx), hp⟩)
    · exact .inl (.inr hd)
    · rcases Finset.mem_union.mp hp with hp | hp
      · exact .inl (.inl ⟨l, hl.symm.subset List.mem_cons_self, by simpa using hp⟩)
      · exact .inr hp

/-- A datagram socket is taken out of the list. -/
theorem Holding.takeDgram {d : Datagram} {ds : List Datagram} (h : Holding base extra pend w)
    (hd : (d :: ds).Perm w.dgrams) :
    Holding base (d.fd ::ₘ extra) (d.path.toFinset ∪ pend) { w with dgrams := ds } := by
  have hfds : (↑(w.dgrams.map (·.fd)) : Multiset ℕ) = d.fd ::ₘ ↑(ds.map (·.fd)) :=
    Multiset.coe_eq_coe.mpr (hd.symm.map _)
  refine h.regroup rfl rfl rfl rfl ?_ h.listening ?_ ?_
  · simp only [Process.fds, hfds, Multiset.cons_add, Multiset.add_cons]
  · exact fun x hx => h.unbound x (hd.subset (List.mem_cons_of_mem _ hx))
  · intro p hp
    rcases hp with (hl | ⟨x, hx, hp⟩) | hp
    · exact .inl (.inl hl)
    · rcases List.mem_cons.mp (hd.symm.subset hx) with rfl | hx
      · exact .inr (Finset.mem_union_left _ (by simp [hp]))
      · exact .inl (.inr ⟨x, hx, hp⟩)
    · exact .inr (Finset.mem_union_right _ hp)

/-- A datagram socket is put into the list. -/
theorem Holding.putDgram {d : Datagram} {ds : List Datagram}
    (h : Holding base (d.fd ::ₘ extra) (d.path.toFinset ∪ pend) w)
    (hd : ds.Perm (d :: w.dgrams)) (hu : d.bind = false → d.addr = none) :
    Holding base extra pend { w with dgrams := ds } := by
  have hfds : (↑(ds.map (·.fd)) : Multiset ℕ) = d.fd ::ₘ ↑(w.dgrams.map (·.fd)) :=
    Multiset.coe_eq_coe.mpr (hd.map _)
  refine h.regroup rfl rfl rfl rfl ?_ h.listening ?_ ?_
  · simp only [Process.fds, hfds, Multiset.cons_add, Multiset.add_cons]
  · intro x hx
    rcases List.mem_cons.mp (hd.subset hx) with rfl | hx
    · exact hu
    · exact h.unbound x hx
  · intro p hp
    rcases hp with (hl | ⟨x, hx, hp⟩) | hp
    · exact .inl (.inl hl)
    · exact .inl (.inr ⟨x, hd.symm.subset (List.mem_cons_of_mem _ hx), hp⟩)
    · rcases Finset.mem_union.mp hp with hp | hp
      · exact .inl (.inr ⟨d, hd.symm.subset List.mem_cons_self, by simpa using hp⟩)
      · exact .inr hp

/-- A stream is taken out of the list, or put into it. -/
theorem Holding.moveStreams {ss : List Connection} (h : Holding base extra pend w)
    (hs : (↑(ss.map (·.fd)) : Multiset ℕ) + extra' = ↑(w.streams.map (·.fd)) + extra) :
    Holding base extra' pend { w with streams := ss } := by
  refine h.regroup rfl rfl rfl rfl ?_ h.listening h.unbound fun p hp => hp
  have hs' : ∀ a c : Multiset ℕ, a + ↑(ss.map (·.fd)) + c + extra' =
      a + ↑(w.streams.map (·.fd)) + c + extra := by
    intro a c
    calc a + ↑(ss.map (·.fd)) + c + extra' = a + c + (↑(ss.map (·.fd)) + extra') := by abel
      _ = a + c + (↑(w.streams.map (·.fd)) + extra) := by rw [hs]
      _ = a + ↑(w.streams.map (·.fd)) + c + extra := by abel
  exact hs' _ _

/-- The descriptor and the path of a listener. -/
def Listening.key (l : Listening) : ℕ × Option Path := (l.fd, l.path)

theorem fds_listeners {ls : List Listening}
    (hk : ls.map Listening.key = w.listeners.map Listening.key) :
    Process.fds { w with listeners := ls } = w.fds := by
  have hfd : ls.map (·.fd) = w.listeners.map (·.fd) := by
    simpa [Function.comp_def, Listening.key] using congrArg (List.map Prod.fst) hk
  simp only [Process.fds, hfd]

theorem map_key_set {l : Listening} {ls : List Listening} {i : ℕ} (hi : ls[i]? = some l)
    {l' : Listening} (hk : l'.key = l.key) :
    (ls.set i l').map Listening.key = ls.map Listening.key := by
  obtain ⟨hlt, rfl⟩ := List.getElem?_eq_some_iff.mp hi
  rw [List.map_set, hk]
  have hlt' : i < (ls.map Listening.key).length := by simpa using hlt
  have hkey : ls[i].key = (ls.map Listening.key)[i] := by simp
  rw [hkey, List.set_getElem_self]

/-- The listeners change, but not their descriptors and paths. -/
theorem Holding.replaceListeners {ls : List Listening} (h : Holding base extra pend w)
    (hk : ls.map Listening.key = w.listeners.map Listening.key)
    (ha : ∀ l ∈ ls, l.active = true → l.listening = true) :
    Holding base extra pend { w with listeners := ls } := by
  have hpath : ls.map (·.path) = w.listeners.map (·.path) := by
    simpa [Function.comp_def, Listening.key] using congrArg (List.map Prod.snd) hk
  refine h.regroup rfl rfl rfl rfl ?_ ha h.unbound ?_
  · rw [fds_listeners hk]
  · intro p hp
    rcases hp with (⟨x, hx, hp⟩ | hd) | hp
    · have hm : some p ∈ ls.map (·.path) := by
        rw [hpath, ← hp]
        exact List.mem_map_of_mem hx
      exact .inl (.inl (List.mem_map.mp hm))
    · exact .inl (.inr hd)
    · exact .inr hp

end Invariant

section Operations

variable {base : Finset Path} {extra : Multiset ℕ} {pend : Finset Path} {w : Process} {fd : ℕ}
  {k : Kernel} {a : OpenAnswers} {backlog : ℤ} {ai : AddrInfo} {l : Listening}

/-- What a call leaves as it is beside the history of the calls. -/
structure OnlyUses (w w' : Process) : Prop where
  clock : w'.clock = w.clock
  opened : w'.opened = w.opened
  listeners : w'.listeners = w.listeners
  streams : w'.streams = w.streams
  dgrams : w'.dgrams = w.dgrams

theorem OnlyUses.trans {w' w'' : Process} (h : OnlyUses w w') (h' : OnlyUses w' w'') :
    OnlyUses w w'' :=
  ⟨h'.clock.trans h.clock, h'.opened.trans h.opened, h'.listeners.trans h.listeners,
    h'.streams.trans h.streams, h'.dgrams.trans h.dgrams⟩

theorem OnlyUses.fds {w' : Process} (h : OnlyUses w w') : w'.fds = w.fds := by
  rw [Process.fds, Process.fds, h.listeners, h.streams, h.dgrams]

theorem onlyUses_unlink (w : Process) (ok : Bool) (path : Option Path) :
    OnlyUses w (w.unlink ok path) := by
  unfold Process.unlink
  split
  · exact ⟨rfl, rfl, rfl, rfl, rfl⟩
  · split_ifs <;> exact ⟨rfl, rfl, rfl, rfl, rfl⟩

theorem onlyUses_unlinkStalled (w : Process) (ok : Bool) (path : Option Path) :
    OnlyUses w (w.unlinkStalled ok path) := by
  unfold Process.unlinkStalled
  split_ifs
  · exact onlyUses_unlink w ok path
  · exact ⟨rfl, rfl, rfl, rfl, rfl⟩

/-- A listener was opened, or nothing is left of it. -/
def Listens (base : Finset Path) (extra : Multiset ℕ) (pend : Finset Path) :
    Option Listening × Process → Prop
  | (none, w) => Holding base extra pend w
  | (some l, w) => Holding base (l.fd ::ₘ extra) (l.path.toFinset ∪ pend) w ∧ l.active = false

theorem bindListener_listens (h : Holding base (fd ::ₘ extra) pend w) :
    Listens base extra pend (bindListener a backlog ai fd w) := by
  have h₁ := h.use fd (by simp)
  have h₂ := h₁.use fd (by simp)
  unfold bindListener
  dsimp only
  split_ifs
  · exact h₁.close
  · exact h₂.close
  · exact ⟨h₂.touch _, rfl⟩

/-- Whatever fails while a listener is opened, no descriptor is lost. -/
theorem listenerInit_listens (h : Holding base extra pend w) :
    Listens base extra pend (listenerInit k a backlog ai w) := by
  have h₁ := h.unlinkStalled a.unlink (unixPath ai.family ai.addr)
  unfold listenerInit
  dsimp only
  split_ifs
  · exact h₁
  · exact h₁
  · exact bindListener_listens h₁.acquire

/-- Beside its descriptor and its watcher, the listener is the one that is told by whether `socket`
and `bind` succeed. -/
theorem listenerInit_toListener : (listenerInit k a backlog ai w).1.map (·.toListener) =
    Listener.listenerInit
      { unsupported := a.unsupported
        socket := if a.socket = true then some (k.fresh w.opened w.clock) else none
        ipv6Only := a.ipv6Only
        bind := decide (a.bind = true ∧ ¬∃ p ∈ unixPath ai.family ai.addr,
          p ∈ (w.unlinkStalled a.unlink (unixPath ai.family ai.addr)).paths) } backlog ai := by
  have hsame := onlyUses_unlinkStalled w a.unlink (unixPath ai.family ai.addr)
  unfold listenerInit Listener.listenerInit bindListener
  dsimp only
  rw [hsame.opened, hsame.clock]
  generalize w.unlinkStalled a.unlink (unixPath ai.family ai.addr) = w₁
  have hpaths : (Process.use (k.fresh w.opened w.clock) (Process.use (k.fresh w.opened w.clock)
      (w₁.acquire k))).paths = w₁.paths := rfl
  rw [hpaths]
  by_cases hs : a.socket = true
  · rw [if_pos hs]
    dsimp only
    by_cases hfile : ∃ p ∈ unixPath ai.family ai.addr, p ∈ w₁.paths
    · simp only [hfile]
      split_ifs <;> simp_all
    · simp only [hfile]
      split_ifs <;> simp_all
  · rw [if_neg hs]
    dsimp only
    split_ifs <;> simp_all

theorem extendByAddrinfo_holding {data : ℕ} {addresses : List (AddrInfo × Option OpenAnswers)}
    {rc : ℤ} (h : Holding base extra pend w) :
    Holding base extra pend (extendByAddrinfo k backlog data addresses rc w).2 := by
  induction addresses generalizing rc w with
  | nil => exact h
  | cons x rest ih =>
    obtain ⟨rp, _ | a⟩ := x
    · exact ih h
    · have hinit : Listens base extra pend (listenerInit k a backlog rp w) :=
        listenerInit_listens h
      rw [extendByAddrinfo]
      generalize listenerInit k a backlog rp w = r at hinit
      obtain ⟨_ | l, w₁⟩ := r
      · exact ih hinit
      · refine ih (Holding.putListener (l := { l with data }) hinit.1 ?_ ?_)
        · exact List.perm_append_singleton _ _
        · exact fun ha => absurd ha (by simp [hinit.2])

/-- A listener that was taken out of the list is finished. -/
theorem listenerFini_holding (unlink : Bool)
    (h : Holding base (l.fd ::ₘ extra) (l.path.toFinset ∪ pend) w) :
    Holding base extra pend (listenerFini unlink l w) := h.close.unlink unlink l.path

theorem cntl_holding (codes : Finset Cntl) (listen : Bool) (h : Holding base extra pend w)
    (hl : l.fd ∈ w.fds + extra) (ha : l.active = true → l.listening = true) :
    Holding base extra pend (cntl codes listen l w).2.2 ∧ OnlyUses w (cntl codes listen l w).2.2 ∧
      (cntl codes listen l w).2.1.key = l.key ∧
        ((cntl codes listen l w).2.1.active = true →
          (cntl codes listen l w).2.1.listening = true) := by
  have hstart : Holding base extra pend (cntlStart listen l w).2.2 ∧
      OnlyUses w (cntlStart listen l w).2.2 ∧ (cntlStart listen l w).2.1.key = l.key ∧
        ((cntlStart listen l w).2.1.active = true →
          (cntlStart listen l w).2.1.listening = true) := by
    unfold cntlStart
    dsimp only
    split_ifs with hlist hok
    · exact ⟨h, ⟨rfl, rfl, rfl, rfl, rfl⟩, rfl, fun _ => hlist⟩
    · exact ⟨h.use _ hl, ⟨rfl, rfl, rfl, rfl, rfl⟩, rfl, ha⟩
    · exact ⟨h.use _ hl, ⟨rfl, rfl, rfl, rfl, rfl⟩, rfl, fun _ => rfl⟩
  unfold cntl
  by_cases hs : Cntl.START ∈ codes
  · rw [if_pos hs]
    generalize cntlStart listen l w = r at hstart
    obtain ⟨ok, l₁, w₁⟩ := r
    dsimp only
    split_ifs
    · exact ⟨hstart.1, hstart.2.1, hstart.2.2.1, fun hn => by cases hn⟩
    · exact hstart
  · rw [if_neg hs]
    dsimp only
    split_ifs
    · exact ⟨h, ⟨rfl, rfl, rfl, rfl, rfl⟩, rfl, fun hn => by cases hn⟩
    · exact ⟨h, ⟨rfl, rfl, rfl, rfl, rfl⟩, rfl, ha⟩

theorem listCntl_holding (codes : Finset Cntl) {ls : List (Listening × Bool)}
    (h : Holding base extra pend w) (hl : ∀ x ∈ ls, x.1.fd ∈ w.fds + extra)
    (ha : ∀ x ∈ ls, x.1.active = true → x.1.listening = true) :
    Holding base extra pend (listCntl codes ls w).2.2 ∧ OnlyUses w (listCntl codes ls w).2.2 ∧
      (listCntl codes ls w).2.1.map Listening.key = ls.map (·.1.key) ∧
        ∀ l ∈ (listCntl codes ls w).2.1, l.active = true → l.listening = true := by
  induction ls generalizing w with
  | nil => exact ⟨h, ⟨rfl, rfl, rfl, rfl, rfl⟩, rfl, fun l hl => by cases hl⟩
  | cons x ls ih =>
    obtain ⟨l, listen⟩ := x
    obtain ⟨h₁, hw₁, hk, ha₁⟩ := cntl_holding codes listen h
      (hl _ List.mem_cons_self) (ha _ List.mem_cons_self)
    rw [listCntl]
    generalize cntl codes listen l w = r at h₁ hw₁ hk ha₁
    obtain ⟨ok, l₁, w₁⟩ := r
    obtain ⟨h₂, hw₂, hks, ha₂⟩ := ih h₁
      (fun x hx => hw₁.fds ▸ hl x (List.mem_cons_of_mem _ hx))
      (fun x hx => ha x (List.mem_cons_of_mem _ hx))
    dsimp only
    refine ⟨h₂, hw₁.trans hw₂, ?_, fun y hy => ?_⟩
    · rw [List.map_cons, List.map_cons, ← hks]
      exact congrArg (· :: _) hk
    · rcases List.mem_cons.mp hy with rfl | hy
      · exact ha₁
      · exact ha₂ y hy

theorem Holding.addStream (h : Holding base (fd ::ₘ extra) pend w) :
    Holding base extra pend { w with streams := w.streams ++ [⟨fd⟩] } := by
  refine h.moveStreams ?_
  rw [List.map_append, ← Multiset.coe_add]
  change ↑(w.streams.map (·.fd)) + {fd} + extra = _
  rw [add_assoc, Multiset.singleton_add]

/-- The delegate took the accepted descriptor, or it was closed. -/
theorem handOver_holding {a : IoAnswers} (h : Holding base (fd ::ₘ extra) pend w) :
    Holding base extra pend (handOver a l fd w) := by
  unfold handOver onAcceptCb streamAccept
  split_ifs
  · exact h.close
  · exact h.close
  · exact h.close
  · exact (h.use fd (by simp)).addStream

theorem onIo_holding {a : IoAnswers} {i : ℕ} (h : Holding base extra pend w)
    (hi : w.listeners[i]? = some l) : Holding base extra pend (onIo k a i l w) := by
  have hm : l ∈ w.listeners := List.mem_of_getElem? hi
  let l' : Listening := { l with acceptEvents := (l.acceptEvents + 1) % 2 ^ 32 }
  have hk := map_key_set hi (show l'.key = l.key from rfl)
  have h₁ := h.replaceListeners hk fun x hx => by
    rcases List.mem_or_eq_of_mem_set hx with hx | rfl
    · exact h.listening x hx
    · exact h.listening l hm
  have hfd : l.fd ∈ w.fds := Multiset.mem_add.mpr (.inl (Multiset.mem_add.mpr (.inl
    (Multiset.mem_coe.mpr (List.mem_map_of_mem hm)))))
  have h₂ := h₁.use l.fd (Multiset.mem_add.mpr (.inl (fds_listeners hk ▸ hfd)))
  unfold onIo
  dsimp only
  split_ifs
  · exact h
  · exact h₂
  · exact handOver_holding h₂.acquire

theorem streamConnect_holding {socket : Bool} {rc : Rc} (h : Holding base extra pend w) :
    Holding base extra pend (Event.exec k (.connect ai socket rc) w) := by
  have h₁ := ((h.acquire (k := k)).use (k.fresh w.opened w.clock) (by simp)).use
    (k.fresh w.opened w.clock) (by simp)
  rw [Event.exec, streamConnect]
  dsimp only
  split_ifs
  · exact h
  · exact h
  · exact h₁.close
  · exact h₁.addStream

variable {d : Datagram}

theorem dgramBind_holding (unlink : Bool) (rc : Rc) (addr : Option Path)
    (h : Holding base (d.fd ::ₘ extra) (d.path.toFinset ∪ pend) w)
    (hu : d.bind = false → d.addr = none) :
    Holding base ((dgramBind unlink rc addr d w).2.1.fd ::ₘ extra)
        ((dgramBind unlink rc addr d w).2.1.path.toFinset ∪ pend)
        (dgramBind unlink rc addr d w).2.2 ∧
      ((dgramBind unlink rc addr d w).2.1.bind = false →
        (dgramBind unlink rc addr d w).2.1.addr = none) := by
  have hm : d.fd ∈ w.fds + d.fd ::ₘ extra := by simp
  have h₁ := h.unlinkStalled unlink (addr.bind (unixPath d.family))
  have hsame := onlyUses_unlinkStalled w unlink (addr.bind (unixPath d.family))
  have h₂ := h₁.use d.fd (hsame.fds ▸ hm)
  unfold dgramBind
  dsimp only
  split_ifs with hf hr
  · exact ⟨h₂, hu⟩
  · have hb : d.bind = false := by simpa using fun hb => hf (.inr (.inl hb))
    have hnone : d.path.toFinset ∪ pend = pend := by simp [Datagram.path, hu hb]
    rw [hnone] at h₂
    exact ⟨h₂.touch _, fun hn => by cases hn⟩
  · have hb : d.bind = false := by simpa using fun hb => hf (.inr (.inl hb))
    have hnone : d.path.toFinset ∪ pend = pend := by simp [Datagram.path, hu hb]
    rw [hnone] at h₂
    exact ⟨h₂.mono Finset.subset_union_right, fun hn => by cases hn⟩

/-- Binding does not look at the other sockets. -/
theorem dgramBind_dgrams (unlink : Bool) (rc : Rc) (addr : Option Path) (d : Datagram)
    (w : Process) (ds : List Datagram) : dgramBind unlink rc addr d { w with dgrams := ds } =
      ((dgramBind unlink rc addr d w).1, (dgramBind unlink rc addr d w).2.1,
        { (dgramBind unlink rc addr d w).2.2 with dgrams := ds }) := by
  unfold dgramBind Process.unlinkStalled Process.unlink Process.touch Process.use
  dsimp only
  cases addr.bind (unixPath d.family) <;> split_ifs <;> simp_all

/-- A datagram socket that was taken out of the list is finished. -/
theorem dgramFini_holding (unlink : Bool)
    (h : Holding base (d.fd ::ₘ extra) (d.path.toFinset ∪ pend) w) :
    Holding base extra pend (dgramFini unlink d w) := h.close.unlink unlink d.path

theorem clearStreams_holding {ss : List Connection} (h : Holding base extra pend w)
    (hs : w.streams = ss) : Holding base extra pend (clearStreams ss w) ∧
      (clearStreams ss w).listeners = w.listeners ∧ (clearStreams ss w).streams = [] ∧
        (clearStreams ss w).dgrams = w.dgrams := by
  induction ss generalizing w with
  | nil => exact ⟨h, rfl, hs, rfl⟩
  | cons s ss ih =>
    have h₁ : Holding base (s.fd ::ₘ extra) pend { w with streams := ss } := by
      refine h.moveStreams ?_
      rw [hs, List.map_cons, ← Multiset.cons_coe, Multiset.add_cons, Multiset.cons_add]
    exact ih h₁.close rfl

theorem clearListeners_holding (unlink : Path → Bool) {ls : List Listening}
    (h : Holding base extra pend w) (hl : w.listeners = ls) :
    Holding base extra pend (clearListeners unlink ls w) ∧
      (clearListeners unlink ls w).listeners = [] ∧
        (clearListeners unlink ls w).streams = w.streams ∧
          (clearListeners unlink ls w).dgrams = w.dgrams := by
  induction ls generalizing w with
  | nil => exact ⟨h, hl, rfl, rfl⟩
  | cons l ls ih =>
    have h₁ := h.takeListener (List.Perm.of_eq hl.symm)
    have hsame := onlyUses_unlink (Process.close l.fd { w with listeners := ls }) (unlink l.addr)
      (unixPath l.family l.addr)
    obtain ⟨h₂, hn, hs, hd⟩ := ih (listenerFini_holding (unlink l.addr) h₁) hsame.listeners
    exact ⟨h₂, hn, hs.trans hsame.streams, hd.trans hsame.dgrams⟩

theorem clearDgrams_holding (unlink : Path → Bool) {ds : List Datagram}
    (h : Holding base extra pend w) (hd : w.dgrams = ds) :
    Holding base extra pend (clearDgrams unlink ds w) ∧
      (clearDgrams unlink ds w).listeners = w.listeners ∧
        (clearDgrams unlink ds w).streams = w.streams ∧
          (clearDgrams unlink ds w).dgrams = [] := by
  induction ds generalizing w with
  | nil => exact ⟨h, rfl, rfl, hd⟩
  | cons d ds ih =>
    have h₁ := h.takeDgram (List.Perm.of_eq hd.symm)
    have hsame := onlyUses_unlink (Process.close d.fd { w with dgrams := ds })
      (unlink (d.addr.getD [])) (d.addr.bind (unixPath d.family))
    obtain ⟨h₂, hl, hs, hn⟩ := ih (dgramFini_holding (unlink (d.addr.getD [])) h₁) hsame.dgrams
    exact ⟨h₂, hl.trans hsame.listeners, hs.trans hsame.streams, hn⟩

end Operations

section Theorems

variable {base : Finset Path} {extra : Multiset ℕ} {pend : Finset Path} {w : Process} (k : Kernel)

theorem perm_eraseIdx {α : Type} {l : List α} {i : ℕ} {x : α} (h : l[i]? = some x) :
    (x :: l.eraseIdx i).Perm l := by
  obtain ⟨hlt, rfl⟩ := List.getElem?_eq_some_iff.mp h
  exact List.getElem_cons_eraseIdx_perm hlt

theorem set_perm {α : Type} {l : List α} {i : ℕ} {x : α} (h : l[i]? = some x) (y : α) :
    (l.set i y).Perm (y :: l.eraseIdx i) := by
  obtain ⟨hlt, -⟩ := List.getElem?_eq_some_iff.mp h
  exact List.set_perm_cons_eraseIdx hlt y

/-- A datagram socket is changed in its place. -/
theorem Holding.setDgram {d : Datagram} {i : ℕ} {w' : Process} (d' : Datagram)
    (h : Holding base (d'.fd ::ₘ extra) (d'.path.toFinset ∪ pend)
      { w' with dgrams := w.dgrams.eraseIdx i }) (hi : w.dgrams[i]? = some d)
    (hu : d'.bind = false → d'.addr = none) :
    Holding base extra pend { w' with dgrams := w.dgrams.set i d' } :=
  h.putDgram (set_perm hi d') hu

/-- Every event leaves each descriptor with one socket. -/
theorem exec_holding (e : Event) (h : Holding base extra pend w) :
    Holding base extra pend (e.exec k w) := by
  cases e with
  | extend backlog data addresses => exact extendByAddrinfo_holding h
  | control codes listen =>
    have hmem : ∀ x ∈ w.listeners.zipIdx.map fun l => (l.1, listen l.2), x.1 ∈ w.listeners := by
      intro x hx
      obtain ⟨y, hy, rfl⟩ := List.mem_map.mp hx
      exact (List.mem_zipIdx' hy).2 ▸ List.getElem_mem _
    obtain ⟨h₁, hw₁, hk, ha⟩ := listCntl_holding codes h
      (fun x hx => Multiset.mem_add.mpr (.inl (Multiset.mem_add.mpr (.inl (Multiset.mem_add.mpr
        (.inl (Multiset.mem_coe.mpr (List.mem_map_of_mem (hmem x hx)))))))))
      (fun x hx => h.listening x.1 (hmem x hx))
    rw [Event.exec]
    refine h₁.replaceListeners ?_ ha
    have hkey : (fun l : Listening × ℕ => l.1.key) = Listening.key ∘ Prod.fst := rfl
    rw [hk, hw₁.listeners, List.map_map]
    change w.listeners.zipIdx.map (fun l => l.1.key) = w.listeners.map Listening.key
    rw [hkey, ← List.map_map, List.zipIdx_map_fst]
  | io a i =>
    rw [Event.exec]
    split
    · exact h
    · next l hl =>
      split_ifs
      · exact onIo_holding h hl
      · exact h
  | removeListener unlink i =>
    rw [Event.exec]
    split
    · exact h
    · next l hl => exact listenerFini_holding unlink (h.takeListener (perm_eraseIdx hl))
  | connect ai socket rc => exact streamConnect_holding h
  | removeStream i =>
    rw [Event.exec]
    split
    · exact h
    · next s hs =>
      have hp : (↑(w.streams.map (·.fd)) : Multiset ℕ) =
          s.fd ::ₘ ↑((w.streams.eraseIdx i).map (·.fd)) :=
        Multiset.coe_eq_coe.mpr ((perm_eraseIdx hs).symm.map _)
      refine Holding.close (h.moveStreams ?_)
      rw [hp, Multiset.add_cons, Multiset.cons_add]
  | dgramInit family socket =>
    rw [Event.exec, dgramInit]
    split_ifs
    · exact h
    · have h₁ := (h.acquire (k := k)).use (k.fresh w.opened w.clock) (by simp)
      exact Holding.putDgram (d := ⟨k.fresh w.opened w.clock, family, none, false, false⟩)
        (by simpa [Datagram.path] using h₁) (List.perm_append_singleton _ _) fun _ => rfl
  | dgramBind unlink rc addr i =>
    rw [Event.exec]
    split
    · exact h
    · next d hd =>
      have hu := h.unbound d (List.mem_of_getElem? hd)
      obtain ⟨h₁, hu₁⟩ := dgramBind_holding unlink rc addr
        (h.takeDgram (perm_eraseIdx hd)) hu
      rw [dgramBind_dgrams] at h₁ hu₁
      exact h₁.setDgram _ hd hu₁
  | dgramConnect rc i =>
    rw [Event.exec]
    split
    · exact h
    · next d hd =>
      have hm : d.fd ∈ w.fds + extra := Multiset.mem_add.mpr (.inl (Multiset.mem_add.mpr (.inr
        (Multiset.mem_coe.mpr (List.mem_map_of_mem (List.mem_of_getElem? hd))))))
      have hu := h.unbound d (List.mem_of_getElem? hd)
      have h₁ := (h.use _ hm).takeDgram (perm_eraseIdx hd)
      unfold dgramConnect
      dsimp only
      split_ifs
      · exact h₁.setDgram _ hd hu
      · exact h₁.setDgram { d with connect := true } hd hu
  | dgramFini unlink i =>
    rw [Event.exec]
    split
    · exact h
    · next d hd => exact dgramFini_holding unlink (h.takeDgram (perm_eraseIdx hd))

theorem run_holding (events : List Event) (h : Holding base extra pend w) :
    Holding base extra pend (run k events w) := by
  induction events generalizing w with
  | nil => exact h
  | cons e events ih => exact ih (exec_holding k e h)

theorem holding_init (base : Finset Path) : Holding base 0 ∅ (init base) where
  correct := rfl
  owned := rfl
  listening l hl := by cases hl
  unbound d hd := by cases hd
  files p hp := .inl hp

/-- In the history of the calls no descriptor was used or closed while it was not open. Those that
are open are those of the sockets, each of one socket, and only sockets that listen are watched. A
socket file is one of others, one of a socket, or could not be unlinked. -/
structure Accounted (base : Finset Path) (w : Process) : Prop where
  correct : Handles.held w.calls = some w.opened
  owned : w.opened.val = w.fds
  listening : ∀ l ∈ w.listeners, l.active = true → l.listening = true
  files : ∀ p ∈ w.paths, p ∈ base ∨ p ∈ w.refused ∨ w.Bound p

theorem Holding.accounted (h : Holding base 0 ∅ w) : Accounted base w where
  correct := h.correct
  owned := h.owned.trans (add_zero _)
  listening := h.listening
  files p hp := by simpa using h.files p hp

/-- After the clean-up there is no socket. -/
theorem cleanUp_holding (unlink : Path → Bool) (h : Holding base extra pend w) :
    Holding base extra pend (cleanUp unlink w) ∧ (cleanUp unlink w).listeners = [] ∧
      (cleanUp unlink w).streams = [] ∧ (cleanUp unlink w).dgrams = [] := by
  obtain ⟨h₁, -, hs₁, -⟩ := clearStreams_holding h rfl
  obtain ⟨h₂, hl₂, hs₂, -⟩ := clearListeners_holding unlink h₁ rfl
  obtain ⟨h₃, hl₃, hs₃, hd₃⟩ := clearDgrams_holding unlink h₂ rfl
  exact ⟨h₃, hl₃.trans hl₂, hs₃.trans (hs₂.trans hs₁), hd₃⟩

/-- In every run, whatever fails, the descriptors are accounted for. After the clean-up each one was
closed as often as it was opened, and no socket file is left that could be unlinked. -/
theorem run_accounted (base : Finset Path) (events : List Event) (unlink : Path → Bool) :
    Accounted base (run k events (init base)) ∧
      Accounted base (cleanUp unlink (run k events (init base))) ∧
      (∀ fd, (cleanUp unlink (run k events (init base))).calls.count (.acquire fd) =
        (cleanUp unlink (run k events (init base))).calls.count (.release fd)) ∧
      ∀ p ∈ (cleanUp unlink (run k events (init base))).paths,
        p ∈ base ∨ p ∈ (cleanUp unlink (run k events (init base))).refused := by
  have h := run_holding k events (holding_init base)
  obtain ⟨hc, hl, hs, hd⟩ := cleanUp_holding unlink h
  have hempty : (cleanUp unlink (run k events (init base))).opened = ∅ := by
    rw [← Finset.val_eq_zero, hc.owned, Process.fds, hl, hs, hd]
    rfl
  refine ⟨h.accounted, hc.accounted, fun fd => ?_, fun p hp => ?_⟩
  · exact Handles.balanced (hc.correct.trans (by rw [hempty])) fd
  · have hf := hc.accounted.files p hp
    rcases hf with hb | hr | ⟨x, hx, -⟩ | ⟨x, hx, -⟩
    · exact .inl hb
    · exact .inr hr
    · rw [hl] at hx
      cases hx
    · rw [hd] at hx
      cases hx

end Theorems

end Sockets

end FrameTransporter
