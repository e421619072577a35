import Mathlib.Data.Finset.Basic
import Mathlib.Data.Finset.SDiff
import FrameTransporter.World

/-! # Datagram sockets: state, watchers, errors and shutdown

The object behind `struct ft_dgram`, the outcomes of the system calls it makes,
the control of its watchers, and the two ways it closes: an error and a shutdown.
Counters that only statistics read, addresses and the UNIX socket file are left
out.
-/

namespace FrameTransporter

open Hoare Intrusive

/-- `enum _ft_dgram_read_event`. -/
inductive Dgram.ReadEvent
  | READ_WANT_READ
  deriving DecidableEq, Repr

/-- `enum _ft_dgram_write_event`. -/
inductive Dgram.WriteEvent
  | WRITE_WANT_WRITE
  deriving DecidableEq, Repr

/-- `struct ft_dgram`. A time that is not a number is `none`, and so is a zero `errno`. -/
structure Dgram where
  writeOpen : Bool
  writeReady : Bool
  readPausedNoframes : Bool
  shutdown : Bool
  bind : Bool
  connect : Bool
  readPauseLevel : ℤ
  shutdownAt : Option ℚ
  sysErrno : Option Errno
  -- input
  readWatcher : Bool
  readFrame : Option FrameId
  readEvents : Finset Dgram.ReadEvent
  -- output
  writeWatcher : Bool
  writeFrames : Option FrameId
  writeFrameLast : Link FrameId
  writeEvents : Finset Dgram.WriteEvent

/-- What `recvmsg` does. It delivers one datagram, cut to the size it is asked for, and the length
of the sender's address. -/
inductive RecvmsgResult
  | datagram (bytes : List UInt8) (namelen : ℕ)
  | failed (e : Errno)

/-- What `sendmsg` does. It takes at most as many bytes as it is given. -/
inductive SendmsgResult
  | sent (n : ℕ)
  | failed (e : Errno)

/-- The context of a datagram socket, the loop limit of the configuration, and what the system
answers in a state of the socket. A message is sent from the frame that carries it, with its
address and its control vector. -/
structure Dgram.Env extends Context where
  sockEstMaxReadLoops : ℕ
  bind : Dgram → ℕ → Bool
  connect : Dgram → ℕ → Bool
  recvmsg : Dgram → ℕ → RecvmsgResult
  sendmsg : Dgram → Frame → ℕ → SendmsgResult

/-- Code of a datagram socket below a protocol `π`. -/
abbrev DgramM (π α : Type) := SocketM Dgram π α

/-- `struct ft_dgram_delegate`. A callback that may be null is an option, or does nothing. -/
structure Dgram.Delegate (π : Type) where
  getReadFrame : Option (DgramM π (Option FrameId))
  read : Option (FrameId → DgramM π Bool)
  fini : DgramM π Unit
  error : DgramM π Unit

namespace Dgram

open ReadEvent WriteEvent

/-- `_ft_dgram_read_set_event`. -/
def readSetEvent (e : Finset ReadEvent) (s : Dgram) : Dgram :=
  let s := { s with readEvents := s.readEvents ∪ e }
  if s.readEvents ≠ ∅ ∧ s.readPauseLevel = 0 ∧ s.shutdown = false then
    { s with readWatcher := true }
  else s

/-- `_ft_dgram_read_unset_event`. -/
def readUnsetEvent (e : Finset ReadEvent) (s : Dgram) : Dgram :=
  let s := { s with readEvents := s.readEvents \ e }
  if s.readEvents = ∅ ∨ s.shutdown = true ∨ s.readPauseLevel > 0 then
    { s with readWatcher := false }
  else s

/-- `_ft_dgram_write_set_event`. -/
def writeSetEvent (e : Finset WriteEvent) (s : Dgram) : Dgram :=
  let s := { s with writeEvents := s.writeEvents ∪ e }
  if s.writeEvents ≠ ∅ then { s with writeWatcher := true } else s

/-- `_ft_dgram_write_unset_event`. -/
def writeUnsetEvent (e : Finset WriteEvent) (s : Dgram) : Dgram :=
  let s := { s with writeEvents := s.writeEvents \ e }
  if s.writeEvents = ∅ then { s with writeWatcher := false } else s

/-- `ft_dgram_init`, when its system calls succeed. -/
def init : Dgram := writeSetEvent {WRITE_WANT_WRITE}
  { writeOpen := true
    writeReady := false
    readPausedNoframes := false
    shutdown := false
    bind := false
    connect := false
    readPauseLevel := 0
    shutdownAt := none
    sysErrno := none
    readWatcher := false
    readFrame := none
    readEvents := ∅
    writeWatcher := false
    writeFrames := none
    writeFrameLast := .head
    writeEvents := ∅ }

section Watchers

variable (e : Finset ReadEvent) (e' : Finset WriteEvent) (s : Dgram)

theorem readSetEvent_eq : readSetEvent e s = { s with
    readEvents := s.readEvents ∪ e
    readWatcher := if s.readEvents ∪ e ≠ ∅ ∧ s.readPauseLevel = 0 ∧ s.shutdown = false then true
      else s.readWatcher } := by
  unfold readSetEvent
  dsimp only
  split <;> rfl

theorem readUnsetEvent_eq : readUnsetEvent e s = { s with
    readEvents := s.readEvents \ e
    readWatcher := if s.readEvents \ e = ∅ ∨ s.shutdown = true ∨ s.readPauseLevel > 0 then false
      else s.readWatcher } := by
  unfold readUnsetEvent
  dsimp only
  split <;> rfl

theorem writeSetEvent_eq : writeSetEvent e' s = { s with
    writeEvents := s.writeEvents ∪ e'
    writeWatcher := if s.writeEvents ∪ e' ≠ ∅ then true else s.writeWatcher } := by
  unfold writeSetEvent
  dsimp only
  split <;> rfl

theorem writeUnsetEvent_eq : writeUnsetEvent e' s = { s with
    writeEvents := s.writeEvents \ e'
    writeWatcher := if s.writeEvents \ e' = ∅ then false else s.writeWatcher } := by
  unfold writeUnsetEvent
  dsimp only
  split <;> rfl

end Watchers

variable {π : Type}

/-- `_ft_dgram_cntl_read_start`. -/
def cntlReadStart : DgramM π Bool := do
  modifySocket (readSetEvent {READ_WANT_READ})
  return true

/-- `_ft_dgram_cntl_read_stop`. -/
def cntlReadStop : DgramM π Bool := do
  modifySocket (readUnsetEvent {READ_WANT_READ})
  return true

/-- `_ft_dgram_cntl_read_pause`. -/
def cntlReadPause (on : Bool) : DgramM π Bool := do
  let s ← getSocket
  if on then
    modifySocket fun s => { s with readPauseLevel := s.readPauseLevel + 1 }
    when (s.readPauseLevel + 1 = 1) <| modifySocket (readUnsetEvent ∅)
    return true
  else if s.readPauseLevel ≤ 0 then throw (.abort .readPauseLevel)
  else
    modifySocket fun s => { s with readPauseLevel := s.readPauseLevel - 1 }
    when (s.readPauseLevel - 1 = 0) <| modifySocket (readSetEvent ∅)
    return true

/-- `_ft_dgram_cntl_write_start`. -/
def cntlWriteStart : DgramM π Bool := do
  modifySocket (writeSetEvent {WRITE_WANT_WRITE})
  return true

/-- `_ft_dgram_cntl_write_stop`. -/
def cntlWriteStop : DgramM π Bool := do
  modifySocket (writeUnsetEvent {WRITE_WANT_WRITE})
  return true

variable (env : Env) (d : Delegate π)

/-- `ft_frame_return` of a frame that the socket holds on the given side. -/
def giveBack (f : FrameId) (side : Char) : DgramM π Unit := do
  record (.release f side)
  frameReturn env.toContext f

/-- Call `read` of the delegate. -/
def deliver (read : FrameId → DgramM π Bool) (f : FrameId) : DgramM π Bool := do
  let x ← getFrame f
  setOwner f .user
  record (.offer f x.type)
  let upstreamed ← read f
  record (.read f x.contents upstreamed false)
  return upstreamed

/-- The end-of-stream frame of `_ft_dgram_shutdown_real`: the read frame if it is empty, else a
frame from the pool. -/
def endOfStreamFrame : DgramM π (Option FrameId) := do
  let s ← getSocket
  match s.readFrame with
  | none => poolBorrow env.toContext .endOfStream "dgram.c" 334
  | some f =>
    let x ← getFrame f
    if x.pos = 0 then
      modifySocket fun s => { s with readFrame := none }
      setFrame f { x.formatEmpty with type := .endOfStream }
      return some f
    else poolBorrow env.toContext .endOfStream "dgram.c" 334

/-- Reading is paused because the pool has no frame. -/
def pauseNoframes : DgramM π Unit := do
  modifySocket fun s => { s with readPausedNoframes := true }
  let _ ← cntlReadPause true

/-- The part of `_ft_dgram_shutdown_real` that passes an end-of-stream frame on. -/
def uplinkEndOfStream : DgramM π Unit := do
  let eos ← endOfStreamFrame env
  record (.readEnd eos)
  match eos with
  | none => pauseNoframes
  | some f =>
    match d.read with
    | none => throw (.abort .delegateRead)
    | some read =>
      if ← deliver read f then return ()
      else giveBack env f 'R'

/-- `_ft_dgram_shutdown_real`. -/
def shutdownReal (uplinkEos : Bool) : DgramM π Unit := do
  let _ ← cntlReadStop
  let now ← ask env.evNow
  modifySocket fun s => { s with shutdownAt := some now, shutdown := true, writeOpen := false }
  record (.shutdown .SHUT_RDWR)
  when (uplinkEos = true) <| uplinkEndOfStream env d

/-- `_ft_dgram_error`. -/
def error (e : Errno) : DgramM π Unit := do
  modifySocket fun s => { s with sysErrno := some e }
  let s ← getSocket
  record (.error (some e) s.readFrame)
  d.error
  shutdownReal env d false

end Dgram

end FrameTransporter
