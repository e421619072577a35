import FrameTransporter.Sock.Dgram.Write

/-! # Datagram sockets: the read side, set-up and event handlers

A read event stores each datagram into a vector of the read frame. A frame whose
vectors all have one is detached and given to the delegate, and attached again if
the delegate refuses it. The control codes, the ways to open and close a socket
and the handlers of the event loop are here too.
-/

namespace FrameTransporter

open Hoare Intrusive

/-- `enum ft_dgram_cntl_codes`. -/
inductive Dgram.Cntl
  | READ_START
  | READ_STOP
  | READ_PAUSE
  | READ_RESUME
  | WRITE_START
  | WRITE_STOP
  | SHUTDOWN
  deriving DecidableEq, Repr

namespace Dgram

open ReadEvent WriteEvent

variable {π : Type} (env : Env) (d : Delegate π)

/-- The frame that `get_read_frame` of the delegate answers, or a simple frame from the pool. -/
def fetchReadFrame : DgramM π (Option FrameId) := do
  match d.getReadFrame with
  | some getReadFrame => getReadFrame
  | none =>
    match ← poolBorrow env.toContext .rawData "dgram.c" 462 with
    | none => return none
    | some f =>
      let x ← getFrame f
      let x ← x.formatSimple
      setFrame f x
      return some f

/-- The read frame of `_ft_dgram_on_read_event`, which is fetched if there is none. -/
def takeReadFrame : DgramM π (Option FrameId) := do
  let s ← getSocket
  if s.readFrame ≠ none then return s.readFrame
  else
    match ← fetchReadFrame env d with
    | none =>
      pauseNoframes
      return none
    | some f =>
      setOwner f .reader
      modifySocket fun s => { s with readFrame := some f }
      return some f

/-- `recvmsg` in `_ft_dgram_on_read_event`: a datagram and the length of its address, or null if
the function returns. -/
def receive (v : Vec) (size : ℕ) : DgramM π (Option (List UInt8 × ℕ)) := do
  let s ← getSocket
  match ← ask (env.recvmsg s) with
  | .failed .EAGAIN =>
    record (.recv v size [])
    modifySocket (readSetEvent {READ_WANT_READ})
    return none
  | .failed e =>
    record (.recv v size [])
    error env d e
    return none
  | .datagram bytes namelen =>
    record (.recv v size (bytes.take size))
    if bytes.take size = [] then
      modifySocket fun s => { s with sysErrno := none }
      shutdownReal env d true
      return none
    else return some (bytes.take size, namelen)

/-- Detach the read frame, call `read` of the delegate, and attach the frame again if it is
refused. -/
def uplink (f : FrameId) : DgramM π Unit := do
  modifySocket fun s => { s with readFrame := none }
  match d.read with
  | none => throw .misuse
  | some read =>
    if ← deliver read f then return ()
    else
      let s ← getSocket
      if s.readFrame ≠ none then throw (.abort .readFrameNull)
      else
        setOwner f .reader
        modifySocket fun s => { s with readFrame := some f }

/-- The loop body of `_ft_dgram_on_read_event` on its read frame. The result tells whether the
loop goes on. -/
def readVec (f : FrameId) : DgramM π Bool := do
  let x ← getFrame f
  match ← x.getVec with
  | none => throw (.abort .frameDvec)
  | some v =>
    let size := toSize (v.limit - v.position)
    if size = 0 then throw (.abort .sizeToRead)
    else
      match ← receive env d v size with
      | none => return false
      | some (bytes, addrlen) =>
        let x := { x.write (v.offset + v.position) bytes with addrlen }
        let x ← x.advanceVec v bytes.length
        let (more, x) ← x.nextVec
        setFrame f x
        if more then return true
        else
          uplink d f
          let s ← getSocket
          return READ_WANT_READ ∈ s.readEvents

/-- The loop of `_ft_dgram_on_read_event`, with the number of rounds left. -/
def readLoop : ℕ → DgramM π Unit
  | 0 => modifySocket (readSetEvent {READ_WANT_READ})
  | n + 1 => do
    match ← takeReadFrame env d with
    | none => return ()
    | some f => if ← readVec env d f then readLoop n

/-- `_ft_dgram_on_read_event`. -/
def onReadEvent : DgramM π Unit := readLoop env d env.sockEstMaxReadLoops

/-- The function that `ft_dgram_cntl` calls for one control code. -/
def cntlCode : Cntl → DgramM π Bool
  | .READ_START => cntlReadStart
  | .READ_STOP => cntlReadStop
  | .READ_PAUSE => cntlReadPause true
  | .READ_RESUME => cntlReadPause false
  | .WRITE_START => cntlWriteStart
  | .WRITE_STOP => cntlWriteStop
  | .SHUTDOWN => cntlShutdown env d

/-- The control codes in the order in which `ft_dgram_cntl` tests them. -/
def Cntl.all : List Cntl :=
  [.READ_START, .READ_STOP, .READ_PAUSE, .READ_RESUME, .WRITE_START, .WRITE_STOP, .SHUTDOWN]

def cntlCodes : List Cntl → DgramM π Bool
  | [] => return true
  | c :: cs => do
    let ok ← cntlCode env d c
    let rest ← cntlCodes cs
    return ok && rest

/-- `ft_dgram_cntl`. -/
def cntl (codes : Finset Cntl) : DgramM π Bool :=
  cntlCodes env d (Cntl.all.filter (· ∈ codes))

/-- `ft_dgram_bind`. -/
def dgramBind : DgramM π Bool := do
  let s ← getSocket
  if ← ask (env.bind s) then
    modifySocket fun s => { s with bind := true }
    cntlReadStart
  else return false

/-- `ft_dgram_connect`. -/
def dgramConnect : DgramM π Bool := do
  let s ← getSocket
  if ← ask (env.connect s) then
    modifySocket fun s => { s with connect := true }
    cntlWriteStart
  else return false

/-- `_ft_dgram_on_read` for `EV_READ`. -/
def onRead : DgramM π Unit := do
  let s ← getSocket
  if s.readPauseLevel > 0 then modifySocket fun s => { s with readWatcher := false }
  else when (READ_WANT_READ ∈ s.readEvents) <| onReadEvent env d

/-- `_ft_dgram_on_write` for `EV_WRITE`. -/
def onWrite : DgramM π Unit := do
  let s ← getSocket
  when (WRITE_WANT_WRITE ∈ s.writeEvents) <| onWriteEvent env d

/-- `_ft_dgram_on_read` and `_ft_dgram_on_write` for `EV_ERROR`. -/
def onError : DgramM π Unit := error env d .ECONNRESET

/-- The part of `ft_dgram_fini` that returns the read frame. -/
def returnReadFrame : DgramM π Unit := do
  let s ← getSocket
  match s.readFrame with
  | none => return ()
  | some f =>
    giveBack env f 'R'
    modifySocket fun s => { s with readFrame := none }

/-- `ft_dgram_fini`. -/
def fini : DgramM π Unit := do
  let _ ← cntlReadStop
  let _ ← cntlWriteStop
  d.fini
  let now ← ask env.evNow
  modifySocket fun s => { s with
    shutdownAt := if s.shutdown then s.shutdownAt else some now
    shutdown := true, writeOpen := false, writeReady := false }
  returnReadFrame env

end Dgram

end FrameTransporter
