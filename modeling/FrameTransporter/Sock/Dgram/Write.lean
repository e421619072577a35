import FrameTransporter.Sock.Dgram.Basic

/-! # Datagram sockets: the write side

Frames wait in an intrusive queue, and each vector of a frame is sent as a
datagram of its own. They are sent from a write event, or right when they are
queued if the socket takes data. A flush sends until the queue is empty.
-/

namespace FrameTransporter

open Hoare Intrusive

/-- `EAGAIN`, `ENOBUFS` or `ENOMEM`: a send that is worth another try. -/
def Errno.Retryable (e : Errno) : Prop := e = .EAGAIN ∨ e = .ENOBUFS ∨ e = .ENOMEM

instance (e : Errno) : Decidable e.Retryable := inferInstanceAs (Decidable (_ ∨ _ ∨ _))

/-- The frame without the last vector if that is the message control block. -/
def Frame.withoutControl (x : Frame) : Frame :=
  if x.msgControl = true ∧ x.vecs ≠ [] then { x with vecs := x.vecs.dropLast } else x

namespace Dgram

open ReadEvent WriteEvent

variable {π : Type} (env : Env) (d : Delegate π)

/-- Wait for the next write event. -/
def awaitWrite (s : Dgram) : Dgram :=
  writeSetEvent {WRITE_WANT_WRITE} { s with writeReady := false }

/-- `_ft_dgram_return_write_frame`, for the frame at the front of the write queue. -/
def returnWriteFrame (f : FrameId) : DgramM π Unit := do
  let x ← getFrame f
  modifySocket fun s => { s with
    writeFrames := x.next
    writeFrameLast := if x.next = none then .head else s.writeFrameLast }
  giveBack env f 'W'

/-- The branch of `_ft_dgram_write_real` for an end-of-stream frame at the front. -/
def writeEndOfStream (f : FrameId) : DgramM π Unit := do
  let x ← getFrame f
  modifySocket fun s => { s with writeFrames := x.next }
  giveBack env f 'W'
  shutdownReal env d true

/-- The handling of a `sendmsg` that failed. -/
def sendFailed (f : FrameId) (e : Errno) : DgramM π Unit := do
  modifySocket fun s => { s with writeReady := false }
  let s ← getSocket
  if e.Retryable then modifySocket (writeSetEvent {WRITE_WANT_WRITE})
  else if s.connect then error env d e
  else returnWriteFrame env f

/-- `sendmsg` of the listed bytes in `_ft_dgram_write_real`. The result is the number of bytes
taken, or null if the function returns. -/
def transmit (f : FrameId) (x : Frame) (bytes : List UInt8) : DgramM π (Option ℕ) := do
  let s ← getSocket
  match ← ask (env.sendmsg s x) with
  | .failed e =>
    record (.send [])
    sendFailed env d f e
    return none
  | .sent n =>
    record (.send (bytes.take n))
    if min n bytes.length = 0 then
      modifySocket awaitWrite
      return none
    else return some (min n bytes.length)

/-- The loop body of `_ft_dgram_write_real` for a data frame at the front. The result tells whether
the loop goes on. -/
def writeVec (f : FrameId) : DgramM π Bool := do
  let x ← getFrame f
  match ← x.getVec with
  | none => throw (.abort .frameDvec)
  | some v =>
    if toSize (v.limit - v.position) = 0 then throw (.abort .sizeToWrite)
    else
      setFrame f x.withoutControl
      let bytes := slice x.data (v.offset + v.position) (toSize (v.limit - v.position))
      match ← transmit env d f x bytes with
      | none => return false
      | some n =>
        let x ← x.withoutControl.advanceVec v n
        setFrame f x
        if v.position + n < v.limit then
          modifySocket awaitWrite
          return false
        else
          let (more, x) ← x.nextVec
          setFrame f x
          if more then return true
          else
            returnWriteFrame env f
            return true

/-- The loop of `_ft_dgram_write_real`, with the number of rounds left. -/
def writeLoop : ℕ → DgramM π Unit
  | 0 => do
    let s ← getSocket
    when (s.writeFrames ≠ none) <| modifySocket awaitWrite
  | n + 1 => do
    let s ← getSocket
    match s.writeFrames with
    | none => return ()
    | some f =>
      let x ← getFrame f
      if x.type = .endOfStream then writeEndOfStream env d f
      else
        if ← writeVec env d f then writeLoop n

/-- `_ft_dgram_write_real`. -/
def writeReal : DgramM π Unit := do
  let s ← getSocket
  if s.writeReady = false then throw (.abort .writeReady)
  else writeLoop env d (env.sockEstMaxReadLoops + 1)

/-- `_ft_dgram_on_write_event`. -/
def onWriteEvent : DgramM π Unit := do
  modifySocket fun s => { s with writeReady := true }
  let s ← getSocket
  if s.writeFrames ≠ none then
    modifySocket fun s => { s with writeEvents := s.writeEvents \ {WRITE_WANT_WRITE} }
    writeReal env d
    let s ← getSocket
    when (s.writeEvents = ∅) <| modifySocket (writeUnsetEvent {WRITE_WANT_WRITE})
  else modifySocket (writeUnsetEvent {WRITE_WANT_WRITE})

/-- The part of `ft_dgram_write` that adds the frame to the write queue. -/
def enqueueFrame (f : FrameId) : DgramM π Unit := do
  let s ← getSocket
  let x ← getFrame f
  when (x.type = .endOfStream) <| modifySocket fun s => { s with writeOpen := false }
  modify fun w => w.enqueue s.writeFrameLast f
  modifySocket fun s => { s with
    writeFrames := s.writeFrameLast.storeHead f s.writeFrames
    writeFrameLast := .next f }
  setOwner f .writer
  record (.accepted f x.type x.pendingBytes)

/-- `ft_dgram_write`. -/
def write (f : FrameId) : DgramM π Bool := do
  let s ← getSocket
  let x ← getFrame f
  if s.writeOpen = false then
    if x.type = .endOfStream then
      frameReturn env.toContext f
      return true
    else return false
  else
    enqueueFrame f
    if s.writeReady = false then
      modifySocket (writeSetEvent {WRITE_WANT_WRITE})
      return true
    else
      writeReal env d
      return true

/-- `_ft_dgram_cntl_shutdown`. -/
def cntlShutdown : DgramM π Bool := do
  let s ← getSocket
  if s.shutdown then return true
  else if s.writeOpen = false then return true
  else
    match ← poolBorrow env.toContext .endOfStream "dgram.c" 860 with
    | none => return false
    | some f => write env d f

/-- The loop of `ft_dgram_flush` for at most the given number of rounds. The result tells whether
it came to its end. -/
def flushLoop : ℕ → DgramM π Bool
  | 0 => do
    let s ← getSocket
    return s.writeFrames = none
  | n + 1 => do
    let s ← getSocket
    if s.writeFrames = none then return true
    else
      modifySocket fun s => { s with writeReady := true }
      writeReal env d
      flushLoop n

/-- `ft_dgram_flush`, with the loop cut after the given number of rounds. -/
def flush (n : ℕ) : DgramM π Bool := do
  let s ← getSocket
  if s.writeFrames = none then return true
  else
    let done ← flushLoop env d n
    when (done = true) <| modifySocket fun t => { t with writeReady := s.writeReady }
    return done

section Queued

variable {E : Fault → Prop} {w : World Dgram π} {f : FrameId}

/-- The state after a frame was added to the write queue. -/
def queued (w : World Dgram π) (f : FrameId) : World Dgram π :=
  (((w.enqueue w.socket.writeFrameLast f).setSocket { w.socket with
    writeOpen := if (w.heap f).type = .endOfStream then false else w.socket.writeOpen
    writeFrames := w.socket.writeFrameLast.storeHead f w.socket.writeFrames
    writeFrameLast := .next f }).setOwner f .writer).record
      (.accepted f (w.heap f).type (w.heap f).pendingBytes)

@[simp] theorem wp_enqueueFrame {Q : Unit → World Dgram π → Prop} :
    wp E (enqueueFrame f) Q w ↔ Q () (queued w f) := by
  rw [enqueueFrame, wp_bind, wp_getSocket, wp_bind, wp_getFrame, when, queued]
  split <;> rfl

end Queued

end Dgram

end FrameTransporter
