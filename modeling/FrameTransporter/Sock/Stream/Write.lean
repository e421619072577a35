import FrameTransporter.Sock.Stream.Basic

/-! # Stream sockets: the write side

Frames wait in an intrusive queue. They are written from a write event, or right
when they are queued if the socket takes data. An end-of-stream frame closes the
write side once it reaches the front.
-/

namespace FrameTransporter

open Hoare Intrusive

namespace Stream

open ReadEvent WriteEvent SslError

variable {π : Type} (env : Env) (d : Delegate π)

/-- `errno == 0 ? ECONNRESET : errno`. -/
def errnoOrReset (x : SslFailure) : Option Errno :=
  some (x.errno.getD .ECONNRESET)

/-- The assertion and the error report for `SSL_ERROR_SSL`. -/
def sslProtocolError (x : SslFailure) : StreamM π Unit := do
  if x.errno ≠ none then throw (.abort .sslErrno)
  else error env d none x.peek

/-- `_ft_stream_on_ssl_sent_shutdown_event`. -/
def onSslSentShutdownEvent : StreamM π Unit := do
  let s ← getSocket
  if s.sslStatus = 0 then throw (.abort .sslStatus)
  else if s.ssl = false then throw (.abort .sslNotNull)
  else
    if ← ask (env.sslSentShutdown s) then
      when (s.writeShutdown = false) do
        let now ← ask env.evNow
        modifySocket fun s => { s with writeShutdownAt := some now, writeShutdown := true }
    else
      match ← ask (env.sslShutdown s) with
      | .sent =>
        let now ← ask env.evNow
        modifySocket fun s => { s with writeShutdownAt := some now, writeShutdown := true }
        modifySocket (writeUnsetEvent {SSL_SHUTDOWN_WANT_WRITE})
        modifySocket (readSetEvent {SSL_SHUTDOWN_WANT_READ})
      | .completed =>
        modifySocket fun s => { s with sslStatus := 0 }
        modifySocket (writeUnsetEvent {SSL_SHUTDOWN_WANT_WRITE})
        modifySocket (readSetEvent {SSL_SHUTDOWN_WANT_READ})
        let now ← ask env.evNow
        modifySocket fun s => { s with writeShutdownAt := some now, writeShutdown := true }
        record (.shutdown .SHUT_RDWR)
      | .failed x =>
        match x.error with
        | SSL_ERROR_WANT_READ =>
          modifySocket (readSetEvent {SSL_SHUTDOWN_WANT_READ})
          modifySocket (writeUnsetEvent {SSL_SHUTDOWN_WANT_WRITE})
        | SSL_ERROR_WANT_WRITE =>
          modifySocket (readUnsetEvent {SSL_SHUTDOWN_WANT_READ})
          modifySocket (writeSetEvent {SSL_SHUTDOWN_WANT_WRITE})
        | SSL_ERROR_SSL => sslProtocolError env d x
        | _ => error env d (errnoOrReset x) 0

/-- The branch of `_ft_stream_write_real` for an end-of-stream frame at the front. -/
def writeEndOfStream (f : FrameId) : StreamM π Unit := do
  let x ← getFrame f
  modifySocket fun s => { s with writeFrames := x.next }
  releaseFrame env d f 'W'
  let s ← getSocket
  if s.writeOpen then throw (.abort .writeClosed)
  else
    modifySocket (writeUnsetEvent {WRITE_WANT_WRITE})
    if s.ssl then onSslSentShutdownEvent env d
    else
      let now ← ask env.evNow
      modifySocket fun s => { s with writeShutdownAt := some now, writeShutdown := true }
      record (.shutdown .SHUT_WR)

/-- Wait for the next write event. -/
def awaitWrite (s : Stream) : Stream :=
  writeSetEvent {WRITE_WANT_WRITE} { s with writeReady := false }

/-- The handling of an `SSL_write` that did not write. -/
def sslWriteFailed (x : SslFailure) : StreamM π Unit := do
  match x.error with
  | SSL_ERROR_WANT_READ =>
    modifySocket (readSetEvent {SSL_WRITE_WANT_READ})
    modifySocket (writeUnsetEvent {WRITE_WANT_WRITE})
  | SSL_ERROR_WANT_WRITE =>
    modifySocket awaitWrite
    modifySocket (readUnsetEvent {SSL_WRITE_WANT_READ})
  | SSL_ERROR_SYSCALL =>
    if x.rc = 0 ∧ x.errno = none then
      modifySocket fun s => { s with sysErrno := none, sslError := 0 }
      modifySocket (writeUnsetEvent {WRITE_WANT_WRITE})
    else error env d (errnoOrReset x) 0
  | SSL_ERROR_SSL => sslProtocolError env d x
  | _ => error env d (errnoOrReset x) 0

/-- `send` or `SSL_write` of the listed bytes in `_ft_stream_write_real`. The result is the number
of bytes taken, or null if the function returns. -/
def transmit (bytes : List UInt8) : StreamM π (Option ℕ) := do
  let s ← getSocket
  if s.ssl = false then
    match ← ask (env.send s) with
    | .failed .EAGAIN =>
      record (.send [])
      modifySocket awaitWrite
      return none
    | .failed e =>
      record (.send [])
      error env d (some e) 0
      return none
    | .sent n =>
      record (.send (bytes.take n))
      if min n bytes.length = 0 then
        modifySocket awaitWrite
        return none
      else return some (min n bytes.length)
  else
    match ← ask (env.sslWrite s) with
    | .failed x =>
      record (.send [])
      sslWriteFailed env d x
      return none
    | .sent n =>
      record (.send (bytes.take (n + 1)))
      return some (min (n + 1) bytes.length)

/-- A written frame leaves the write queue. -/
def dequeueFrame (f : FrameId) : StreamM π Unit := do
  let s ← getSocket
  let x ← getFrame f
  if s.writeQueueLength = 0 then throw (.abort .writeQueueLength)
  else
    modifySocket fun s => { s with
      writeQueueLength := s.writeQueueLength - 1
      writeFrames := x.next
      writeFrameLast := if x.next = none then .head else s.writeFrameLast }
    releaseFrame env d f 'W'

/-- The loop body of `_ft_stream_write_real` for a data frame at the front. The result tells
whether the loop goes on. -/
def writeVec (f : FrameId) : StreamM π Bool := do
  let x ← getFrame f
  match ← x.getVec with
  | none => throw (.abort .frameDvec)
  | some v =>
    if toSize (v.limit - v.position) = 0 then throw (.abort .sizeToWrite)
    else
      let bytes := slice x.data (v.offset + v.position) (toSize (v.limit - v.position))
      match ← transmit env d bytes with
      | none => return false
      | some n =>
        let x ← x.advanceVec v n
        setFrame f x
        if v.position + n < v.limit then
          modifySocket awaitWrite
          return false
        else
          let (more, x) ← x.nextVec
          setFrame f x
          if more then return true
          else
            dequeueFrame env d f
            return true

/-- The loop of `_ft_stream_write_real`, with the number of rounds left. -/
def writeLoop : ℕ → StreamM π Unit
  | 0 => do
    let s ← getSocket
    when (s.writeFrames ≠ none) <| modifySocket awaitWrite
  | n + 1 => do
    let s ← getSocket
    match s.writeFrames with
    | none => return ()
    | some f =>
      let x ← getFrame f
      if x.type = .endOfStream then writeEndOfStream env d f
      else
        if ← writeVec env d f then writeLoop n

/-- The condition asserted where data is read or written: the connection is established, and so
is the TLS session if there is one. -/
def Established (s : Stream) : Prop :=
  s.connecting = false ∧ ((s.ssl = false ∧ s.sslStatus = 0) ∨ (s.ssl = true ∧ s.sslStatus = 2))

instance (s : Stream) : Decidable s.Established := inferInstanceAs (Decidable (_ ∧ _))

/-- `_ft_stream_write_real`. -/
def writeReal : StreamM π Unit := do
  let s ← getSocket
  if s.writeReady = false then throw (.abort .writeReady)
  else if ¬s.Established then throw (.abort .phase)
  else writeLoop env d (env.sockEstMaxWriteLoops + 1)

/-- `_ft_stream_on_write_event`. -/
def onWriteEvent : StreamM π Unit := do
  let s ← getSocket
  if s.connecting then throw (.abort .notConnecting)
  else
    modifySocket fun s => { s with writeReady := true }
    if s.writeFrames ≠ none then
      modifySocket fun s => { s with writeEvents := s.writeEvents \ {WRITE_WANT_WRITE} }
      writeReal env d
      let s ← getSocket
      when (s.writeEvents = ∅) <| modifySocket (writeUnsetEvent {WRITE_WANT_WRITE})
    else modifySocket (writeUnsetEvent {WRITE_WANT_WRITE})

/-- The part of `ft_stream_write` that adds the frame to the write queue. -/
def enqueueFrame (f : FrameId) : StreamM π Unit := do
  let s ← getSocket
  let x ← getFrame f
  when (x.type = .endOfStream) <| modifySocket fun s => { s with writeOpen := false }
  modify fun w => w.enqueue s.writeFrameLast f
  modifySocket fun s => { s with
    writeFrames := s.writeFrameLast.storeHead f s.writeFrames
    writeFrameLast := .next f
    writeQueueLength := s.writeQueueLength + 1 }
  setOwner f .writer
  record (.accepted f x.type x.pendingBytes)

/-- `ft_stream_write`. -/
def write (f : FrameId) : StreamM π Bool := do
  let s ← getSocket
  if s.writeOpen = false then return false
  else
    enqueueFrame f
    if s.writeReady = false then
      when (s.connecting = false) <| modifySocket (writeSetEvent {WRITE_WANT_WRITE})
      return true
    else
      writeReal env d
      return true

/-- `_ft_stream_cntl_write_shutdown`. -/
def cntlWriteShutdown : StreamM π Bool := do
  let s ← getSocket
  if s.writeShutdown then return true
  else if s.writeOpen = false then return true
  else
    match ← poolBorrow env.toContext .endOfStream "stream.c" 1189 with
    | none => return false
    | some f =>
      record (.obtained f)
      write env d f

section Queued

variable {E : Fault → Prop} {w : World Stream π} {f : FrameId}

/-- The state after a frame was added to the write queue. -/
def queued (w : World Stream π) (f : FrameId) : World Stream π :=
  (((w.enqueue w.socket.writeFrameLast f).setSocket { w.socket with
    writeOpen := if (w.heap f).type = .endOfStream then false else w.socket.writeOpen
    writeFrames := w.socket.writeFrameLast.storeHead f w.socket.writeFrames
    writeFrameLast := .next f
    writeQueueLength := w.socket.writeQueueLength + 1 }).setOwner f .writer).record
      (.accepted f (w.heap f).type (w.heap f).pendingBytes)

@[simp] theorem wp_enqueueFrame {Q : Unit → World Stream π → Prop} :
    wp E (enqueueFrame f) Q w ↔ Q () (queued w f) := by
  rw [enqueueFrame, wp_bind, wp_getSocket, wp_bind, wp_getFrame, when, queued]
  split <;> rfl

end Queued

end Stream

end FrameTransporter
