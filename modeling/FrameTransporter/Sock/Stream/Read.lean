import FrameTransporter.Sock.Stream.Write

/-! # Stream sockets: the read side

A read event fills the current frame vector by vector. The frame is detached
before the delegate sees it and attached again if the delegate refuses it. At the
end of the input the delegate is given an end-of-stream frame.
-/

namespace FrameTransporter

open Hoare Intrusive

namespace Stream

open ReadEvent WriteEvent SslError

variable {π : Type} (env : Env) (d : Delegate π)

/-- Call `read` of the delegate. The last flag marks the partial frame of a read shutdown. -/
def deliver (f : FrameId) (last : Bool) : StreamM π Bool := do
  let x ← getFrame f
  setOwner f .user
  record (.offer f x.type)
  let upstreamed ← d.read f
  record (.read f x.contents upstreamed last)
  return upstreamed

/-- Call `read` of the delegate, and give the frame back if it is refused. -/
def deliverOrRelease (f : FrameId) (last : Bool) : StreamM π Unit := do
  if ← deliver d f last then return ()
  else releaseFrame env d f 'R'

/-- The end-of-stream frame of `_ft_stream_read_shutdown`: the read frame if it is empty, else a
frame from the pool. -/
def endOfStreamFrame : StreamM π (Option FrameId) := do
  let s ← getSocket
  match s.readFrame with
  | none => poolBorrow env.toContext .endOfStream "stream.c" 583
  | some f =>
    let x ← getFrame f
    if x.pos = 0 then
      modifySocket fun s => { s with readFrame := none }
      setFrame f { x.formatEmpty with type := .endOfStream }
      return some f
    else poolBorrow env.toContext .endOfStream "stream.c" 583

/-- Reading is paused because the pool has no frame. -/
def pauseNoframes : StreamM π Unit := do
  modifySocket fun s => { s with readPausedNoframes := true }
  let _ ← cntlReadPause true

/-- The frame that `_ft_stream_read_shutdown` passes on although it is not full. -/
def uplinkPartial : StreamM π Unit := do
  let s ← getSocket
  match s.readFrame with
  | none => return ()
  | some f =>
    let x ← getFrame f
    when (x.pos > 0) do
      modifySocket fun s => { s with readFrame := none }
      deliverOrRelease env d f true

/-- `_ft_stream_read_shutdown`. -/
def readShutdownNow : StreamM π Unit := do
  let _ ← cntlReadStop
  -- a time is never equal to NAN, so `read_shutdown_at` is not set here
  modifySocket fun s => { s with readShutdown := true }
  uplinkPartial env d
  let eos ← endOfStreamFrame env
  record (.readEnd eos)
  match eos with
  | none => pauseNoframes
  | some f => deliverOrRelease env d f false

/-- The frame that `get_read_frame` of the delegate answers, or a simple frame from the pool. -/
def fetchReadFrame : StreamM π (Option FrameId) := do
  match d.getReadFrame with
  | some getReadFrame => getReadFrame
  | none =>
    match ← poolBorrow env.toContext .rawData "stream.c" 633 with
    | none => return none
    | some f =>
      let x ← getFrame f
      let x ← x.formatSimple
      setFrame f x
      return some f

/-- The read frame of `_ft_stream_on_read_event`, which is fetched if there is none. -/
def takeReadFrame : StreamM π (Option FrameId) := do
  let s ← getSocket
  if s.readFrame ≠ none then return s.readFrame
  else
    match ← fetchReadFrame env d with
    | none =>
      pauseNoframes
      return none
    | some f =>
      record (.obtained f)
      setOwner f .reader
      modifySocket fun s => { s with readFrame := some f }
      return some f

/-- `recv` in `_ft_stream_on_read_event`. The result is null if the function returns. -/
def recvPlain (v : Vec) (size : ℕ) : StreamM π (Option (List UInt8)) := do
  let s ← getSocket
  match ← ask (env.recv s) with
  | .failed .EAGAIN =>
    record (.recv v size [])
    modifySocket (readSetEvent {READ_WANT_READ})
    return none
  | .failed e =>
    record (.recv v size [])
    error env d (some e) 0
    readShutdownNow env d
    return none
  | .data bytes =>
    record (.recv v size (bytes.take size))
    if bytes.take size = [] then
      modifySocket fun s => { s with sysErrno := none, sslError := 0 }
      readShutdownNow env d
      return none
    else return some (bytes.take size)

/-- `SSL_read`, repeated after the label `try_ssl_read_again` if it wants to write and the stream
was ready to. -/
def sslReadAgain : StreamM π SslReadResult := do
  let s ← getSocket
  match ← ask (env.sslRead s) with
  | .data b bs => return .data b bs
  | .failed x =>
    if x.error = SSL_ERROR_WANT_WRITE ∧ s.writeReady = true then
      modifySocket awaitWrite
      let s ← getSocket
      ask (env.sslRead s)
    else return .failed x

/-- The handling of an `SSL_read` that did not read. -/
def sslReadFailed (x : SslFailure) : StreamM π Unit := do
  match x.error with
  | SSL_ERROR_WANT_READ =>
    modifySocket (readSetEvent {READ_WANT_READ})
    modifySocket (writeUnsetEvent {SSL_READ_WANT_WRITE})
  | SSL_ERROR_WANT_WRITE =>
    modifySocket (readUnsetEvent {READ_WANT_READ})
    modifySocket (writeSetEvent {SSL_READ_WANT_WRITE})
  | SSL_ERROR_ZERO_RETURN =>
    if x.rc ≠ 0 then throw (.abort .sslZeroReturn)
    else if x.receivedShutdown = false then throw (.abort .sslShutdownStatus)
    else
      modifySocket fun s => { s with sysErrno := none, sslError := 0 }
      record (.shutdown .SHUT_RD)
      readShutdownNow env d
  | SSL_ERROR_SYSCALL =>
    if (x.rc = 0 ∧ x.errno = none) ∨ (x.rc = -1 ∧ x.errno = some .ECONNRESET) then
      if x.receivedShutdown then throw (.abort .sslShutdownStatus)
      else
        modifySocket fun s => { s with sysErrno := x.errno, sslError := 0 }
        readShutdownNow env d
    else
      when (x.errno ≠ none) <| error env d x.errno 0
      readShutdownNow env d
  | SSL_ERROR_SSL =>
    sslProtocolError env d x
    readShutdownNow env d
  | _ =>
    error env d (errnoOrReset x) 0
    readShutdownNow env d

/-- `recv` or `SSL_read` in `_ft_stream_on_read_event`, with the handling of its failures. -/
def receive (v : Vec) (size : ℕ) : StreamM π (Option (List UInt8)) := do
  let s ← getSocket
  if s.ssl = false then recvPlain env d v size
  else
    match ← sslReadAgain env with
    | .data b bs =>
      record (.recv v size ((b :: bs).take size))
      return some ((b :: bs).take size)
    | .failed x =>
      record (.recv v size [])
      sslReadFailed env d x
      return none

/-- Detach the read frame, call `read` of the delegate, and attach the frame again if it is
refused. -/
def uplink (f : FrameId) : StreamM π Unit := do
  modifySocket fun s => { s with readFrame := none }
  if ← deliver d f false then return ()
  else
    setOwner f .reader
    modifySocket fun s => { s with readFrame := some f }

/-- As `uplink`, with the assertion that it makes in the partial mode. -/
def uplinkAlone (f : FrameId) : StreamM π Unit := do
  modifySocket fun s => { s with readFrame := none }
  if ← deliver d f false then return ()
  else
    let s ← getSocket
    if s.readFrame ≠ none then throw (.abort .readFrameNull)
    else
      setOwner f .reader
      modifySocket fun s => { s with readFrame := some f }

/-- The bytes were stored and the vector under the cursor advanced. The result tells whether the
loop of `_ft_stream_on_read_event` goes on. -/
def vecAdvanced (f : FrameId) (filled : Bool) : StreamM π Bool := do
  let s ← getSocket
  if filled = false then
    when s.readPartial <| uplinkAlone d f
    modifySocket (readSetEvent {READ_WANT_READ})
    return false
  else
    let x ← getFrame f
    let (more, x) ← x.nextVec
    setFrame f x
    if more = false then
      uplink d f
      let s ← getSocket
      return READ_WANT_READ ∈ s.readEvents
    else if s.readPartial then
      uplink d f
      let s ← getSocket
      return READ_WANT_READ ∈ s.readEvents
    else return true

/-- The loop body of `_ft_stream_on_read_event` on its read frame. The result tells whether the
loop goes on. -/
def readVec (f : FrameId) : StreamM π Bool := do
  let x ← getFrame f
  match ← x.getVec with
  | none => throw (.abort .frameDvec)
  | some v =>
    let size := toSize (v.limit - v.position)
    if size = 0 then throw (.abort .sizeToRead)
    else
      match ← receive env d v size with
      | none => return false
      | some bytes =>
        let x ← (x.write (v.offset + v.position) bytes).advanceVec v bytes.length
        setFrame f x
        vecAdvanced d f (decide (v.limit ≤ v.position + bytes.length))

/-- The loop of `_ft_stream_on_read_event`, with the number of rounds left. -/
def readLoop : ℕ → StreamM π Unit
  | 0 => modifySocket (readSetEvent {READ_WANT_READ})
  | n + 1 => do
    match ← takeReadFrame env d with
    | none => return ()
    | some f => if ← readVec env d f then readLoop n

/-- `_ft_stream_on_read_event`. -/
def onReadEvent : StreamM π Unit := do
  let s ← getSocket
  if ¬s.Established then throw (.abort .phase)
  else readLoop env d env.sockEstMaxReadLoops

/-- `_ft_stream_cntl_abort`. -/
def cntlAbort : StreamM π Bool := do
  readShutdownNow env d
  modifySocket (writeUnsetEvent {WRITE_WANT_WRITE})
  let now ← ask env.evNow
  modifySocket fun s => { s with writeShutdownAt := some now, writeShutdown := true }
  record (.shutdown .SHUT_WR)
  return true

end Stream

end FrameTransporter
