import FrameTransporter.Sock.Stream.Read

/-! # Stream sockets: control, set-up and event handlers

The remaining entry points: control codes, the ways to open a stream, switching
on TLS, and the handlers that the event loop calls for the two watchers.
-/

namespace FrameTransporter

open Hoare Intrusive

/-- `enum ft_stream_cntl_codes`. -/
inductive Stream.Cntl
  | READ_START
  | READ_STOP
  | READ_PAUSE
  | READ_RESUME
  | WRITE_START
  | WRITE_STOP
  | WRITE_SHUTDOWN
  | ABORT
  deriving DecidableEq, Repr

namespace Stream

open ReadEvent WriteEvent SslError

variable {π : Type} (env : Env) (d : Delegate π)

/-- The function that `ft_stream_cntl` calls for one control code. -/
def cntlCode : Cntl → StreamM π Bool
  | .READ_START => cntlReadStart
  | .READ_STOP => cntlReadStop
  | .READ_PAUSE => cntlReadPause true
  | .READ_RESUME => cntlReadPause false
  | .WRITE_START => cntlWriteStart
  | .WRITE_STOP => cntlWriteStop
  | .WRITE_SHUTDOWN => cntlWriteShutdown env d
  | .ABORT => cntlAbort env d

/-- The control codes in the order in which `ft_stream_cntl` tests them. -/
def Cntl.all : List Cntl :=
  [.READ_START, .READ_STOP, .READ_PAUSE, .READ_RESUME, .WRITE_START, .WRITE_STOP,
    .WRITE_SHUTDOWN, .ABORT]

def cntlCodes : List Cntl → StreamM π Bool
  | [] => return true
  | c :: cs => do
    let ok ← cntlCode env d c
    let rest ← cntlCodes cs
    return ok && rest

/-- `ft_stream_cntl`. -/
def cntl (codes : Finset Cntl) : StreamM π Bool :=
  cntlCodes env d (Cntl.all.filter (· ∈ codes))

theorem Cntl.filter_singleton (c : Cntl) : Cntl.all.filter (· ∈ ({c} : Finset Cntl)) = [c] := by
  cases c <;> rfl

/-- The call of `ft_stream_cntl` with `FT_STREAM_READ_START | FT_STREAM_WRITE_START`. -/
def cntlStart : StreamM π Unit := do
  let _ ← cntlReadStart
  let _ ← cntlWriteStart

/-- The socket once the application may read and write. -/
def started (s : Stream) : Stream :=
  writeSetEvent {WRITE_WANT_WRITE} (readSetEvent {READ_WANT_READ} s)

@[simp] theorem wp_cntlStart {E : Fault → Prop} {Q : Unit → World Stream π → Prop}
    {w : World Stream π} : wp E cntlStart Q w ↔ Q () (w.setSocket (started w.socket)) := Iff.rfl

/-- `SSL_do_handshake` in `_ft_stream_on_ssl_handshake_event`, with the handling of its result. -/
def doHandshake : StreamM π Unit := do
  let s ← getSocket
  match ← ask (env.sslDoHandshake s) with
  | .completed verified =>
    if verified = false then error env d (some .ECONNRESET) 0
    else
      modifySocket (writeUnsetEvent {SSL_HANDSHAKE_WANT_WRITE})
      modifySocket (readUnsetEvent {SSL_HANDSHAKE_WANT_READ})
      cntlStart
      modifySocket fun s => { s with connecting := false, sslStatus := 2 }
      record .connected
      d.connected
      onWriteEvent env d
  | .failed x =>
    match x.error with
    | SSL_ERROR_WANT_READ =>
      modifySocket (readSetEvent {SSL_HANDSHAKE_WANT_READ})
      modifySocket (writeUnsetEvent {SSL_HANDSHAKE_WANT_WRITE})
    | SSL_ERROR_WANT_WRITE =>
      modifySocket (readUnsetEvent {SSL_HANDSHAKE_WANT_READ})
      modifySocket (writeSetEvent {SSL_HANDSHAKE_WANT_WRITE})
    | SSL_ERROR_SSL => sslProtocolError env d x
    | _ => error env d (errnoOrReset x) 0

/-- `_ft_stream_on_ssl_handshake_event`. -/
def onSslHandshakeEvent : StreamM π Unit := do
  let s ← getSocket
  if s.sslStatus ≠ 1 then throw (.abort .sslStatus)
  else if s.ssl = false then throw (.abort .sslNotNull)
  else
    when (s.sslHsconf = false) do
      record (.setSslState s.sslServer)
      modifySocket fun s => { s with sslHsconf := true }
    doHandshake env d

/-- The part of `_ft_stream_on_write` behind the connect event. -/
def onWriteReady : StreamM π Unit := do
  let s ← getSocket
  when (WRITE_WANT_WRITE ∈ s.writeEvents) <| onWriteEvent env d
  let s ← getSocket
  when s.ssl do
    when (SSL_HANDSHAKE_WANT_WRITE ∈ s.writeEvents) <| onSslHandshakeEvent env d
    let s ← getSocket
    when (SSL_SHUTDOWN_WANT_WRITE ∈ s.writeEvents) <| onSslSentShutdownEvent env d
    let s ← getSocket
    when (SSL_READ_WANT_WRITE ∈ s.writeEvents) <| onReadEvent env d

/-- `_ft_stream_on_connect_event`. The write handler that it invokes for TLS finds the connect
event cleared, so only the rest of that handler runs. -/
def onConnectEvent : StreamM π Unit := do
  let s ← getSocket
  if s.connecting = false then throw (.abort .connecting)
  else
    match ← ask env.soError with
    | .unknown => return ()
    | .error e => error env d (some e) 0
    | .none =>
      modifySocket (writeUnsetEvent {CONNECT_WANT_WRITE})
      if s.ssl then
        if s.sslStatus ≠ 1 then throw (.abort .sslStatus)
        else
          modifySocket (writeSetEvent {SSL_HANDSHAKE_WANT_WRITE})
          modifySocket (readSetEvent {SSL_HANDSHAKE_WANT_READ})
          onWriteReady env d
      else
        cntlStart
        modifySocket fun s => { s with connecting := false }
        record .connected
        d.connected
        onWriteEvent env d

/-- `_ft_stream_on_write` for `EV_WRITE`. -/
def onWrite : StreamM π Unit := do
  let s ← getSocket
  when (CONNECT_WANT_WRITE ∈ s.writeEvents) <| onConnectEvent env d
  onWriteReady env d

/-- `_ft_stream_on_read` for `EV_READ`. -/
def onRead : StreamM π Unit := do
  let s ← getSocket
  if s.readPauseLevel > 0 then modifySocket fun s => { s with readWatcher := false }
  else
    when (READ_WANT_READ ∈ s.readEvents) <| onReadEvent env d
    let s ← getSocket
    when s.ssl do
      when (SSL_HANDSHAKE_WANT_READ ∈ s.readEvents) <| onSslHandshakeEvent env d
      let s ← getSocket
      when (SSL_SHUTDOWN_WANT_READ ∈ s.readEvents ∧ s.writeShutdown = false) <|
        onSslSentShutdownEvent env d
      let s ← getSocket
      when (SSL_WRITE_WANT_READ ∈ s.readEvents) <| onWriteEvent env d

/-- `_ft_stream_on_read` and `_ft_stream_on_write` for `EV_ERROR`. -/
def onError : StreamM π Unit := error env d (some .ECONNRESET) 0

/-- Which of the calls in `ft_stream_enable_ssl` succeed. -/
structure SslNew where
  new : Bool
  setFd : Bool
  setExData : Bool
  deriving DecidableEq, Repr

/-- `ft_stream_enable_ssl`. -/
def enableSsl (r : SslNew) : StreamM π Bool := do
  let s ← getSocket
  if s.ssl then return false
  else
    modifySocket fun s => { s with ssl := r.new }
    if r.new = false ∨ r.setFd = false ∨ r.setExData = false then return false
    else
      modifySocket (writeSetEvent {SSL_HANDSHAKE_WANT_WRITE})
      modifySocket (readSetEvent {SSL_HANDSHAKE_WANT_READ})
      modifySocket (readUnsetEvent {READ_WANT_READ})
      modifySocket fun s => { s with sslStatus := 1 }
      return true

/-- The part of `ft_stream_fini` that returns the read frame. -/
def returnReadFrame : StreamM π Unit := do
  let s ← getSocket
  match s.readFrame with
  | none => return ()
  | some f =>
    releaseFrame env d f 'R'
    modifySocket fun s => { s with readFrame := none }

/-- The loop of `ft_stream_fini` over the write queue, for at most the given number of rounds. The
result tells whether it came to its end. -/
def returnWriteFrames : ℕ → StreamM π Bool
  | 0 => do
    let s ← getSocket
    return s.writeFrames = none
  | n + 1 => do
    let s ← getSocket
    match s.writeFrames with
    | none => return true
    | some f =>
      let x ← getFrame f
      modifySocket fun s => { s with writeFrames := x.next }
      releaseFrame env d f 'W'
      returnWriteFrames n

/-- `ft_stream_fini`, with its loop cut after the given number of rounds. The callback `fini` of the
delegate is an argument. -/
def fini (onFini : StreamM π Unit) (n : ℕ) : StreamM π Bool := do
  let _ ← cntlReadStop
  let _ ← cntlWriteStop
  let now ← ask env.evNow
  modifySocket fun s => { s with
    readShutdown := true, writeShutdown := true, writeShutdownAt := some now
    readShutdownAt := some now, writeOpen := false, writeReady := false }
  returnReadFrame env d
  let done ← returnWriteFrames env d n
  when (done = true) do
    modifySocket fun s => { s with ssl := false }
    onFini
  return done

/-- How a stream is opened: by `ft_stream_accept`, `ft_stream_init` or `ft_stream_connect`. -/
inductive Opening
  | accept
  | init
  | connect
  deriving DecidableEq, Repr

/-- The stream object that an opening leaves; it does nothing else that lasts. -/
def opened : Opening → Stream
  | .accept | .init =>
    writeSetEvent {WRITE_WANT_WRITE} (readSetEvent {READ_WANT_READ} (Stream.init false true))
  | .connect => writeSetEvent {CONNECT_WANT_WRITE} (Stream.init true false)

end Stream

end FrameTransporter
