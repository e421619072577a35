import Mathlib.Data.Finset.Basic
import Mathlib.Data.Finset.SDiff
import FrameTransporter.World

/-! # Stream sockets: state, watchers and errors

The object behind `struct ft_stream`, the outcomes of the system and TLS calls it
makes, and the functions that start and stop its watchers. Counters that only
statistics read and the peer address are left out.
-/

namespace FrameTransporter

open Hoare Intrusive

inductive ReadEvent
  | READ_WANT_READ
  | SSL_HANDSHAKE_WANT_READ
  | SSL_SHUTDOWN_WANT_READ
  | SSL_WRITE_WANT_READ
  deriving DecidableEq, Repr

inductive WriteEvent
  | WRITE_WANT_WRITE
  | SSL_HANDSHAKE_WANT_WRITE
  | SSL_SHUTDOWN_WANT_WRITE
  | SSL_READ_WANT_WRITE
  | CONNECT_WANT_WRITE
  deriving DecidableEq, Repr

/-- `struct ft_stream`. A time that is not a number is `none`, and so is a zero `errno`. -/
structure Stream where
  connecting : Bool
  readPartial : Bool
  readShutdown : Bool
  readPausedNoframes : Bool
  writeShutdown : Bool
  writeOpen : Bool
  writeReady : Bool
  sslServer : Bool
  sslHsconf : Bool
  sslStatus : ℕ
  readPauseLevel : ℤ
  readShutdownAt : Option ℚ
  writeShutdownAt : Option ℚ
  sysErrno : Option Errno
  sslError : ℕ
  -- input
  readWatcher : Bool
  readFrame : Option FrameId
  readEvents : Finset ReadEvent
  -- output
  writeWatcher : Bool
  writeFrames : Option FrameId
  writeFrameLast : Link FrameId
  writeEvents : Finset WriteEvent
  -- whether there is an `SSL` object
  ssl : Bool
  writeQueueLength : ℕ

/-- What `recv` does. It delivers at most as many bytes as it is asked for, and no byte at the
end of the file. -/
inductive RecvResult
  | data (bytes : List UInt8)
  | failed (e : Errno)

/-- What `send` does. It takes at most as many bytes as it is given. -/
inductive SendResult
  | sent (n : ℕ)
  | failed (e : Errno)

/-- The results of `SSL_get_error` that the code tells apart. -/
inductive SslError
  | SSL_ERROR_WANT_READ
  | SSL_ERROR_WANT_WRITE
  | SSL_ERROR_ZERO_RETURN
  | SSL_ERROR_SYSCALL
  | SSL_ERROR_SSL
  | unexpected
  deriving DecidableEq, Repr

/-- A TLS call that did not succeed: its return value, `errno` after it, `SSL_get_error`,
`ERR_peek_error` and whether `SSL_get_shutdown` has `SSL_RECEIVED_SHUTDOWN`. -/
structure SslFailure where
  rc : ℤ
  errno : Option Errno
  error : SslError
  peek : ℕ
  receivedShutdown : Bool
  deriving DecidableEq, Repr

inductive HandshakeResult
  | completed (verified : Bool)
  | failed (x : SslFailure)

inductive SslReadResult
  | data (byte : UInt8) (bytes : List UInt8)
  | failed (x : SslFailure)

inductive SslWriteResult
  | sent (n : ℕ)
  | failed (x : SslFailure)

/-- `SSL_shutdown`: a return value of zero, of one, or a failure. -/
inductive SslShutdownResult
  | sent
  | completed
  | failed (x : SslFailure)

/-- The option `SO_ERROR` of the socket, which `getsockopt` may fail to read. -/
inductive SoError
  | unknown
  | error (e : Errno)
  | none

/-- The context of a stream, the loop limits of the configuration, and what the system and the
TLS library answer in a state of the stream. -/
structure Stream.Env extends Context where
  sockEstMaxReadLoops : ℕ
  sockEstMaxWriteLoops : ℕ
  soError : ℕ → SoError
  recv : Stream → ℕ → RecvResult
  send : Stream → ℕ → SendResult
  sslDoHandshake : Stream → ℕ → HandshakeResult
  sslRead : Stream → ℕ → SslReadResult
  sslWrite : Stream → ℕ → SslWriteResult
  sslSentShutdown : Stream → ℕ → Bool
  sslShutdown : Stream → ℕ → SslShutdownResult

/-- Code of a stream below a protocol `π`. -/
abbrev StreamM (π α : Type) := SocketM Stream π α

/-- `struct ft_stream_delegate`. A callback that may be null is an option, or does nothing. -/
structure Stream.Delegate (π : Type) where
  getReadFrame : Option (StreamM π (Option FrameId))
  read : FrameId → StreamM π Bool
  connected : StreamM π Unit
  error : StreamM π Unit
  frameReturn : Option (FrameId → Char → StreamM π Unit)

namespace Stream

/-- `ft_stream_init_`, with the flags that its callers set. -/
def init (connecting sslServer : Bool) : Stream where
  connecting := connecting
  readPartial := false
  readShutdown := false
  readPausedNoframes := false
  writeShutdown := false
  writeOpen := true
  writeReady := false
  sslServer := sslServer
  sslHsconf := false
  sslStatus := 0
  readPauseLevel := 0
  readShutdownAt := none
  writeShutdownAt := none
  sysErrno := none
  sslError := 0
  readWatcher := false
  readFrame := none
  readEvents := ∅
  writeWatcher := false
  writeFrames := none
  writeFrameLast := .head
  writeEvents := ∅
  ssl := false
  writeQueueLength := 0

/-- `_ft_stream_read_set_event`. -/
def readSetEvent (e : Finset ReadEvent) (s : Stream) : Stream :=
  let s := { s with readEvents := s.readEvents ∪ e }
  if s.readEvents ≠ ∅ ∧ s.readPauseLevel = 0 ∧ s.readShutdown = false then
    { s with readWatcher := true }
  else s

/-- `_ft_stream_read_unset_event`. -/
def readUnsetEvent (e : Finset ReadEvent) (s : Stream) : Stream :=
  let s := { s with readEvents := s.readEvents \ e }
  if s.readEvents = ∅ ∨ s.readShutdown = true ∨ s.readPauseLevel ≥ 0 then
    { s with readWatcher := false }
  else s

/-- `_ft_stream_write_set_event`. -/
def writeSetEvent (e : Finset WriteEvent) (s : Stream) : Stream :=
  let s := { s with writeEvents := s.writeEvents ∪ e }
  if s.writeEvents ≠ ∅ then { s with writeWatcher := true } else s

/-- `_ft_stream_write_unset_event`. -/
def writeUnsetEvent (e : Finset WriteEvent) (s : Stream) : Stream :=
  let s := { s with writeEvents := s.writeEvents \ e }
  if s.writeEvents = ∅ then { s with writeWatcher := false } else s

section Watchers

variable (e : Finset ReadEvent) (e' : Finset WriteEvent) (s : Stream)

theorem readSetEvent_eq : readSetEvent e s = { s with
    readEvents := s.readEvents ∪ e
    readWatcher := if s.readEvents ∪ e ≠ ∅ ∧ s.readPauseLevel = 0 ∧ s.readShutdown = false then true
      else s.readWatcher } := by
  unfold readSetEvent
  dsimp only
  split <;> rfl

theorem readUnsetEvent_eq : readUnsetEvent e s = { s with
    readEvents := s.readEvents \ e
    readWatcher := if s.readEvents \ e = ∅ ∨ s.readShutdown = true ∨ s.readPauseLevel ≥ 0 then false
      else s.readWatcher } := by
  unfold readUnsetEvent
  dsimp only
  split <;> rfl

theorem writeSetEvent_eq : writeSetEvent e' s = { s with
    writeEvents := s.writeEvents ∪ e'
    writeWatcher := if s.writeEvents ∪ e' ≠ ∅ then true else s.writeWatcher } := by
  unfold writeSetEvent
  dsimp only
  split <;> rfl

theorem writeUnsetEvent_eq : writeUnsetEvent e' s = { s with
    writeEvents := s.writeEvents \ e'
    writeWatcher := if s.writeEvents \ e' = ∅ then false else s.writeWatcher } := by
  unfold writeUnsetEvent
  dsimp only
  split <;> rfl

end Watchers

open ReadEvent WriteEvent

variable {π : Type}

/-- `_ft_stream_cntl_read_start`. -/
def cntlReadStart : StreamM π Bool := do
  modifySocket (readSetEvent {READ_WANT_READ})
  return true

/-- `_ft_stream_cntl_read_stop`. -/
def cntlReadStop : StreamM π Bool := do
  modifySocket (readUnsetEvent {READ_WANT_READ})
  return true

/-- `_ft_stream_cntl_read_pause`. -/
def cntlReadPause (on : Bool) : StreamM π Bool := do
  let s ← getSocket
  if on then
    modifySocket fun s => { s with readPauseLevel := s.readPauseLevel + 1 }
    when (s.readPauseLevel + 1 = 1) <| modifySocket (readUnsetEvent ∅)
    return true
  else if s.readPauseLevel ≤ 0 then throw (.abort .readPauseLevel)
  else
    modifySocket fun s => { s with readPauseLevel := s.readPauseLevel - 1 }
    when (s.readPauseLevel - 1 = 0) <| modifySocket (readSetEvent ∅)
    return true

/-- `_ft_stream_cntl_write_start`. -/
def cntlWriteStart : StreamM π Bool := do
  modifySocket (writeSetEvent {WRITE_WANT_WRITE})
  return true

/-- `_ft_stream_cntl_write_stop`. -/
def cntlWriteStop : StreamM π Bool := do
  modifySocket (writeUnsetEvent {WRITE_WANT_WRITE})
  return true

variable (env : Env) (d : Delegate π)

/-- `_ft_stream_error`. -/
def error (sysErrno : Option Errno) (sslError : ℕ) : StreamM π Unit := do
  if ¬((sysErrno = none ∧ sslError ≠ 0) ∨ (sysErrno ≠ none ∧ sslError = 0)) then
    throw (.abort .errorExclusive)
  else
    let now ← ask env.evNow
    modifySocket fun s => { s with
      sysErrno, sslError, writeOpen := false, readShutdown := true, writeShutdown := true
      writeShutdownAt := some now, readShutdownAt := some now }
    let s ← getSocket
    record (.error sysErrno s.readFrame)
    d.error
    modifySocket fun s => { s with writeWatcher := false }
    modifySocket fun s => { s with readWatcher := false }
    record (.shutdown .SHUT_RDWR)

/-- Give a frame back: `frame_return` of the delegate if set, else `ft_frame_return`. -/
def releaseFrame (f : FrameId) (side : Char) : StreamM π Unit := do
  setOwner f .user
  record (.release f side)
  match d.frameReturn with
  | some frameReturn => frameReturn f side
  | none => frameReturn env.toContext f

end Stream

end FrameTransporter
