import FrameTransporter.LoadStore
import FrameTransporter.Sock.Stream.Events

/-! # The SOCKS protocol: state and stream delegate

The server side of SOCKS4, SOCKS4A and SOCKS5 on a stream. A request is read field
by field into the vectors of one frame: whenever the frame is full, the delegate
appends a vector, enlarges the last one, or acts on the request. The calls that it
makes are noted beside its state.
-/

namespace FrameTransporter

open Hoare Intrusive

/-- `struct ft_proto_socks`. -/
structure Socks where
  VN : UInt8
  CD : UInt8
  DSTPORT : ℕ
  DSTIP : ℕ
  authorized : Bool
  SELMETHOD : UInt8
  ATYP : UInt8
  deriving DecidableEq, Repr

namespace Socks

/-- `ft_proto_socks_init`, which does not set `ATYP`. -/
def init (ATYP : UInt8) : Socks := ⟨0, 0, 0, 0, false, 0xFF, ATYP⟩

/-- A call that the delegate makes. -/
inductive Act
  | connect (addrtype : Char) (host : List UInt8) (port : ℕ) (ok : Bool)
  | write (f : FrameId) (bytes : List UInt8) (accepted : Bool)
  | frameReturn (f : FrameId)
  | cntl (codes : Finset Stream.Cntl)
  deriving DecidableEq

/-- A call of `read`: the frame and the state of the protocol and the write side before it, what
was done, the result, and the vectors and the cursor of the frame after it. -/
structure Call where
  id : FrameId
  frame : Frame
  socks : Socks
  writeOpen : Bool
  acts : List Act
  taken : Bool
  vecs : List Vec
  vecPosition : ℕ

/-- The protocol, what its delegate did since the current call of `read` began, and the calls of
`read` that are over. -/
structure Session where
  socks : Socks
  acts : List Act
  calls : List Call

/-- The connect delegate, which answers when the clock shows the last argument. -/
abbrev Connect := Char → List UInt8 → ℕ → ℕ → Bool

/-- Code of the protocol on its stream. -/
abbrev SocksM (α : Type) := StreamM Session α

def getSocks : SocksM Socks := do
  let w ← get
  return w.proto.socks

def setSession (p : Session) : SocksM Unit := modify fun w => { w with proto := p }

def setSocks (this : Socks) : SocksM Unit :=
  modify fun w => { w with proto := { w.proto with socks := this } }

def note (x : Act) : SocksM Unit :=
  modify fun w => { w with proto := { w.proto with acts := w.proto.acts ++ [x] } }

/-- `ft_frame_get_vec_at`, where the code relies on the vector. -/
def vecAt (frame : Frame) (i : ℕ) : Except Fault Vec :=
  match frame.vecs[i]? with
  | some v => .ok v
  | none => .error (.abort .vecNotNull)

/-- Enlarge a vector by `n`. -/
def grow (n : ℕ) (v : Vec) : Vec :=
  { v with capacity := u16 (v.capacity + n), limit := u16 (v.capacity + n) }

/-- The address that marks a request of SOCKS4A. -/
def Socks4A (this : Socks) : Prop := 0 < this.DSTIP ∧ this.DSTIP ≤ 255

instance (this : Socks) : Decidable this.Socks4A := inferInstanceAs (Decidable (_ ∧ _))

/-- How the delegate goes on: it wants more bytes, it has a request or a list of methods, or it
gives up. -/
inductive Outcome
  | more
  | request
  | select
  | fail
  deriving DecidableEq, Repr

/-- `ft_proto_socks_4_on_read`. With `request` it calls `ft_proto_socks_on_request` and returns
true, and with `fail` it clears `ok`. -/
def socks4OnRead (this : Socks) (frame : Frame) : Except Fault (Socks × Frame × Outcome) :=
  match frame.vecLimit with
  | 2 =>
    if this.VN = 4 then do
      let v ← vecAt frame 1
      let this := { this with
        CD := frame.data v.offset
        DSTPORT := loadU16 frame.data (v.offset + 1)
        DSTIP := loadU32 frame.data (v.offset + 3) }
      let (_, frame) ← frame.appendVec 1
      return (this, frame, .more)
    else return (this, frame, .fail)
  | 3 =>
    if this.VN = 4 then do
      let v ← vecAt frame 2
      if frame.data (v.offset + v.position - 1) = 0 then
        if this.Socks4A then
          let (_, frame) ← frame.appendVec 1
          return (this, frame, .more)
        else return (this, frame, .request)
      else return (this, frame.prevVec.modifyVec 2 (grow 1), .more)
    else return (this, frame, .fail)
  | 4 =>
    if this.VN = 4 ∧ this.Socks4A then do
      let v ← vecAt frame 3
      if frame.data (v.offset + v.position - 1) = 0 then return (this, frame, .request)
      else return (this, frame.prevVec.modifyVec 3 (grow 1), .more)
    else return (this, frame, .fail)
  | _ => return (this, frame, .fail)

/-- `ft_proto_socks_5_on_read`. With `fail` it gives up by itself. -/
def socks5OnRead (this : Socks) (frame : Frame) : Except Fault (Socks × Frame × Outcome) :=
  if this.authorized = false then
    if this.SELMETHOD = 0xFF then
      match frame.vecLimit with
      | 2 => do
        let v ← vecAt frame 1
        let b := frame.data v.offset
        if b = 0 then return (this, frame, .fail)
        else
          let (_, frame) ← frame.appendVec b.toNat
          return (this, frame, .more)
      | 3 => return (this, frame, .select)
      | _ => return (this, frame, .fail)
    else return (this, frame, .fail)
  else
    match frame.vecLimit with
    | 1 => do
      let (_, frame) ← frame.appendVec 3
      return (this, frame, .more)
    | 2 => do
      let v ← vecAt frame 1
      let this := { this with CD := frame.data v.offset, ATYP := frame.data (v.offset + 2) }
      if this.ATYP = 1 then
        let (_, frame) ← frame.appendVec 4
        return (this, frame, .more)
      else if this.ATYP = 3 then
        let (_, frame) ← frame.appendVec 1
        return (this, frame, .more)
      else if this.ATYP = 4 then
        let (_, frame) ← frame.appendVec 16
        return (this, frame, .more)
      else return (this, frame, .fail)
    | 3 => do
      let v ← vecAt frame 2
      if this.ATYP = 3 ∧ v.capacity = 1 then
        let len := frame.data (v.offset + v.position - 1)
        return (this, frame.prevVec.modifyVec 2 (grow len.toNat), .more)
      else
        let (_, frame) ← frame.appendVec 2
        return (this, frame, .more)
    | 4 => do
      let v ← vecAt frame 3
      return ({ this with DSTPORT := loadU16 frame.data v.offset }, frame, .request)
    | _ => return (this, frame, .fail)

/-- The part of `ft_proto_socks_stream_delegate_read` for a data frame that decides how it goes
on. -/
def onRead (this : Socks) (frame : Frame) : Except Fault (Socks × Frame × Outcome) :=
  if this.VN = 0 ∧ frame.vecLimit = 1 then do
    let v ← vecAt frame 0
    let this := { this with VN := frame.data v.offset }
    if this.VN = 4 then
      let (_, frame) ← frame.appendVec 7
      return (this, frame, .more)
    else if this.VN = 5 then
      let (_, frame) ← frame.appendVec 1
      return (this, frame, .more)
    else return (this, frame, .fail)
  else if this.VN = 4 then socks4OnRead this frame
  else if this.VN = 5 then socks5OnRead this frame
  else return (this, frame, .fail)

/-- The address type, the host and the port that `ft_proto_socks_on_request` finds in a request,
null if it finds none. The host is written to a static buffer of 256 bytes. -/
def target (this : Socks) (frame : Frame) :
    Except Fault (Socks × Option (Char × List UInt8 × ℕ)) :=
  if this.VN = 4 ∧ this.Socks4A then do
    let v ← vecAt frame 3
    return (this, some ('D', cString (slice frame.data v.offset 255), this.DSTPORT))
  else if this.VN = 4 then
    return (this, some ('4', snprintf 256 (dottedQuad this.DSTIP), this.DSTPORT))
  else if this.VN = 5 then
    if this.ATYP = 1 then do
      let v ← vecAt frame 2
      let this := { this with DSTIP := loadU32 frame.data v.offset }
      return (this, some ('4', snprintf 256 (dottedQuad this.DSTIP), this.DSTPORT))
    else if this.ATYP = 3 then do
      let v ← vecAt frame 2
      let name := cString (slice frame.data (v.offset + 1) (frame.data v.offset).toNat)
      return (this, some ('D', snprintf 255 name, this.DSTPORT))
    else if this.ATYP = 4 then do
      let v ← vecAt frame 2
      return (this, some ('6', snprintf 255 (hexGroups (slice frame.data v.offset 16)),
        this.DSTPORT))
    else return (this, none)
  else return (this, none)

variable (env : Stream.Env) (connect : Connect)

/-- `ft_proto_socks_stream_delegate_get_read_frame`. -/
def getReadFrame : SocksM (Option FrameId) := do
  match ← poolBorrow env.toContext .rawData "socks.c" 47 with
  | none => return none
  | some f =>
    let x ← getFrame f
    let (_, x) ← x.formatEmpty.appendVec 1
    setFrame f x
    return some f

/-- The callbacks that writing and giving frames back lead to; they do not read. The error callback
of the application does nothing to the stream. -/
def writeDelegate : Stream.Delegate Session where
  getReadFrame := some (getReadFrame env)
  read _ := return true
  connected := return ()
  error := return ()
  frameReturn := none

/-- `ft_frame_return`, by the delegate. -/
def giveBack (f : FrameId) : SocksM Unit := do
  FrameTransporter.frameReturn env.toContext f
  note (.frameReturn f)

/-- `ft_stream_write`, by the delegate. -/
def write (f : FrameId) : SocksM Bool := do
  let x ← getFrame f
  let ok ← Stream.write env (writeDelegate env) f
  note (.write f x.pendingBytes ok)
  return ok

/-- `ft_stream_cntl`, by the delegate. -/
def cntl (codes : Finset Stream.Cntl) : SocksM Unit := do
  let _ ← Stream.cntl env (writeDelegate env) codes
  note (.cntl codes)

/-- The frame is formatted anew, filled with a reply and written. -/
def respond (f : FrameId) (bytes : List UInt8) : SocksM Bool := do
  let x ← getFrame f
  let x ← x.formatSimple
  match ← x.getVec with
  | none => throw (.abort .vecNotNull)
  | some v =>
    let x := (x.write (v.offset + v.position) bytes).modifyVec 0 fun v =>
      { v with limit := bytes.length, position := bytes.length }
    setFrame f x.flip
    write env f

/-- The error response of `ft_proto_socks_on_request`. -/
def errorResponse : List UInt8 := [0, 91] ++ storeU16 0 ++ storeU32 0

def sendErrorResponse (f : FrameId) : SocksM Unit := do
  let _ ← respond env f errorResponse
  cntl env {.WRITE_SHUTDOWN}

/-- `ft_proto_socks_on_request`. -/
def onRequest (f : FrameId) : SocksM Unit := do
  let this ← getSocks
  if this.CD ≠ 1 then sendErrorResponse env f
  else
    let x ← getFrame f
    let (this, r) ← target this x
    setSocks this
    match r with
    | none => sendErrorResponse env f
    | some (addrtype, host, port) =>
      if host = [] then sendErrorResponse env f
      else
        let ok ← ask (connect addrtype host port)
        note (.connect addrtype host port ok)
        if ok then giveBack env f else sendErrorResponse env f

/-- `sock_relay_on_socks5_method_selection_request`. -/
def onMethodSelectionRequest (f : FrameId) : SocksM Unit := do
  let this ← getSocks
  let x ← getFrame f
  let v ← vecAt x 2
  if this.SELMETHOD ≠ 0xFF then throw (.abort .selMethod)
  else
    let this := if 0 ∈ x.receivedBytes v then { this with SELMETHOD := 0 } else this
    setSocks this
    let _ ← respond env f [5, this.SELMETHOD]
    when (this.SELMETHOD = 0xFF) <| cntl env {.WRITE_SHUTDOWN}
    when (this.SELMETHOD = 0) <| setSocks { this with authorized := true }

/-- `ft_proto_socks_stream_delegate_read`. -/
def read (f : FrameId) : SocksM Bool := do
  let x ← getFrame f
  if x.type = .endOfStream then
    let s ← getSocket
    if s.writeOpen = false then giveBack env f
    else
      let _ ← write env f
    return true
  else
    let this ← getSocks
    let (this, x, outcome) ← onRead this x
    setSocks this
    setFrame f x
    match outcome with
    | .more => return false
    | .request =>
      onRequest env connect f
      return true
    | .select =>
      onMethodSelectionRequest env f
      return true
    | .fail =>
      giveBack env f
      cntl env {.WRITE_SHUTDOWN, .READ_STOP}
      return true

/-- What `ft_proto_socks_stream_send_final_response` tells the client, for a version it knows. -/
def finalResponse (this : Socks) (reply : ℤ) : Option (List UInt8) :=
  if this.VN = 4 then some ([0, if reply = 0 then 90 else 91] ++ storeU16 0 ++ storeU32 0)
  else if this.VN = 5 then some ([5, UInt8.ofInt reply, 0, 1] ++ storeU32 0 ++ storeU16 0)
  else none

/-- `ft_proto_socks_stream_send_final_response`. -/
def sendFinalResponse (reply : ℤ) : SocksM Bool := do
  let this ← getSocks
  match ← poolBorrow env.toContext .rawData "socks.c" 387 with
  | none => return false
  | some f =>
    match finalResponse this reply with
    | some bytes => respond env f bytes
    | none =>
      let x ← getFrame f
      setFrame f (← x.formatSimple)
      FrameTransporter.frameReturn env.toContext f
      return false

/-- A call of `read` is noted with what was done in it. -/
def noted (read : FrameId → SocksM Bool) (f : FrameId) : SocksM Bool := do
  let w ← get
  setSession { w.proto with acts := [] }
  let taken ← read f
  let w' ← get
  setSession { w'.proto with calls := w'.proto.calls ++
    [⟨f, w.heap f, w.proto.socks, w.socket.writeOpen, w'.proto.acts, taken, (w'.heap f).vecs,
      (w'.heap f).vecPosition⟩] }
  return taken

/-- `ft_stream_proto_socks_delegate`. -/
def delegate : Stream.Delegate Session where
  __ := writeDelegate env
  read := noted (read env connect)

end Socks

end FrameTransporter
