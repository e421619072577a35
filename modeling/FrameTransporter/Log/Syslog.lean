import FrameTransporter.Log.Record
import FrameTransporter.Mempool.Append
import FrameTransporter.Mempool.Tiling
import FrameTransporter.Sock.Dgram.Sending

/-! # The syslog backend

Records are printed into the vectors of a pending frame. A full frame is handed to a
datagram socket, which sends each vector as a message, and a record that cannot be
placed is printed to the emergency stream. The loop that places a record ends when
the record fits an empty frame. While it runs, the pool and the socket log messages,
which are printed to the emergency stream. Most of them are built in the one static
record of `_ft_log_v`, which may hold the record that is to be placed.
-/

namespace FrameTransporter

open Hoare Intrusive

/-- `struct tm`, as far as it is printed. The month counts from 0 and the year from 1900. -/
structure Tm where
  year : ℕ
  mon : ℕ
  mday : ℕ
  hour : ℕ
  min : ℕ
  sec : ℕ

/-- The variables of the backend beside its socket, and the static record of `_ft_log_v`. The
records that the backend printed are listed, to vectors and to the emergency stream, and those that
were printed to this stream while it was at work. -/
structure Syslog where
  frame : Option FrameId
  sdbufSize : ℕ
  le : LogRecord
  placed : List LogRecord
  emergency : List (LogRecord × ℤ)
  reentered : List (LogRecord × ℤ)

/-- Where a record is kept: in the static variable of `_ft_log_v`, or with the caller. -/
inductive RecordPtr
  | static
  | caller (le : LogRecord)

/-- The record that is found there. -/
def RecordPtr.get (le : RecordPtr) (s : Syslog) : LogRecord :=
  match le with
  | .static => s.le
  | .caller le => le

/-- A message that is logged by the functions that the backend calls, through `_ft_log_v` or with
a record of its own. `vsnprintf` prints its text without an error. -/
structure LogMessage where
  shared : Bool
  now : ℚ
  level : UInt8
  sd : Option (List LogSd)
  text : List UInt8
  length_le : (text.length : ℤ) ≤ Log.INT_MAX

/-- What `FT_WARN` logs. -/
def LogMessage.warn (now : ℚ) (text : List UInt8) (h : (text.length : ℤ) ≤ Log.INT_MAX) :
    LogMessage :=
  ⟨true, now, 87, none, text, h⟩

/-- Why the pool gives no frame, by the number of its warning. -/
inductive OutOfMemory
  | lastZone
  | emptyZone
  | noZone

/-- The warning of `ft_pool_borrow_real_`. -/
def OutOfMemory.warning (now : ℚ) : OutOfMemory → LogMessage
  | .lastZone => .warn now (Log.ascii "Frame pool ran out of memory (1)") (by decide)
  | .emptyZone => .warn now (Log.ascii "Frame pool ran out of memory (2)") (by decide)
  | .noZone => .warn now (Log.ascii "Frame pool ran out of memory (3)") (by decide)

/-- What `%p` prints. -/
abbrev PointerText := { text : List UInt8 // text.length ≤ 18 }

/-- The warning of `ft_dgram_write` about a log frame. -/
def notOpen (now : ℚ) (frame : PointerText) : LogMessage :=
  .warn now (Log.ascii "Datagram socket is not open for writing (f:" ++ frame.1 ++
    Log.ascii " ft: fffffffc)") (by
      have hlong : (Log.ascii "Datagram socket is not open for writing (f:").length = 43 := by
        decide
      have hshort : (Log.ascii " ft: fffffffc)").length = 14 := by decide
      have hframe := frame.2
      simp only [List.length_append, hlong, hshort, Log.INT_MAX]
      omega)

/-- The configuration of the backend, what the C library answers, and what the pool and the socket
log beside their warnings: before and behind the answer of the pool, and while the socket writes. -/
structure Syslog.Env extends Dgram.Env where
  facility : ℕ
  format : Char
  hostname : List UInt8
  domainname : List UInt8
  localtime : ℤ → Tm
  gmtime : ℤ → Tm
  realloc : ℕ → Bool
  now : ℕ → ℚ
  pid : ℕ
  appname : List UInt8
  outOfMemory : ℕ → OutOfMemory
  pointer : FrameId → PointerText
  borrowing : ℕ → List LogMessage
  borrowed : ℕ → List LogMessage
  writing : ℕ → List LogMessage

/-- The record of a message, and its length. -/
def LogMessage.build (m : LogMessage) (env : Syslog.Env) (le : LogRecord) : LogRecord × ℤ :=
  Log.logrecordBuild ⟨m.now, env.pid, env.appname⟩
    (if m.shared then le.message else fun _ => 0) m.level m.sd (some m.text)

/-- `ft_logrecord_process` for a message that is logged while a record is processed. -/
def LogMessage.reenter (m : LogMessage) (env : Syslog.Env) (s : Syslog) : Syslog :=
  let le := m.build env s.le
  { s with le := if m.shared then le.1 else s.le, reentered := s.reentered ++ [le] }

/-- The bytes of the message up to its terminating zero. -/
def LogRecord.text (le : LogRecord) : List UInt8 :=
  cString ((List.range Log.SIZEOF_MESSAGE).map fun i => le.message i)

/-- `ft_log_months`. -/
def Log.months : List String :=
  ["Jan", "Feb", "Mar", "Apr", "May", "Jun", "Jul", "Aug", "Sep", "Oct", "Nov", "Dec"]

namespace Syslog

open Log

/-- A number with the given width, filled up on the left. -/
def padded (fill : Char) (width n : ℕ) : List UInt8 :=
  List.replicate (width - (decimal n).length) (UInt8.ofNat fill.toNat) ++ decimal n

/-- `"%02d:%02d:%02d"` of a time. -/
def clockText (tm : Tm) : List UInt8 :=
  padded '0' 2 tm.hour ++ ascii ":" ++ padded '0' 2 tm.min ++ ascii ":" ++ padded '0' 2 tm.sec

/-- `"%04d-%02d-%02dT%02d:%02d:%02d.%03uZ"` of a time. -/
def isoText (tm : Tm) (frac100 : ℕ) : List UInt8 :=
  padded '0' 4 (1900 + tm.year) ++ ascii "-" ++ padded '0' 2 (1 + tm.mon) ++ ascii "-" ++
    padded '0' 2 tm.mday ++ ascii "T" ++ clockText tm ++ ascii "." ++ padded '0' 3 frac100 ++
    ascii "Z"

/-- The syslog severity and the name of a level. -/
def severity (level : UInt8) : ℕ × String :=
  match Char.ofNat level.toNat with
  | 'F' => (2, "FATAL")
  | 'E' => (3, "ERROR")
  | 'W' => (4, "WARN")
  | 'A' => (5, "AUDIT")
  | 'I' => (6, "INFO")
  | 'D' => (7, "DEBUG")
  | 'T' => (7, "TRACE")
  | _ => (7, "?")

/-- The separator of the structured data in a format. -/
def separator (format : Char) : UInt8 := if format = 'm' then 59 else 32

/-- The text of a record, with its structured data as text. -/
def recordText (env : Env) (le : LogRecord) (sd : List UInt8) : List UInt8 :=
  let (n, level) := severity le.level
  let pri := ascii "<" ++ decimal ((env.facility <<< 3) ||| n) ++ ascii ">"
  let pid := ascii "[" ++ decimal le.pid ++ ascii "]"
  let t := le.timestamp.num.tdiv le.timestamp.den
  let frac100 := (le.timestamp * 1000).floor.toNat % 1000
  match env.format with
  | 'm' =>
    let tm := env.localtime t
    pri ++ ascii (months.getD tm.mon "") ++ ascii " " ++ padded ' ' 2 tm.mday ++ ascii " " ++
      clockText tm ++ ascii " " ++ le.appname ++ pid ++ ascii ": " ++ ascii level ++ ascii ":" ++
      le.text ++ sd ++ ascii "\n"
  | '3' =>
    let tm := env.localtime t
    pri ++ ascii (months.getD tm.mon "") ++ ascii " " ++ decimal tm.mday ++ ascii " " ++
      clockText tm ++ ascii " " ++ env.hostname ++ ascii " " ++ le.appname ++ pid ++
      ascii ": [t=\"" ++ isoText tm frac100 ++ ascii "\"" ++ sd ++ ascii "] " ++ ascii level ++
      ascii ": " ++ le.text ++ ascii "\n"
  | _ =>
    let tm := env.gmtime t
    pri ++ ascii "1 " ++ isoText tm frac100 ++ ascii " " ++ env.domainname ++ ascii " " ++
      le.appname ++ ascii " " ++ decimal le.pid ++ ascii " - [l@47278 l=\"" ++ ascii level ++
      ascii "\"" ++ sd ++ ascii "] " ++ le.text ++ ascii "\n"

/-- The bytes that are counted for a pair of structured data. -/
def sdLength (sd : LogSd) : ℕ := (cString sd.name).length + 4 + (cString sd.value).length

/-- What `sprintf` prints for a pair. -/
def sdItem (separator : UInt8) (sd : LogSd) : List UInt8 :=
  cString sd.name ++ ascii "=\"" ++ cString sd.value ++ ascii "\"" ++ [separator]

/-- The structured data in the buffer, where a zero replaces the last separator. -/
def sdText (separator : UInt8) (sds : List LogSd) : List UInt8 :=
  (separator :: sds.flatMap (sdItem separator)).dropLast

/-- The size of the vector for a record. It is null if an `int` overflows, or if the texts are
longer than a memory can be. -/
def vecLimit (le : LogRecord) (length : ℤ) : Option ℕ :=
  match addInt length 128 with
  | none => none
  | some n =>
    let size := toSize n + ((le.sd.getD []).map sdLength).sum
    if size < 2 ^ 63 then some size else none

/-- `ft_log_syslog_on_dgram_error` only prints a number. -/
def delegate : Dgram.Delegate Syslog where
  getReadFrame := none
  read := none
  fini := pure ()
  error := pure ()

def getSyslog : DgramM Syslog Syslog := do
  let w ← get
  return w.proto

def setSyslog (p : Syslog) : DgramM Syslog Unit := modify fun w => { w with proto := p }

def setPending (f : Option FrameId) : DgramM Syslog Unit := do
  setSyslog { ← getSyslog with frame := f }

/-- `ft_logrecord_emergency_fprint`. -/
def emergencyFprint (le : LogRecord) (length : ℤ) : DgramM Syslog Unit := do
  let s ← getSyslog
  setSyslog { s with emergency := s.emergency ++ [(le, length)] }

/-- What is logged when the pool answered. -/
def Env.answered (env : Env) (f : Option FrameId) (c : ℕ) : List LogMessage :=
  (if f = none then [(env.outOfMemory c).warning (env.now c)] else []) ++ env.borrowed c

variable (env : Env)

/-- A message that is logged while the backend is at work. -/
def reenter (m : LogMessage) : DgramM Syslog Unit := do
  setSyslog (m.reenter env (← getSyslog))

/-- `ft_log_syslog_backend_expand_sd`. The assertion of its loop cannot fail, as the buffer has
room for all that was counted. -/
def expandSd (separator : UInt8) (le : LogRecord) : DgramM Syslog (List UInt8) :=
  match le.sd with
  | none => return []
  | some sds => do
    let len := 2 + (sds.map sdLength).sum
    let s ← getSyslog
    if s.sdbufSize < len then
      if ← ask env.realloc then
        modify fun w => { w with proto := { w.proto with sdbufSize := len } }
        return sdText separator sds
      else return ascii " NOMEM=1"
    else return sdText separator sds

section Logging

variable (log : LogMessage → DgramM Syslog Unit)

/-- Log what is due now. -/
def logAll (messages : ℕ → List LogMessage) : DgramM Syslog Unit := do
  let w ← get
  forM (messages w.clock) log

/-- `ft_log_syslog_frame_alloc`, with the messages that it logs. -/
def frameAlloc : DgramM Syslog Bool := do
  let s ← getSyslog
  if s.frame ≠ none then throw (.abort .syslogFrameNull)
  else
    logAll log env.borrowing
    let f ← poolBorrow env.toContext .log "log_syslog.c" 313
    logAll log (env.answered f)
    setPending f
    match f with
    | none => return false
    | some f =>
      let x ← getFrame f
      setFrame f x.formatEmpty
      return true

/-- The part of `ft_log_syslog_send` that hands the frame over. -/
def handOver (f : FrameId) (x : Frame) : DgramM Syslog Unit := do
  setFrame f x.flip
  let w ← get
  let ok ← Dgram.write env.toEnv delegate f
  forM (env.writing w.clock) log
  when (ok = false) do
    log (notOpen (env.now w.clock) (env.pointer f))
    frameReturn env.toContext f

/-- `ft_log_syslog_send`. Without a frame, it relies on the frame that it reuses. -/
def send (allocNewFrame : Bool) : DgramM Syslog Unit := do
  let s ← getSyslog
  setPending none
  match s.frame with
  | none => when (allocNewFrame = true) <| throw .misuse
  | some f =>
    let x ← getFrame f
    if x.pos = 0 then
      when (allocNewFrame = true) do
        setPending (some f)
        setFrame f x.formatEmpty
    else
      when (allocNewFrame = true) do let _ ← frameAlloc env log
      handOver env log f x

end Logging

/-- The part of `ft_log_syslog_backend_logrecord_process` behind the append, for the new vector. -/
def storeRecord (f : FrameId) (i : ℕ) (le : LogRecord) (length : ℤ) : DgramM Syslog Unit := do
  let sd ← expandSd env (separator env.format) le
  let text := recordText env le sd
  let x ← getFrame f
  match x.vecs[i]? with
  | none => throw (.abort .vecNotNull)
  | some v =>
    let (ok, x) := x.vsprintf i v (if printed text < 0 then none else some text)
    if ok = false then
      setFrame f x.removeLastVec.2
      emergencyFprint le length
    else
      let x := x.modifyVec i Vec.trim
      setFrame f x
      let s ← getSyslog
      setSyslog { s with placed := s.placed ++ [le] }
      match x.vecs[i]? with
      | none => throw (.abort .vecNotNull)
      | some v =>
        if v.limit = 0 then throw (.abort .vecLimitPositive)
        else if v.capacity = 0 then throw (.abort .vecCapacityPositive)
        else return ()

/-- The frame to print to, which is allocated if there is none. -/
def pendingFrame : DgramM Syslog (Option FrameId) := do
  let s ← getSyslog
  match s.frame with
  | some f => return some f
  | none => do
    let _ ← frameAlloc env (reenter env)
    let s ← getSyslog
    return s.frame

/-- The part of `ft_log_syslog_backend_logrecord_process` behind its label, which is reached at most
the given number of times. The result tells whether it returned. -/
def processLoop (le : RecordPtr) (length : ℤ) : ℕ → DgramM Syslog Bool
  | 0 => return false
  | n + 1 => do
    match ← pendingFrame env with
    | none =>
      emergencyFprint (le.get (← getSyslog)) length
      return true
    | some f =>
      let s ← getSyslog
      match vecLimit (le.get s) length with
      | none => throw .misuse
      | some size =>
        let x ← getFrame f
        match ← x.appendVec size with
        | (none, _) =>
          send env (reenter env) true
          processLoop le length n
        | (some i, x) =>
          setFrame f x
          storeRecord env f i (le.get s) length
          return true

/-- `ft_log_syslog_backend_logrecord_process`, with at most the given number of rounds. -/
def process (rounds : ℕ) (le : RecordPtr) (length : ℤ) : DgramM Syslog Bool :=
  if length < 0 then throw (.abort .messageLength)
  else processLoop env le length rounds

/-- A message that is logged while no record is processed. If it is not settled in two rounds, it
never is. -/
def enter (m : LogMessage) : DgramM Syslog Unit := do
  let s ← getSyslog
  let (le, length) := m.build env s.le
  when (m.shared = true) <| setSyslog { s with le := le }
  let done ← process env 2 (if m.shared then .static else .caller le) length
  when (done = false) <| throw .misuse

/-- `ft_log_syslog_backend_on_prepare`, which relies on the frame. -/
def onPrepare : DgramM Syslog Unit := do
  let s ← getSyslog
  when (s.frame = none) do let _ ← frameAlloc env (enter env)
  let s ← getSyslog
  match s.frame with
  | none => throw .misuse
  | some f =>
    let x ← getFrame f
    if x.vecLimit = 0 then return ()
    else send env (enter env) true

/-- The part of `ft_log_syslog_backend_flush` that returns what is left of the pending frame. -/
def returnPending : DgramM Syslog Unit := do
  let s ← getSyslog
  match s.frame with
  | none => return ()
  | some f =>
    let x ← getFrame f
    when (x.vecLimit > 0) do
      let w ← get
      enter env (.warn (env.now w.clock) (ascii "Lost a data in a syslog log frame") (by decide))
    let s ← getSyslog
    setPending none
    match s.frame with
    | none => throw .misuse
    | some f => frameReturn env.toContext f

/-- `ft_log_syslog_backend_flush`, with the flush of the socket cut after the given number of
rounds. -/
def flush (rounds : ℕ) : DgramM Syslog Bool := do
  let s ← getSyslog
  match s.frame with
  | none => pure ()
  | some f => do
    let x ← getFrame f
    when (x.vecLimit > 0) <| send env (enter env) false
    returnPending env
  Dgram.flush env.toEnv delegate rounds

end Syslog

namespace Frame

/-- A pending frame: a log frame that records were appended to, with each vector trimmed. -/
structure Filled (x : Frame) : Prop where
  type : x.type = .log
  cursor : x.vecPosition = 0
  msgControl : x.msgControl = false
  capacity : x.capacity = FRAME_SIZE
  tiled : x.Tiled
  trimmed : ∀ v ∈ x.vecs, v.position = v.capacity

section Filled

variable {x : Frame} {n : ℕ} {text : List UInt8}

theorem filled_empty (ht : x.type = .log) (hp : x.vecPosition = 0) (hm : x.msgControl = false)
    (hc : x.capacity = FRAME_SIZE) (hv : x.vecs = []) : x.Filled :=
  ⟨ht, hp, hm, hc, tiled_nil hv, by simp [hv]⟩

/-- A pending frame without bytes has no vectors. -/
theorem Filled.pos_eq_zero (h : x.Filled) : x.pos = 0 ↔ x.vecs = [] := by
  constructor
  · intro hz
    by_contra hne
    obtain ⟨v, hv⟩ := List.exists_mem_of_ne_nil _ hne
    have h1 : v.position ≤ (x.vecs.map Vec.position).sum :=
      List.single_le_sum (fun _ _ => Nat.zero_le _) _ (List.mem_map_of_mem hv)
    have h2 := h.tiled.nonempty v hv
    rw [← h.trimmed v hv] at h2
    change (x.vecs.map Vec.position).sum = 0 at hz
    omega
  · intro hv
    rw [pos, hv]
    rfl

/-- The frame with one more vector. -/
def withVec (x : Frame) (n : ℕ) : Frame := { x with vecs := x.vecs ++ [⟨x.span, 0, n, n⟩] }

/-- The room for one more vector. -/
theorem Filled.appendVec_eq (h : x.Filled) (hn : n < 2 ^ 63) :
    x.appendVec n =
      if FRAME_SIZE < x.span + n + SIZEOF_VEC * (x.vecLimit + 1) then .ok (none, x)
      else .ok (some x.vecLimit, x.withVec n) := by
  have hc := h.capacity
  have happ := h.tiled.appendVec_eq (by rw [hc]; decide) (by rw [hc]; decide) hn
  rw [happ, hc]
  unfold withVec
  rw [hc]

/-- A flipped pending frame can be sent, and it sends what was printed. -/
theorem Filled.flip (h : x.Filled) (hv : x.vecs ≠ []) :
    x.flip.Sendable ∧ x.flip.pendingBytes = x.contents := by
  refine ⟨⟨by simp [Frame.flip, h.type], h.msgControl, by simpa [Frame.flip] using hv, ?_⟩, ?_⟩
  · intro u hu
    obtain ⟨v, hv, rfl⟩ := List.mem_map.mp (List.mem_of_mem_drop hu)
    have h1 := h.tiled.nonempty v hv
    have h2 := h.trimmed v hv
    exact ⟨by simp only [Vec.flip]; omega, h2.le⟩
  · rw [pendingBytes, contents, Frame.flip, List.drop_zero, List.flatMap_map]
    rfl

/-- What `vsnprintf` leaves of a text in the room of `n` bytes: if the text fills all of it but one
byte, a zero replaces its last byte. -/
def kept (n : ℕ) (text : List UInt8) : List UInt8 :=
  if text.length + 1 = n then text.dropLast ++ [0] else text

/-- The bytes from the end of the vectors on are none of theirs. -/
theorem Filled.write (h : x.Filled) (bs : List UInt8) :
    (x.write x.span bs).Filled ∧ (x.write x.span bs).contents = x.contents := by
  refine ⟨⟨h.type, h.cursor, h.msgControl, h.capacity, ⟨h.tiled.tiles, h.tiled.below,
    h.tiled.nonempty, h.tiled.ordered⟩, h.trimmed⟩, List.flatMap_congr fun v hv => ?_⟩
  have hend := (h.tiled.tiles.mem_bounds hv).2
  have hp := h.trimmed v hv
  exact slice_splice_of_disjoint (Or.inl (by omega))

theorem write_nil (x : Frame) (off : ℕ) : x.write off [] = x := by
  have hsplice : splice x.data off [] = x.data := by
    funext k
    simp [splice]
  rw [Frame.write, hsplice]

/-- What `vsnprintf` prints to the new vector. -/
theorem printed_withVec (text : List UInt8) (size : ℕ) :
    (x.withVec n).printed ⟨x.span, 0, n, n⟩ text size = (x.write x.span
      (if size = 0 then [] else text.take (size - 1) ++ [0])).withVec n := by
  unfold printed
  split_ifs
  · rw [write_nil]
  · rfl

theorem getElem?_withVec : (x.withVec n).vecs[x.vecLimit]? = some ⟨x.span, 0, n, n⟩ := by
  simp [withVec, vecLimit]

/-- A text that is too long is removed with its vector. -/
theorem Filled.print_refused (h : x.Filled) (hn : 0 < n) (ht : n - 1 < text.length) :
    ∃ y, (x.withVec n).vsprintf x.vecLimit ⟨x.span, 0, n, n⟩ (some text) = (false, y) ∧
      y.removeLastVec.2.Filled ∧ y.removeLastVec.2.contents = x.contents ∧
      (Pool.Live x → Pool.Live y.removeLastVec.2) := by
  have hroom : toSize (n - (0 : ℕ) - 1 : ℤ) = n - 1 := toSize_room (v := ⟨x.span, 0, n, n⟩) hn
  refine ⟨_, vsprintf_refused (v := ⟨x.span, 0, n, n⟩) hroom ht, ?_⟩
  rw [printed_withVec]
  have hremove (bs : List UInt8) :
      ((x.write x.span bs).withVec n).removeLastVec.2 = x.write x.span bs := by
    simp [removeLastVec, withVec, vecLimit]
  rw [hremove]
  exact ⟨(h.write _).1, (h.write _).2, id⟩

theorem slice_kept {mem : ℕ → UInt8} {off : ℕ} (h0 : text ≠ []) (ht : text.length ≤ n - 1) :
    slice (splice mem off (text.take (n - 1 - 1) ++ [0])) off text.length = kept n text := by
  have hpos : 0 < text.length := List.length_pos_iff.mpr h0
  unfold kept
  split_ifs with hlast
  · have htake : text.take (n - 1 - 1) = text.dropLast := by
      rw [List.dropLast_eq_take]
      congr 1
      omega
    have hlen : text.length = (text.dropLast ++ [(0 : UInt8)]).length := by
      simp only [List.length_append, List.length_dropLast, List.length_singleton]
      omega
    rw [htake, hlen]
    exact slice_splice_self
  · rw [List.take_of_length_le (by omega)]
    have hle : text.length ≤ (text ++ [(0 : UInt8)]).length := by simp
    rw [← slice_take hle, slice_splice_self, List.take_left]

/-- A text with room is the last vector of the pending frame. -/
theorem Filled.print_taken (h : x.Filled) (hn : n < 2 ^ 16) (h0 : text ≠ [])
    (ht : text.length ≤ n - 1)
    (hfits : ¬FRAME_SIZE < x.span + n + SIZEOF_VEC * (x.vecLimit + 1)) :
    ∃ y, (x.withVec n).vsprintf x.vecLimit ⟨x.span, 0, n, n⟩ (some text) = (true, y) ∧
      ∃ z v, y.modifyVec x.vecLimit Vec.trim = z ∧ z.vecs = x.vecs ++ [v] ∧
        v.limit = text.length ∧ v.capacity = text.length ∧ z.Filled ∧
        z.receivedBytes v = kept n text ∧ z.contents = x.contents ++ kept n text ∧
        (Pool.Live x → Pool.Live z) := by
  have hpos : 0 < text.length := List.length_pos_iff.mpr h0
  have hroom : toSize (n - (0 : ℕ) - 1 : ℤ) = n - 1 :=
    toSize_room (v := ⟨x.span, 0, n, n⟩) (by change 0 < n; omega)
  refine ⟨_, vsprintf_taken (v := ⟨x.span, 0, n, n⟩) hroom ht, ?_⟩
  rw [printed_withVec, if_neg (by omega)]
  obtain ⟨hx, hcontents⟩ := h.write (text.take (n - 1 - 1) ++ [0])
  have hpush : ((x.write x.span (text.take (n - 1 - 1) ++ [0])).withVec n).Tiled := by
    have hc := hx.capacity
    exact hx.tiled.push (by omega) (by rw [hc]; exact hfits)
  have hlen : u16 (0 + text.length) = text.length :=
    (u16_of_le (by omega) hn).trans (Nat.zero_add _)
  let v : Vec := ⟨x.span, text.length, text.length, text.length⟩
  have hvecs : ((((x.write x.span (text.take (n - 1 - 1) ++ [0])).withVec n).modifyVec x.vecLimit
      fun v => { v with position := u16 (v.position + text.length) }).modifyVec x.vecLimit
        Vec.trim).vecs = x.vecs ++ [v] := by
    simp only [modifyVec, withVec, Frame.write, vecLimit, modify_concat, hlen]
    rfl
  refine ⟨_, v, rfl, hvecs, rfl, rfl, ?_, slice_kept h0 ht, ?_, id⟩
  · refine ⟨hx.type, hx.cursor, hx.msgControl, hx.capacity, ?_, fun u hu => ?_⟩
    · exact hpush.last rfl hvecs rfl rfl (by change text.length ≤ n; omega) hpos ⟨le_rfl, le_rfl⟩
    · rw [hvecs, List.mem_append, List.mem_singleton] at hu
      rcases hu with hu | rfl
      · exact h.trimmed u hu
      · rfl
  · rw [contents, hvecs, List.flatMap_append, List.flatMap_singleton, ← hcontents]
    exact congrArg _ (slice_kept h0 ht)

end Filled

end Frame

namespace Syslog

section States

variable {env : Env} {E : Fault → Prop} {w : World Dgram Syslog} {f g : FrameId}
  {q : List FrameId} {p s : Syslog} {log : LogMessage → DgramM Syslog Unit}

/-- The state with other variables of the backend. -/
@[simps] def withSyslog (w : World Dgram Syslog) (p : Syslog) : World Dgram Syslog :=
  { w with proto := p }

@[simp] theorem wp_getSyslog {Q : Syslog → World Dgram Syslog → Prop} :
    wp E getSyslog Q w ↔ Q w.proto w := Iff.rfl

@[simp] theorem wp_setSyslog {Q : Unit → World Dgram Syslog → Prop} :
    wp E (setSyslog p) Q w ↔ Q () (withSyslog w p) := Iff.rfl

@[simp] theorem wp_setPending {r : Option FrameId} {Q : Unit → World Dgram Syslog → Prop} :
    wp E (setPending r) Q w ↔ Q () (withSyslog w { w.proto with frame := r }) := Iff.rfl

@[simp] theorem wp_emergencyFprint {le : LogRecord} {length : ℤ}
    {Q : Unit → World Dgram Syslog → Prop} : wp E (emergencyFprint le length) Q w ↔
      Q () (withSyslog w { w.proto with emergency := w.proto.emergency ++ [(le, length)] }) :=
  Iff.rfl

section Messages

variable {ms : List LogMessage} {m : LogMessage}

/-- The variables after the messages were logged while the backend was at work. -/
def alerted (env : Env) (s : Syslog) (ms : List LogMessage) : Syslog :=
  ms.foldl (fun s m => m.reenter env s) s

/-- What messages leave alone. -/
theorem alerted_same (env : Env) (s : Syslog) (ms : List LogMessage) :
    (alerted env s ms).frame = s.frame ∧ (alerted env s ms).placed = s.placed ∧
      (alerted env s ms).emergency = s.emergency := by
  induction ms generalizing s with
  | nil => exact ⟨rfl, rfl, rfl⟩
  | cons m ms ih => exact ih (m.reenter env s)

@[simp] theorem alerted_frame : (alerted env s ms).frame = s.frame := (alerted_same ..).1

@[simp] theorem alerted_placed : (alerted env s ms).placed = s.placed := (alerted_same ..).2.1

@[simp] theorem alerted_emergency : (alerted env s ms).emergency = s.emergency :=
  (alerted_same ..).2.2

/-- Messages with records of their own leave the static record alone. -/
theorem alerted_le (h : ∀ m ∈ ms, m.shared = false) : (alerted env s ms).le = s.le := by
  induction ms generalizing s with
  | nil => rfl
  | cons m ms ih =>
    obtain ⟨hm, hms⟩ := List.forall_mem_cons.mp h
    refine (ih hms).trans ?_
    simp [LogMessage.reenter, hm]

theorem alerted_append {ms' : List LogMessage} :
    alerted env s (ms ++ ms') = alerted env (alerted env s ms) ms' := List.foldl_append

theorem alerted_setFrame {r : Option FrameId} :
    alerted env { s with frame := r } ms = { alerted env s ms with frame := r } := by
  induction ms generalizing s with
  | nil => rfl
  | cons m ms ih => exact ih (s := m.reenter env s)

theorem wp_reenter {Q : Unit → World Dgram Syslog → Prop} : wp E (reenter env m) Q w ↔
    Q () (withSyslog w (alerted env w.proto [m])) := Iff.rfl

/-- Messages that are logged while the backend is at work are printed. -/
theorem wp_forM_log {Q : Unit → World Dgram Syslog → Prop}
    (hlog : ∀ m ∈ ms, log m = reenter env m) :
    wp E (forM ms log) Q w ↔ Q () (withSyslog w (alerted env w.proto ms)) := by
  induction ms generalizing w with
  | nil => rfl
  | cons m ms ih =>
    obtain ⟨hm, hms⟩ := List.forall_mem_cons.mp hlog
    rw [List.forM_cons, wp_bind, hm]
    exact ih hms

end Messages

section Allocation

/-- The frame that the pool gives if it is asked now. -/
def offer (ctx : Context) (w : World Dgram Syslog) : Option FrameId :=
  (ctx.framePool w.clock).filter fun f => w.owner f = .pool

theorem owner_of_offer (h : offer env.toContext w = some f) : w.owner f = .pool := by
  obtain ⟨-, hf⟩ := Option.filter_eq_some_iff.mp h
  simpa using hf

/-- What is logged when the pool is asked now. -/
def borrowMessages (env : Env) (w : World Dgram Syslog) : List LogMessage :=
  env.borrowing w.clock ++ env.answered (offer env.toContext w) (w.clock + 1)

/-- The variables after that, if the backend is at work. -/
def asked (env : Env) (w : World Dgram Syslog) : Syslog :=
  alerted env w.proto (borrowMessages env w)

@[simp] theorem asked_frame : (asked env w).frame = w.proto.frame := by simp [asked]

@[simp] theorem asked_placed : (asked env w).placed = w.proto.placed := by simp [asked]

@[simp] theorem asked_emergency : (asked env w).emergency = w.proto.emergency := by simp [asked]

/-- The state after the pool gave a frame. -/
def lent (w : World Dgram Syslog) (f : FrameId) : World Dgram Syslog :=
  (w.tick.setFrame f (Pool.resetFrame (w.heap f) .log "log_syslog.c" 313)).setOwner f .user

theorem wp_offer {Q : Option FrameId → World Dgram Syslog → Prop} :
    wp E (poolBorrow env.toContext .log "log_syslog.c" 313) Q w ↔ match offer env.toContext w with
      | none => Q none w.tick
      | some f => Q (some f) (lent w f) := by
  rw [poolBorrow, wp_bind, wp_ask, wp_bind, wp_get, offer]
  cases hf : env.framePool w.clock with
  | none => rfl
  | some f =>
    dsimp only
    by_cases ho : w.owner f = .pool
    · have hfilter : (some f).filter (fun f => decide (w.owner f = .pool)) = some f := by simp [ho]
      rw [if_pos (by exact ho), wp_bind, wp_set, wp_pure, hfilter]
      rfl
    · have hfilter : (some f).filter (fun f => decide (w.owner f = .pool)) = none := by simp [ho]
      rw [if_neg (by exact ho), wp_pure, hfilter]

/-- The state after a frame was allocated. -/
def allocated (w : World Dgram Syslog) (f : FrameId) (p : Syslog) : World Dgram Syslog :=
  withSyslog (lent w f) { p with frame := some f }

/-- An allocation, with messages that are logged as they are while the backend is at work. -/
theorem wp_frameAlloc {Q : Bool → World Dgram Syslog → Prop} (hn : w.proto.frame = none)
    (hlog : ∀ m ∈ borrowMessages env w, log m = reenter env m) :
    wp E (frameAlloc env log) Q w ↔ match offer env.toContext w with
      | none => Q false (withSyslog w.tick (asked env w))
      | some f => Q true (allocated w f (asked env w)) := by
  obtain ⟨hbefore, hbehind⟩ := List.forall_mem_append.mp hlog
  let w₀ := withSyslog w (alerted env w.proto (env.borrowing w.clock))
  have hoffer : offer env.toContext w₀ = offer env.toContext w := rfl
  rw [frameAlloc, wp_bind, wp_getSyslog, if_neg (by simp [hn]), logAll, wp_bind, wp_bind, wp_get,
    wp_forM_log hbefore, wp_bind]
  change wp E _ _ w₀ ↔ _
  rw [wp_offer, hoffer]
  cases hf : offer env.toContext w with
  | none =>
    have hp : { asked env w with frame := none } = asked env w := by
      have hframe : (asked env w).frame = none := asked_frame.trans hn
      rw [← hframe]
    rw [hf] at hbehind
    have hasked : asked env w = alerted env w₀.proto (env.answered none (w.clock + 1)) := by
      rw [asked, borrowMessages, hf, alerted_append]
      rfl
    dsimp only
    rw [logAll, wp_bind, wp_bind, wp_get]
    refine (wp_forM_log hbehind).trans ?_
    rw [wp_bind, wp_setPending]
    change Q false (withSyslog w.tick { alerted env w₀.proto
      (env.answered none (w.clock + 1)) with frame := none }) ↔ _
    rw [← hasked, hp]
  | some f =>
    rw [hf] at hbehind
    have hasked : asked env w = alerted env w₀.proto (env.answered (some f) (w.clock + 1)) := by
      rw [asked, borrowMessages, hf, alerted_append]
      rfl
    dsimp only
    rw [logAll, wp_bind, wp_bind, wp_get]
    refine (wp_forM_log hbehind).trans ?_
    rw [wp_bind, wp_setPending]
    dsimp only
    rw [wp_bind, wp_getFrame, wp_bind, wp_setFrame, wp_pure]
    have hempty : (Pool.resetFrame (w.heap f) .log "log_syslog.c" 313).formatEmpty =
      Pool.resetFrame (w.heap f) .log "log_syslog.c" 313 := rfl
    have hw : World.setFrame (allocated w f (asked env w)) f
        ((allocated w f (asked env w)).heap f).formatEmpty = allocated w f (asked env w) := by
      simp [allocated, lent, withSyslog, World.setFrame, World.setOwner, hempty]
    rw [← hw, hasked]
    rfl

end Allocation
/-- The state of the backend between two calls. -/
structure Backend (w : World Dgram Syslog) : Prop where
  sends : Dgram.SendInv w
  capacity : ∀ f, (w.heap f).capacity = FRAME_SIZE
  pending : ∀ f, w.proto.frame = some f → w.owner f = .user ∧ (w.heap f).Filled

/-- The pending frame, if there is one, is empty. -/
def Blank (w : World Dgram Syslog) : Prop := ∀ f, w.proto.frame = some f → (w.heap f).vecs = []

/-- The bytes in the pending frame. -/
def pendingText (w : World Dgram Syslog) : List UInt8 :=
  match w.proto.frame with
  | none => []
  | some f => (w.heap f).contents

/-- The bytes that the socket accepted, and those that the pending frame holds. -/
def handed (w : World Dgram Syslog) : List UInt8 :=
  Stream.acceptedBytes dataOnly w.trace ++ pendingText w

theorem pendingText_blank (hf : Blank w) : pendingText w = [] := by
  unfold pendingText
  cases h : w.proto.frame with
  | none => rfl
  | some f => simp [Frame.contents, hf f h]

theorem filled_resetFrame {x : Frame} {line : ℕ} {file : String} (hc : x.capacity = FRAME_SIZE) :
    (Pool.resetFrame x .log file line).Filled :=
  Frame.filled_empty rfl rfl rfl hc rfl

theorem sending_withSyslog (h : Dgram.Sending w q) : Dgram.Sending (withSyslog w p) q where
  chain := h.chain
  last := h.last
  writer := h.writer
  reader := h.reader
  closed := h.closed
  live := h.live
  count := h.count
  connect := h.connect
  sendable := h.sendable
  bytes := h.bytes

/-- The backend does not mind other variables, as long as its frame stays. -/
theorem Backend.withSyslog (h : Backend w) (hp : ∀ f, p.frame = some f → w.proto.frame = some f) :
    Backend (withSyslog w p) :=
  ⟨h.sends.imp fun _ hq => sending_withSyslog hq, h.capacity, fun f hf => h.pending f (hp f hf)⟩

theorem handed_withSyslog (hp : p.frame = w.proto.frame) : handed (withSyslog w p) = handed w := by
  unfold handed pendingText
  rw [withSyslog_proto, hp]
  rfl

/-- A frame that the pool gives is the user's, and nothing else changes. -/
theorem sending_allocated (h : Dgram.Sending w q) (ho : w.owner f = .pool) :
    Dgram.Sending (allocated w f p) q := by
  have hne : ∀ g ∈ q, g ≠ f := fun g hg e => by
    have hw := (h.writer g).mpr hg
    simp [e, ho] at hw
  have h₁ := (h.toHolds.tick.setFrame (f := f)
    (x := Pool.resetFrame (w.heap f) .log "log_syslog.c" 313) (fun hp => absurd ho hp)
    (fun hp => by simp [ho] at hp)).setOwner (f := f) (o := .user) (by simp [ho]) (by simp)
      fun _ => by simpa using Pool.live_resetFrame (by simp) (by simp)
  have h₂ : Dgram.Sending ((w.tick.setFrame f
      (Pool.resetFrame (w.heap f) .log "log_syslog.c" 313)).setOwner f .user) q := by
    refine ⟨h₁, h.connect, fun g hg => ?_, ?_⟩
    · simpa [hne g hg] using h.sendable g hg
    · have hp : q.flatMap (fun g => ((w.tick.setFrame f (Pool.resetFrame (w.heap f) .log
          "log_syslog.c" 313)).heap g).pendingBytes) = q.flatMap fun g => (w.heap g).pendingBytes :=
        List.flatMap_congr fun g hg => by simp [hne g hg]
      exact hp ▸ h.bytes
  exact sending_withSyslog h₂

theorem backend_tick (h : Backend w) : Backend w.tick :=
  ⟨h.sends.imp fun _ hq => hq.tick, h.capacity, h.pending⟩

theorem backend_allocated (h : Backend w) (ho : w.owner f = .pool) :
    Backend (allocated w f p) := by
  refine ⟨h.sends.imp fun _ hq => sending_allocated hq ho, fun g => ?_, fun g hg => ?_⟩
  · by_cases e : g = f
    · subst e
      simpa [allocated, lent, Pool.resetFrame] using h.capacity g
    · simpa [allocated, lent, e] using h.capacity g
  · obtain rfl : f = g := Option.some.inj hg
    exact ⟨by simp [allocated, lent],
      by simpa [allocated, lent] using filled_resetFrame (h.capacity f)⟩

theorem vecs_allocated : ((allocated w f p).heap f).vecs = [] := by
  simp [allocated, lent, Pool.resetFrame]

/-- Beside a detached frame the state is one between two calls. -/
structure Detached (f : FrameId) (w : World Dgram Syslog) : Prop extends Backend w where
  owner : w.owner f = .user
  apart : w.proto.frame ≠ some f

theorem Detached.live (h : Detached f w) : Pool.Live (w.heap f) := by
  obtain ⟨q, hq⟩ := h.sends
  exact hq.live f (by simp [h.owner])

theorem Detached.withSyslog (h : Detached f w) (hp : p.frame = w.proto.frame) :
    Detached f (withSyslog w p) :=
  ⟨h.toBackend.withSyslog fun _ hf => hp ▸ hf, h.owner, hp ▸ h.apart⟩

theorem Detached.setFrame {x : Frame} (h : Detached f w) (hl : Pool.Live x)
    (hc : x.capacity = FRAME_SIZE) : Detached f (w.setFrame f x) := by
  refine ⟨⟨h.sends.imp fun _ hq => hq.setFrame h.owner hl, fun g => ?_, fun g hg => ?_⟩, h.owner,
    h.apart⟩
  · by_cases e : g = f
    · subst e
      simpa using hc
    · simpa [e] using h.capacity g
  · have hg : w.proto.frame = some g := hg
    have e : g ≠ f := fun e => h.apart (e ▸ hg)
    simpa [e] using h.pending g hg

/-- A frame that the socket does not take goes back to the pool. -/
theorem Detached.returned (ctx : Context) (h : Detached f w) : Backend (w.returned ctx f) := by
  obtain ⟨q, hq⟩ := h.sends
  have hself : w.setOwner f .user = w := Dgram.setOwner_user h.owner
  have h₁ : Dgram.Holds (w.returned ctx f) q :=
    Dgram.Holds.returned ctx (by rw [hself]; exact hq.toHolds)
  have hne : ∀ g, w.owner g ≠ .user → g ≠ f := fun g hg e => hg (e ▸ h.owner)
  have heap : ∀ g, g ≠ f → (w.returned ctx f).heap g = w.heap g := fun g hg => by
    simp [World.returned, hg]
  have hqne : ∀ g ∈ q, g ≠ f := fun g hg => hne g (by simp [(hq.writer g).mpr hg])
  refine ⟨⟨q, h₁, hq.connect, fun g hg => heap g (hqne g hg) ▸ hq.sendable g hg, ?_⟩, fun g => ?_,
    fun g hg => ?_⟩
  · have hp : q.flatMap (fun g => ((w.returned ctx f).heap g).pendingBytes) =
        q.flatMap fun g => (w.heap g).pendingBytes :=
      List.flatMap_congr fun g hg => by rw [heap g (hqne g hg)]
    rw [hp]
    simpa [World.returned, Stream.sentBytes, Stream.acceptedBytes] using hq.bytes
  · by_cases e : g = f
    · subst e
      simpa [World.returned] using h.capacity g
    · rw [heap g e]
      exact h.capacity g
  · have hg : w.proto.frame = some g := hg
    have e : g ≠ f := fun e => h.apart (e ▸ hg)
    obtain ⟨ho, hx⟩ := h.pending g hg
    rw [heap g e]
    exact ⟨by simpa [World.returned, e] using ho, hx⟩

theorem preserves_delegate_error :
    Preserves E Dgram.SendInv Dgram.Untouched delegate.error := preserves_pure _

/-- What is logged when the frame is handed over at that time. -/
def writeMessages (env : Env) (w : World Dgram Syslog) (f : FrameId) (c : ℕ) : List LogMessage :=
  env.writing c ++ if w.socket.writeOpen then [] else [notOpen (env.now c) (env.pointer f)]

/-- The detached frame is sent if the socket is open, and returned else. -/
theorem handOver_wp (h : Detached f w) (hx : (w.heap f).Filled) (hv : (w.heap f).vecs ≠ [])
    (hlog : ∀ m ∈ writeMessages env w f w.clock, log m = reenter env m) :
    wp E (handOver env log f (w.heap f))
      (fun _ w' => Backend w' ∧ w'.proto = alerted env w.proto (writeMessages env w f w.clock) ∧
        (∀ g, w.proto.frame = some g → w'.heap g = w.heap g) ∧
        Stream.acceptedBytes dataOnly w'.trace = Stream.acceptedBytes dataOnly w.trace ++
          if w.socket.writeOpen then (w.heap f).contents else []) w := by
  obtain ⟨hs, hbytes⟩ := hx.flip hv
  have hne : ∀ g, w.proto.frame = some g → g ≠ f := fun g hg e => h.apart (e ▸ hg)
  have h₁ : Detached f (w.setFrame f (w.heap f).flip) := h.setFrame h.live (h.capacity f)
  have hx₁ : (w.setFrame f (w.heap f).flip).heap f = (w.heap f).flip := by simp
  obtain ⟨hwriting, hclosed⟩ := List.forall_mem_append.mp hlog
  rw [handOver, wp_bind, wp_setFrame, wp_bind, wp_get, wp_bind]
  cases ho : w.socket.writeOpen with
  | true =>
    have hmessages : writeMessages env w f w.clock = env.writing w.clock := by
      rw [writeMessages, if_pos ho, List.append_nil]
    refine wp_mono (Dgram.write_sends preserves_delegate_error h₁.sends ho h₁.owner
      (by rw [hx₁]; exact hs)) ?_
    rintro _ w₂ ⟨rfl, h₂, l₂⟩
    have heap : ∀ g, w.proto.frame = some g → w₂.owner g = .user ∧ w₂.heap g = w.heap g := by
      intro g hg
      obtain ⟨ho₂, hx₂⟩ := l₂.user g (hne g hg) (h.pending g hg).1
      exact ⟨ho₂, by simpa [hne g hg] using hx₂⟩
    rw [wp_bind]
    refine (wp_forM_log hwriting).mpr ?_
    rw [wp_when]
    refine ⟨by rintro ⟨⟩, fun _ => ⟨⟨h₂.imp fun _ hq => sending_withSyslog hq,
      fun g => (l₂.capacity g).trans (h₁.capacity g), fun g hg => ?_⟩, ?_,
      fun g hg => (heap g hg).2, ?_⟩⟩
    · rw [withSyslog_proto, alerted_frame, l₂.proto] at hg
      exact ⟨(heap g hg).1, (heap g hg).2 ▸ (h.pending g hg).2⟩
    · rw [withSyslog_proto, l₂.proto, hmessages]
      rfl
    · rw [withSyslog_trace, l₂.bytes, hx₁, hbytes]
      rfl
  | false =>
    have hmessages : writeMessages env w f w.clock =
        env.writing w.clock ++ [notOpen (env.now w.clock) (env.pointer f)] := by
      simp [writeMessages, ho]
    refine (Dgram.wp_write_closed (w := w.setFrame f (w.heap f).flip) ho
      (by rw [hx₁]; exact hs.type)).mpr ?_
    rw [wp_bind]
    refine (wp_forM_log hwriting).mpr ?_
    rw [wp_when]
    refine ⟨fun _ => ?_, fun hn => absurd rfl hn⟩
    rw [wp_bind]
    change wp E (log (notOpen (env.now w.clock) (env.pointer f))) _ _
    rw [hclosed _ (by simp [ho]), wp_reenter]
    have h₂ := h₁.withSyslog (p := alerted env w.proto (writeMessages env w f w.clock))
      alerted_frame
    rw [hmessages, alerted_append] at h₂
    refine (wp_frameReturn h₂.live).mpr ⟨h₂.returned env.toContext, ?_, fun g hg => ?_, ?_⟩
    · rw [hmessages, alerted_append]
      rfl
    · simp [World.returned, hne g hg]
    · simp [World.returned, Stream.acceptedBytes]

/-- What is logged when the pending frame is sent. -/
def sendMessages (env : Env) (w : World Dgram Syslog) (f : FrameId) (alloc : Bool) :
    List LogMessage :=
  if alloc then borrowMessages env w ++ writeMessages env w f (w.clock + 1)
  else writeMessages env w f w.clock

/-- The variables after that, if the backend is at work. -/
def sent (env : Env) (w : World Dgram Syslog) (f : FrameId) (alloc : Bool) : Syslog :=
  { alerted env w.proto (sendMessages env w f alloc) with
    frame := if alloc then offer env.toContext w else none }

@[simp] theorem sent_placed {alloc : Bool} : (sent env w f alloc).placed = w.proto.placed :=
  alerted_placed

@[simp] theorem sent_emergency {alloc : Bool} :
    (sent env w f alloc).emergency = w.proto.emergency := alerted_emergency

/-- A pending frame with records is handed over. -/
theorem send_wp (h : Backend w) (hf : w.proto.frame = some f) (hv : (w.heap f).vecs ≠ [])
    (alloc : Bool) (hlog : ∀ m ∈ sendMessages env w f alloc, log m = reenter env m) :
    wp E (send env log alloc) (fun _ w' => Backend w' ∧ w'.proto = sent env w f alloc ∧
      Blank w' ∧ (w.socket.writeOpen = true → handed w' = handed w)) w := by
  obtain ⟨ho, hx⟩ := h.pending f hf
  have hpos : (w.heap f).pos ≠ 0 := fun hz => hv (hx.pos_eq_zero.mp hz)
  have hpending : pendingText w = (w.heap f).contents := by rw [pendingText, hf]
  let w₀ := withSyslog w { w.proto with frame := none }
  have h₀ : Detached f w₀ := ⟨h.withSyslog (by rintro _ ⟨⟩), ho, by rintro ⟨⟩⟩
  -- what is left to do after the allocation
  have hrest : ∀ (w₁ : World Dgram Syslog), Detached f w₁ → w₁.heap f = w.heap f →
      w₁.socket = w.socket → w₁.trace = w.trace → Blank w₁ →
      (∀ m ∈ writeMessages env w f w₁.clock, log m = reenter env m) →
      wp E (handOver env log f (w.heap f)) (fun _ w' => Backend w' ∧
        w'.proto = alerted env w₁.proto (writeMessages env w f w₁.clock) ∧
        Blank w' ∧ (w.socket.writeOpen = true → handed w' = handed w)) w₁ := by
    intro w₁ h₁ hheap hsocket htrace hblank hlog₁
    have hmessages : writeMessages env w f w₁.clock = writeMessages env w₁ f w₁.clock := by
      rw [writeMessages, writeMessages, hsocket]
    rw [hmessages] at hlog₁ ⊢
    rw [← hheap] at hx hv ⊢
    refine wp_mono (handOver_wp h₁ hx hv hlog₁) ?_
    rintro _ w₂ ⟨h₂, hp₂, hheap₂, hb₂⟩
    have hblank₂ : Blank w₂ := by
      intro g hg
      rw [hp₂, alerted_frame] at hg
      rw [hheap₂ g hg]
      exact hblank g hg
    refine ⟨h₂, hp₂, hblank₂, fun hopen => ?_⟩
    rw [handed, handed, hb₂, pendingText_blank hblank₂, hpending, htrace, hsocket, if_pos hopen,
      hheap, List.append_nil]
  rw [send, wp_bind, wp_getSyslog, wp_bind, wp_setPending, hf]
  change wp E _ _ w₀
  dsimp only
  rw [wp_bind, wp_getFrame]
  change wp E (if (w.heap f).pos = 0 then _ else _) _ w₀
  rw [if_neg hpos]
  cases alloc with
  | false =>
    refine wp_mono (hrest _ h₀ rfl rfl rfl (by rintro _ ⟨⟩) hlog) ?_
    rintro _ w₂ ⟨h₂, hp₂, hrest₂⟩
    exact ⟨h₂, hp₂.trans alerted_setFrame, hrest₂⟩
  | true =>
    obtain ⟨hborrow, hwrite⟩ := List.forall_mem_append.mp hlog
    have hoffer : offer env.toContext w₀ = offer env.toContext w := rfl
    have hborrow₀ : borrowMessages env w₀ = borrowMessages env w := rfl
    have hasked : asked env w₀ = { asked env w with frame := none } := by
      rw [asked, hborrow₀]
      exact alerted_setFrame
    rw [wp_bind, wp_when]
    refine ⟨fun _ => ?_, fun hn => absurd rfl hn⟩
    rw [wp_bind]
    refine (wp_frameAlloc (w := w₀) rfl hborrow).mpr ?_
    rw [hoffer]
    have hsent (r : Option FrameId) (hr : offer env.toContext w = r) :
        alerted env { asked env w with frame := r } (writeMessages env w f (w.clock + 1)) =
          sent env w f true := by
      rw [sent, sendMessages, if_pos rfl, if_pos rfl, alerted_append, hr]
      exact alerted_setFrame
    cases hg : offer env.toContext w with
    | none =>
      dsimp only
      rw [wp_pure]
      have h₁ : Detached f (withSyslog w₀.tick (asked env w₀)) :=
        Detached.withSyslog (w := w₀.tick) ⟨backend_tick h₀.toBackend, ho, by rintro ⟨⟩⟩ asked_frame
      have hblank : Blank (withSyslog w₀.tick (asked env w₀)) := fun k hk => by
        rw [withSyslog_proto, asked_frame] at hk
        cases hk
      refine wp_mono (hrest _ h₁ rfl rfl rfl hblank hwrite) ?_
      rintro _ w₂ ⟨h₂, hp₂, hrest₂⟩
      rw [withSyslog_proto, hasked] at hp₂
      exact ⟨h₂, hp₂.trans (hsent none hg), hrest₂⟩
    | some g =>
      dsimp only
      rw [wp_pure]
      have hpool := owner_of_offer hg
      have hne : g ≠ f := fun e => by simp [e, ho] at hpool
      have h₁ : Detached f (allocated w₀ g (asked env w₀)) := by
        refine ⟨backend_allocated h₀.toBackend hpool, ?_, fun he => hne (Option.some.inj he)⟩
        simp [allocated, lent, hne.symm, w₀, ho]
      have hblank : Blank (allocated w₀ g (asked env w₀)) := fun k hk => by
        obtain rfl : g = k := Option.some.inj hk
        exact vecs_allocated
      have hheap : (allocated w₀ g (asked env w₀)).heap f = w.heap f := by
        simp [allocated, lent, hne.symm, w₀]
      refine wp_mono (hrest _ h₁ hheap rfl rfl hblank hwrite) ?_
      rintro _ w₂ ⟨h₂, hp₂, hrest₂⟩
      rw [allocated, withSyslog_proto, hasked] at hp₂
      exact ⟨h₂, hp₂.trans (hsent (some g) hg), hrest₂⟩

variable {le x y : LogRecord} {n : ℕ} {length : ℤ} {bytes bytes' : List UInt8}

/-- What the structured data of a record is printed as. -/
def IsSd (separator : UInt8) (le : LogRecord) (sd : List UInt8) : Prop :=
  match le.sd with
  | none => sd = []
  | some sds => sd = sdText separator sds ∨ sd = Log.ascii " NOMEM=1"

/-- The bytes that a vector of `n` bytes holds of a record. -/
def Stored (env : Env) (le : LogRecord) (n : ℕ) (text : List UInt8) : Prop :=
  ∃ sd, IsSd (separator env.format) le sd ∧ text = Frame.kept n (recordText env le sd)

/-- The size of the vector for a record, where no number overflows. -/
def recordSize (le : LogRecord) (length : ℤ) : ℕ :=
  length.toNat + 128 + ((le.sd.getD []).map sdLength).sum

/-- The record was printed to the emergency stream, or to the last vector of the pending frame.
Before, the variables were the given ones, and the listed bytes had been handed over. -/
def Settled (env : Env) (le : LogRecord) (length : ℤ) (s : Syslog) (bytes : List UInt8)
    (w : World Dgram Syslog) : Prop :=
  (w.proto.emergency = s.emergency ++ [(le, length)] ∧ w.proto.placed = s.placed ∧
      handed w = bytes) ∨
    (w.proto.emergency = s.emergency ∧ w.proto.placed = s.placed ++ [le] ∧
      ∃ f v text, w.proto.frame = some f ∧ (w.heap f).vecs.getLast? = some v ∧
        (w.heap f).receivedBytes v = text ∧ Stored env le (recordSize le length) text ∧
        handed w = bytes ++ text)

/-- Messages that were logged before the record was printed do not matter. -/
theorem Settled.since {s' : Syslog} (h : Settled env le length s' bytes w)
    (he : s'.emergency = s.emergency) (hp : s'.placed = s.placed) :
    Settled env le length s bytes w := by
  unfold Settled at *
  rwa [hp, he] at h

/-- One record at most is settled by a call. -/
theorem Settled.unique (h : Settled env x length s bytes w) (h' : Settled env y length s bytes' w) :
    x = y := by
  rcases h with ⟨he, hp, -⟩ | ⟨he, hp, -⟩ <;> rcases h' with ⟨he', hp', -⟩ | ⟨he', hp', -⟩
  · simpa [he] using he'
  · simp [he] at he'
  · simp [he] at he'
  · simpa [hp] using hp'

theorem recordText_ne_nil (sd : List UInt8) : recordText env le sd ≠ [] := by
  have hlt : Log.ascii "<" ≠ [] := by decide
  unfold recordText
  dsimp only
  split <;> simp [hlt]

theorem expandSd_wp (sep : UInt8) : wp E (expandSd env sep le) (fun sd w' => IsSd sep le sd ∧
    ∃ clock sdbufSize, w' = { w with clock, proto := { w.proto with sdbufSize } }) w := by
  unfold expandSd IsSd
  cases le.sd with
  | none => exact ⟨rfl, w.clock, w.proto.sdbufSize, rfl⟩
  | some sds =>
    dsimp only
    rw [wp_bind, wp_getSyslog, wp_ite]
    refine ⟨fun _ => ?_, fun _ => ⟨Or.inl rfl, w.clock, w.proto.sdbufSize, rfl⟩⟩
    rw [wp_bind, wp_ask, wp_ite]
    refine ⟨fun _ => ?_, fun _ => ⟨Or.inr rfl, w.clock + 1, w.proto.sdbufSize, rfl⟩⟩
    rw [wp_bind, wp_modify, wp_pure]
    exact ⟨Or.inl rfl, w.clock + 1, 2 + (sds.map sdLength).sum, rfl⟩

/-- The pending frame is replaced by one that is filled too. -/
theorem Backend.setPending {y : Frame} (h : Backend w) (hf : w.proto.frame = some f)
    (hy : y.Filled) (hl : Pool.Live y) : Backend (w.setFrame f y) := by
  obtain ⟨ho, -⟩ := h.pending f hf
  refine ⟨h.sends.imp fun _ hq => hq.setFrame ho hl, fun g => ?_, fun g hg => ?_⟩
  · by_cases e : g = f
    · subst e
      simpa using hy.capacity
    · simpa [e] using h.capacity g
  · obtain rfl : f = g := Option.some.inj (hf.symm.trans hg)
    exact ⟨ho, by simpa using hy⟩

theorem handed_setPending {y : Frame} (hf : w.proto.frame = some f) :
    handed (w.setFrame f y) = Stream.acceptedBytes dataOnly w.trace ++ y.contents := by
  have hf : (w.setFrame f y).proto.frame = some f := hf
  rw [handed, pendingText, hf]
  simp

/-- The record is printed into its new vector, or the vector is removed. -/
theorem storeRecord_wp (h : Backend w) (hf : w.proto.frame = some f)
    (hn : recordSize le length = n)
    (hfits : ¬FRAME_SIZE < (w.heap f).span + n + SIZEOF_VEC * ((w.heap f).vecLimit + 1)) :
    wp E (storeRecord env f (w.heap f).vecLimit le length)
      (fun _ w' => Backend w' ∧ Settled env le length w.proto (handed w) w')
      (w.setFrame f ((w.heap f).withVec n)) := by
  have hpos : 0 < n := by
    rw [← hn, recordSize]
    omega
  rw [storeRecord, wp_bind]
  refine wp_mono (expandSd_wp _) ?_
  rintro sd _ ⟨hsd, clock, sdbufSize, rfl⟩
  -- only the pending frame differs from the state `w₁`
  let w₁ : World Dgram Syslog := { w with clock, proto := { w.proto with sdbufSize } }
  have h₁ : Backend w₁ := by
    obtain ⟨q, hq⟩ := h.sends
    exact ⟨⟨q, { hq with }⟩, h.capacity, h.pending⟩
  have hf₁ : w₁.proto.frame = some f := hf
  have hheap : (w₁.setFrame f ((w.heap f).withVec n)).heap f = (w.heap f).withVec n := by simp
  change wp E _ _ (w₁.setFrame f ((w.heap f).withVec n))
  obtain ⟨ho, hx⟩ := h.pending f hf
  have hlive : Pool.Live (w.heap f) := by
    obtain ⟨q, hq⟩ := h.sends
    exact hq.live f (by simp [ho])
  have hhanded : handed w = Stream.acceptedBytes dataOnly w₁.trace ++ (w.heap f).contents := by
    rw [handed, pendingText, hf]
  -- the vector is removed again, and the record goes to the emergency stream
  have hrefused : ∀ y : Frame, y.Filled → y.contents = (w.heap f).contents → Pool.Live y →
      wp E (do setFrame f y; emergencyFprint le length)
        (fun _ w' => Backend w' ∧ Settled env le length w.proto (handed w) w')
        (w₁.setFrame f ((w.heap f).withVec n)) := by
    intro y hy hc hl
    rw [wp_bind, wp_setFrame, World.setFrame_setFrame, wp_emergencyFprint]
    refine ⟨(h₁.setPending hf₁ hy hl).withSyslog fun _ => id, Or.inl ⟨rfl, rfl, ?_⟩⟩
    refine (handed_withSyslog rfl).trans ((handed_setPending hf₁).trans ?_)
    rw [hc, ← hhanded]
  dsimp only
  rw [wp_bind, wp_getFrame, hheap, Frame.getElem?_withVec]
  dsimp only
  by_cases hprinted : Log.printed (recordText env le sd) < 0
  · have hremove : ((w.heap f).withVec n).removeLastVec.2 = w.heap f := by
      simp [Frame.removeLastVec, Frame.withVec, Frame.vecLimit]
    rw [if_pos hprinted]
    change wp E (do setFrame f ((w.heap f).withVec n).removeLastVec.2
                    emergencyFprint le length) _ _
    rw [hremove]
    exact hrefused _ hx rfl hlive
  rw [if_neg hprinted]
  by_cases hlong : n - 1 < (recordText env le sd).length
  · obtain ⟨y, hy, hfilled, hcontents, hkeep⟩ := hx.print_refused hpos hlong
    rw [hy]
    exact hrefused _ hfilled hcontents (hkeep hlive)
  · have hsize : n < 2 ^ 16 := by
      simp only [FRAME_SIZE] at hfits
      omega
    obtain ⟨y, hy, z, v, hz, hvecs, hlimit, hcapacity, hfilled, hreceived, hcontents, hkeep⟩ :=
      hx.print_taken hsize (recordText_ne_nil sd) (not_lt.mp hlong) hfits
    have hpos : 0 < (recordText env le sd).length :=
      List.length_pos_iff.mpr (recordText_ne_nil sd)
    have hget : z.vecs[(w.heap f).vecLimit]? = some v := by simp [hvecs, Frame.vecLimit]
    rw [hy]
    dsimp only
    rw [if_neg (by simp), hz, wp_bind, wp_setFrame, World.setFrame_setFrame, wp_bind, wp_getSyslog,
      wp_bind, wp_setSyslog, hget]
    dsimp only
    rw [if_neg (by omega), if_neg (by omega)]
    have h₂ := h₁.setPending hf₁ hfilled (hkeep hlive)
    refine ⟨h₂.withSyslog fun _ => id, Or.inr ⟨rfl, rfl, f, v, _, hf₁, by simp [hvecs], rfl,
      ⟨sd, hsd, ?_⟩, ?_⟩⟩
    · rw [hn]
      simpa using hreceived
    · refine (handed_withSyslog rfl).trans ((handed_setPending hf₁).trans ?_)
      rw [hcontents, ← List.append_assoc, ← hhanded]
      simpa using hreceived.symm

theorem handed_allocated (hn : w.proto.frame = none) : handed (allocated w f p) = handed w := by
  have hempty : pendingText (allocated w f p) = [] :=
    pendingText_blank fun g hg => by
      obtain rfl : f = g := Option.some.inj hg
      exact vecs_allocated
  have hnone : pendingText w = [] := pendingText_blank fun g hg => by simp [hn] at hg
  rw [handed, handed, hempty, hnone]
  rfl

/-- The vector for the record and its entry in the table fit an empty frame. -/
def Fits (le : LogRecord) (length : ℤ) : Prop :=
  0 ≤ length ∧ recordSize le length + SIZEOF_VEC ≤ FRAME_SIZE

theorem vecLimit_eq (h : Fits le length) : vecLimit le length = some (recordSize le length) := by
  obtain ⟨hlength, hsize⟩ := h
  simp only [recordSize, SIZEOF_VEC, FRAME_SIZE] at hsize
  have hadd : Log.addInt length 128 = some (length + 128) :=
    Log.addInt_eq_some.mpr ⟨rfl, by simp only [Log.INT_MAX]; omega,
      by simp only [Log.INT_MAX]; omega⟩
  have hn : toSize (length + 128) = length.toNat + 128 := by
    rw [toSize, if_pos (by omega)]
    omega
  simp only [vecLimit, hadd, hn, recordSize]
  exact if_pos (by omega)

theorem recordSize_eq (h : vecLimit le length = some n) (hlength : 0 ≤ length) :
    n = recordSize le length ∧ n < 2 ^ 63 := by
  unfold vecLimit at h
  split at h
  · cases h
  · next m hm =>
    obtain ⟨rfl, -⟩ := Log.addInt_eq_some.mp hm
    have hn : toSize (length + 128) = length.toNat + 128 := by
      rw [toSize, if_pos (by omega)]
      omega
    dsimp only at h
    rw [hn] at h
    split_ifs at h with hlt
    obtain rfl := Option.some.inj h
    exact ⟨rfl, hlt⟩

/-- The pending frame, if there is one, has room for a vector of `n` bytes. -/
def HasRoom (n : ℕ) (w : World Dgram Syslog) : Prop :=
  ∀ f, w.proto.frame = some f →
    (w.heap f).span + n + SIZEOF_VEC * ((w.heap f).vecLimit + 1) ≤ FRAME_SIZE

/-- An empty frame has room for a record that fits. -/
theorem hasRoom_blank (h : Fits le length) (hblank : Blank w) :
    HasRoom (recordSize le length) w := by
  intro f hf
  have hv := hblank f hf
  have hspan : (w.heap f).span = 0 := by rw [Frame.span, hv]; rfl
  simpa [hspan, Frame.vecLimit, hv] using h.2

/-- A record with room in the pending frame fits an empty one. -/
theorem HasRoom.fits (h : HasRoom (recordSize le length) w) (hlength : 0 ≤ length)
    (hf : w.proto.frame = some f) : Fits le length := by
  refine ⟨hlength, ?_⟩
  have hroom := h f hf
  simp only [SIZEOF_VEC] at hroom ⊢
  omega

section Process

variable {ptr : RecordPtr} {k : ℕ}

/-- The vector is appended if there is room, and else the frame is sent and the loop goes on. -/
theorem wp_placeRecord (h : Backend w) (hf : w.proto.frame = some f)
    (hn : vecLimit (ptr.get w.proto) length = some n) (hlt : n < 2 ^ 63)
    {Q : Bool → World Dgram Syslog → Prop} :
    wp E (processLoop env ptr length (k + 1)) Q w ↔
      if FRAME_SIZE < (w.heap f).span + n + SIZEOF_VEC * ((w.heap f).vecLimit + 1) then
        wp E (send env (reenter env) true) (fun _ => wp E (processLoop env ptr length k) Q) w
      else wp E (storeRecord env f (w.heap f).vecLimit (ptr.get w.proto) length) (fun _ => Q true)
        (w.setFrame f ((w.heap f).withVec n)) := by
  obtain ⟨-, hx⟩ := h.pending f hf
  rw [processLoop, wp_bind, pendingFrame, wp_bind, wp_getSyslog, hf]
  dsimp only
  rw [wp_pure]
  dsimp only
  rw [wp_bind, wp_getSyslog, hn]
  dsimp only
  rw [wp_bind, wp_getFrame, hx.appendVec_eq hlt]
  split_ifs
  · rw [wp_bind, wp_liftM_ok, wp_bind]
  · rw [wp_bind, wp_liftM_ok, wp_bind, wp_setFrame, wp_bind]
    rfl

/-- A missing frame is allocated first. If there is none, the record is printed as it is then. -/
theorem wp_allocateFirst (hf : w.proto.frame = none) {Q : Bool → World Dgram Syslog → Prop} :
    wp E (processLoop env ptr length (k + 1)) Q w ↔ match offer env.toContext w with
      | none => Q true (withSyslog w.tick { asked env w with
          emergency := w.proto.emergency ++ [(ptr.get (asked env w), length)] })
      | some f => wp E (processLoop env ptr length (k + 1)) Q (allocated w f (asked env w)) := by
  rw [processLoop, wp_bind, pendingFrame, wp_bind, wp_getSyslog, hf]
  dsimp only
  rw [wp_bind, wp_frameAlloc hf fun _ _ => rfl]
  cases offer env.toContext w with
  | none =>
    have hnone : (withSyslog w.tick (asked env w)).proto.frame = none := asked_frame.trans hf
    dsimp only
    rw [wp_bind, wp_getSyslog, wp_pure, hnone]
    dsimp only
    rw [wp_bind, wp_getSyslog, wp_bind, wp_emergencyFprint, wp_pure, withSyslog_proto,
      asked_emergency]
    rfl
  | some f =>
    have hf : (allocated w f (asked env w)).proto.frame = some f := rfl
    dsimp only
    rw [wp_bind, wp_getSyslog, wp_pure, wp_bind, wp_bind, wp_getSyslog, hf]
    rfl

/-- The record is the given one when there is a frame with room for it, or when the pool was asked
for one. A frame that the pool gives has room. -/
def Places (env : Env) (ptr : RecordPtr) (le : LogRecord) (length : ℤ) (w : World Dgram Syslog) :
    Prop :=
  match w.proto.frame with
  | some _ => ptr.get w.proto = le ∧ HasRoom (recordSize le length) w
  | none => ptr.get (asked env w) = le ∧ (offer env.toContext w ≠ none → Fits le length)

theorem places_pending (hf : w.proto.frame = some f) : Places env ptr le length w ↔
    ptr.get w.proto = le ∧ HasRoom (recordSize le length) w := by
  rw [Places, hf]

theorem places_none (hf : w.proto.frame = none) : Places env ptr le length w ↔
    ptr.get (asked env w) = le ∧ (offer env.toContext w ≠ none → Fits le length) := by
  rw [Places, hf]

theorem blank_allocated : Blank (allocated w f p) := fun g hg => by
  obtain rfl : f = g := Option.some.inj hg
  exact vecs_allocated

theorem places_allocated (hlength : 0 ≤ length) (hf : w.proto.frame = none)
    (ho : offer env.toContext w = some f) : Places env ptr le length w ↔
      Places env ptr le length (allocated w f (asked env w)) := by
  have hget : ptr.get (allocated w f (asked env w)).proto = ptr.get (asked env w) := by
    cases ptr <;> rfl
  have hroom : HasRoom (recordSize le length) (allocated w f (asked env w)) ↔ Fits le length :=
    ⟨fun h => h.fits hlength rfl, fun h => hasRoom_blank h blank_allocated⟩
  rw [places_none hf, places_pending rfl, hget, hroom, ho]
  simp

/-- A record with a frame to be placed in is settled in the first round. -/
theorem processLoop_places (h : Backend w) (hlength : 0 ≤ length)
    (hp : Places env ptr le length w) :
    wp E (processLoop env ptr length (k + 1)) (fun done w' => done = true ∧ Backend w' ∧
      Settled env le length w.proto (handed w) w') w := by
  have hstore : ∀ w : World Dgram Syslog, Backend w → ∀ f, w.proto.frame = some f →
      Places env ptr le length w →
      wp E (processLoop env ptr length (k + 1)) (fun done w' => done = true ∧ Backend w' ∧
        Settled env le length w.proto (handed w) w') w := by
    intro w h f hf hp
    obtain ⟨rfl, hroom⟩ := (places_pending hf).mp hp
    have hn := vecLimit_eq (hroom.fits hlength hf)
    have hsize := not_lt.mpr (hroom f hf)
    rw [wp_placeRecord h hf hn (recordSize_eq hn hlength).2, if_neg hsize]
    exact wp_mono (storeRecord_wp h hf rfl hsize) fun _ _ hw => ⟨rfl, hw⟩
  cases hf : w.proto.frame with
  | some f => exact hstore w h f hf hp
  | none =>
    rw [wp_allocateFirst hf]
    cases ho : offer env.toContext w with
    | none =>
      obtain ⟨rfl, -⟩ := (places_none hf).mp hp
      refine ⟨rfl, (backend_tick h).withSyslog fun g hg => ?_, Or.inl ⟨rfl, asked_placed, ?_⟩⟩
      · have hframe : (asked env w).frame = w.proto.frame := asked_frame
        exact hframe.symm.trans hg
      · exact handed_withSyslog (w := w.tick) asked_frame
    | some f =>
      have hplaced := hstore _ (backend_allocated h (owner_of_offer ho)) f rfl
        ((places_allocated hlength hf ho).mp hp)
      rw [handed_allocated hf] at hplaced
      exact wp_mono hplaced fun _ _ ⟨hdone, hb, hs⟩ =>
        ⟨hdone, hb, hs.since asked_emergency asked_placed⟩

/-- An empty frame is not sent but used again. -/
theorem send_blank (h : Backend w) (hf : w.proto.frame = some f) (hv : (w.heap f).vecs = [])
    {Q : Unit → World Dgram Syslog → Prop} : wp E (send env log true) Q w ↔ Q () w := by
  obtain ⟨ho, hx⟩ := h.pending f hf
  rw [send, wp_bind, wp_getSyslog, wp_bind, wp_setPending, hf]
  dsimp only
  rw [wp_bind, wp_getFrame, withSyslog_heap, if_pos (hx.pos_eq_zero.mpr hv), wp_when]
  have hempty : (w.heap f).formatEmpty = w.heap f := by
    rw [Frame.formatEmpty, ← hv, ← hx.cursor]
  have hw : World.setFrame (withSyslog w { w.proto with frame := some f }) f
      (w.heap f).formatEmpty = w := by
    rw [hempty, ← hf]
    exact Dgram.setFrame_self w f
  constructor
  · intro hQ
    have hdone := hQ.1 rfl
    rw [wp_bind, wp_setPending, wp_setFrame] at hdone
    exact hw ▸ hdone
  · refine fun hQ => ⟨fun _ => ?_, fun hn => absurd rfl hn⟩
    rw [wp_bind, wp_setPending, wp_setFrame]
    change Q () (World.setFrame (withSyslog w { w.proto with frame := some f }) f
      (w.heap f).formatEmpty)
    rwa [hw]

/-- A record that fits no empty frame is tried again and again. -/
theorem processLoop_stuck (hn : vecLimit (ptr.get w.proto) length = some n) (hlt : n < 2 ^ 63)
    (hlarge : FRAME_SIZE < n + SIZEOF_VEC) (h : Backend w) (hf : w.proto.frame = some f)
    (hv : (w.heap f).vecs = []) :
    wp E (processLoop env ptr length k) (fun done _ => done = false) w := by
  induction k with
  | zero => rfl
  | succ k ih =>
    have hspan : (w.heap f).span = 0 := by rw [Frame.span, hv]; rfl
    have hsize : FRAME_SIZE < (w.heap f).span + n + SIZEOF_VEC * ((w.heap f).vecLimit + 1) := by
      simpa [hspan, Frame.vecLimit, hv] using hlarge
    rw [wp_placeRecord h hf hn hlt, if_pos hsize, send_blank h hf hv]
    exact ih

/-- The size of the vector for a record overflows. -/
theorem processLoop_overflow (hn : vecLimit (ptr.get w.proto) length = none)
    (hf : w.proto.frame = some f) {Q : Bool → World Dgram Syslog → Prop} :
    wp (fun _ => True) (processLoop env ptr length (k + 1)) Q w := by
  rw [processLoop, wp_bind, pendingFrame, wp_bind, wp_getSyslog, hf]
  dsimp only
  rw [wp_pure]
  dsimp only
  rw [wp_bind, wp_getSyslog, hn]
  trivial

/-- A record that is not the given one any more, or does not fit, is not settled as this one. -/
theorem processLoop_unplaced (h : Backend w) (hlength : 0 ≤ length) (hblank : Blank w)
    (hp : ¬Places env ptr le length w) :
    wp (fun _ => True) (processLoop env ptr length k)
      (fun done w' => done = true → ∀ bytes, ¬Settled env le length w.proto bytes w') w := by
  have hloop : ∀ w : World Dgram Syslog, Backend w → ∀ f, w.proto.frame = some f → Blank w →
      ¬Places env ptr le length w → wp (fun _ => True) (processLoop env ptr length k)
        (fun done w' => done = true → ∀ bytes, ¬Settled env le length w.proto bytes w') w := by
    intro w h f hf hblank hp
    cases k with
    | zero => exact fun hdone => by cases hdone
    | succ k =>
      rw [places_pending hf, not_and] at hp
      by_cases hfits : Fits (ptr.get w.proto) length
      · have hroom := hasRoom_blank hfits hblank
        refine wp_mono (processLoop_places h hlength ((places_pending hf).mpr ⟨rfl, hroom⟩)) ?_
        rintro _ w' ⟨-, -, hs⟩ - bytes hs'
        obtain rfl := hs.unique hs'
        exact hp rfl hroom
      · cases hn : vecLimit (ptr.get w.proto) length with
        | none => exact processLoop_overflow hn hf
        | some n =>
          obtain ⟨rfl, hlt⟩ := recordSize_eq hn hlength
          have hlarge : FRAME_SIZE < recordSize (ptr.get w.proto) length + SIZEOF_VEC :=
            lt_of_not_ge fun hle => hfits ⟨hlength, hle⟩
          refine wp_mono (processLoop_stuck hn hlt hlarge h hf (hblank f hf)) ?_
          rintro _ _ rfl hdone
          cases hdone
  cases hf : w.proto.frame with
  | some f => exact hloop w h f hf hblank hp
  | none =>
    cases k with
    | zero => exact fun hdone => by cases hdone
    | succ k =>
      rw [wp_allocateFirst hf]
      cases ho : offer env.toContext w with
      | none =>
        rintro - bytes hs
        rw [places_none hf, ho] at hp
        refine hp ⟨?_, fun hn => absurd rfl hn⟩
        refine Settled.unique (s := w.proto) (Or.inl ⟨rfl, asked_placed, rfl⟩) hs
      | some f =>
        refine wp_mono (hloop _ (backend_allocated h (owner_of_offer ho)) f rfl blank_allocated
          (mt (places_allocated hlength hf ho).mpr hp)) ?_
        intro _ _ hno hdone bytes hs
        exact hno hdone bytes (hs.since asked_emergency.symm asked_placed.symm)

/-- The call ends with the record placed in a vector of the pending frame or printed. -/
def Processed (env : Env) (ptr : RecordPtr) (length : ℤ) (w : World Dgram Syslog) : Prop :=
  ∃ rounds, wp (fun _ => False) (process env rounds ptr length) (fun done w' => done = true ∧
    ∃ bytes, Settled env (ptr.get w.proto) length w.proto bytes w') w

/-- The record is placed behind the pending frame, which is sent. It stays as it is while this is
logged, and fits the next frame. If the pool gave none, it is asked again. -/
def PlacesNext (env : Env) (ptr : RecordPtr) (length : ℤ) (w : World Dgram Syslog) (f : FrameId) :
    Prop :=
  match offer env.toContext w with
  | some _ => ptr.get (sent env w f true) = ptr.get w.proto ∧ Fits (ptr.get w.proto) length
  | none => ∀ w', send env (reenter env) true w = .ok ((), w') →
      ptr.get (asked env w') = ptr.get w.proto ∧
        (offer env.toContext w' ≠ none → Fits (ptr.get w.proto) length)

/-- The length is no negative number, and the record finds its place. It may also find it when the
pending frame, which has records, was sent. -/
def Placeable (env : Env) (ptr : RecordPtr) (length : ℤ) (w : World Dgram Syslog) : Prop :=
  0 ≤ length ∧ (Places env ptr (ptr.get w.proto) length w ∨
    ∃ f, w.proto.frame = some f ∧ (w.heap f).vecs ≠ [] ∧
      vecLimit (ptr.get w.proto) length ≠ none ∧ PlacesNext env ptr length w f)

theorem placesNext_iff (h : Backend w) (hlength : 0 ≤ length) (hf : w.proto.frame = some f)
    (hv : (w.heap f).vecs ≠ []) (hm : send env (reenter env) true w = .ok ((), w')) :
    PlacesNext env ptr length w f ↔ Places env ptr (ptr.get w.proto) length w' := by
  obtain ⟨-, hp', hblank, -⟩ := wp_ok (send_wp (E := fun _ => False) h hf hv true fun _ _ => rfl) hm
  have hframe : w'.proto.frame = offer env.toContext w := by rw [hp']; rfl
  rw [PlacesNext]
  cases ho : offer env.toContext w with
  | none =>
    rw [places_none (hframe.trans ho)]
    refine ⟨fun hnext => hnext w' hm, fun hp w'' hm' => ?_⟩
    obtain rfl : w' = w'' := (Prod.mk.inj (Except.ok.inj (hm.symm.trans hm'))).2
    exact hp
  | some g =>
    have hg := hframe.trans ho
    rw [places_pending hg, hp']
    exact and_congr_right fun _ => ⟨fun hfits => hasRoom_blank hfits hblank,
      fun hroom => hroom.fits hlength hg⟩

/-- A record that finds its place is settled within two rounds, and only the frame that is sent in
the first round may be lost. -/
theorem processLoop_placeable (h : Backend w) (hp : Placeable env ptr length w) :
    wp E (processLoop env ptr length (k + 2)) (fun done w' => done = true ∧ Backend w' ∧
      ∃ bytes, Settled env (ptr.get w.proto) length w.proto bytes w' ∧
        (w.socket.writeOpen = true ∨ HasRoom (recordSize (ptr.get w.proto) length) w →
          bytes = handed w)) w := by
  obtain ⟨hlength, hp⟩ := hp
  have hplaces (hp : Places env ptr (ptr.get w.proto) length w) :
      wp E (processLoop env ptr length (k + 2)) (fun done w' => done = true ∧ Backend w' ∧
        ∃ bytes, Settled env (ptr.get w.proto) length w.proto bytes w' ∧
          (w.socket.writeOpen = true ∨ HasRoom (recordSize (ptr.get w.proto) length) w →
            bytes = handed w)) w :=
    wp_mono (processLoop_places h hlength hp) fun _ _ ⟨hdone, hb, hs⟩ =>
      ⟨hdone, hb, _, hs, fun _ => rfl⟩
  rcases hp with hp | ⟨f, hf, hv, hn, hnext⟩
  · exact hplaces hp
  by_cases hroom : HasRoom (recordSize (ptr.get w.proto) length) w
  · exact hplaces ((places_pending hf).mpr ⟨rfl, hroom⟩)
  · obtain ⟨n, hn⟩ := Option.ne_none_iff_exists'.mp hn
    obtain ⟨rfl, hlt⟩ := recordSize_eq hn hlength
    have hsize : FRAME_SIZE < (w.heap f).span + recordSize (ptr.get w.proto) length +
        SIZEOF_VEC * ((w.heap f).vecLimit + 1) := by
      simpa [HasRoom, hf] using hroom
    obtain ⟨_, w₁, hm, h₁, hp₁, -, hkept⟩ :=
      wp_returns (send_wp (E := fun _ => False) h hf hv true fun _ _ => rfl)
    have hplace := (placesNext_iff h hlength hf hv hm).mp hnext
    rw [wp_placeRecord h hf hn hlt, if_pos hsize, wp_iff_of_ok hm]
    refine wp_mono (processLoop_places h₁ hlength hplace) ?_
    rintro _ w₂ ⟨hdone, h₂, hs⟩
    exact ⟨hdone, h₂, _, hs.since (by rw [hp₁, sent_emergency]) (by rw [hp₁, sent_placed]),
      fun hopen => hkept (hopen.resolve_right hroom)⟩

/-- A record that does not find its place is not settled, also when the pending frame was sent. -/
theorem processLoop_unplaceable (h : Backend w) (hlength : 0 ≤ length)
    (hp : ¬Placeable env ptr length w) :
    wp (fun _ => True) (processLoop env ptr length k) (fun done w' => done = true →
      ∀ bytes, ¬Settled env (ptr.get w.proto) length w.proto bytes w') w := by
  obtain ⟨hno, hnext⟩ := not_or.mp fun hp' => hp ⟨hlength, hp'⟩
  by_cases hblank : Blank w
  · exact processLoop_unplaced h hlength hblank hno
  obtain ⟨f, hf, hv⟩ : ∃ f, w.proto.frame = some f ∧ (w.heap f).vecs ≠ [] := by
    simpa [Blank] using hblank
  cases k with
  | zero => exact fun hdone => by cases hdone
  | succ k =>
    cases hn : vecLimit (ptr.get w.proto) length with
    | none => exact processLoop_overflow hn hf
    | some n =>
      obtain ⟨rfl, hlt⟩ := recordSize_eq hn hlength
      have hsize : FRAME_SIZE < (w.heap f).span + recordSize (ptr.get w.proto) length +
          SIZEOF_VEC * ((w.heap f).vecLimit + 1) := by
        by_contra hle
        refine hno ((places_pending hf).mpr ⟨rfl, fun g hg => ?_⟩)
        obtain rfl : f = g := Option.some.inj (hf.symm.trans hg)
        exact not_lt.mp hle
      obtain ⟨_, w₁, hm, h₁, hp₁, hblank₁, -⟩ :=
        wp_returns (send_wp (E := fun _ => False) h hf hv true fun _ _ => rfl)
      have hno₁ : ¬Places env ptr (ptr.get w.proto) length w₁ := fun hplace =>
        hnext ⟨f, hf, hv, by simp [hn], (placesNext_iff h hlength hf hv hm).mpr hplace⟩
      rw [wp_placeRecord h hf hn hlt, if_pos hsize, wp_iff_of_ok hm]
      refine wp_mono (processLoop_unplaced h₁ hlength hblank₁ hno₁) ?_
      intro _ _ hno₂ hdone bytes hs
      exact hno₂ hdone bytes (hs.since (by rw [hp₁, sent_emergency]) (by rw [hp₁, sent_placed]))

/-- A call with a record ends with the record placed or printed exactly when it finds its place. -/
theorem processed_iff (h : Backend w) :
    Processed env ptr length w ↔ Placeable env ptr length w := by
  constructor
  · rintro ⟨rounds, hrun⟩
    rw [process] at hrun
    split_ifs at hrun with hneg
    · exact hrun.elim
    by_contra hp
    obtain ⟨done, w', hm, hdone, bytes, hs⟩ := wp_returns hrun
    exact wp_ok (processLoop_unplaceable h (not_lt.mp hneg) hp) hm hdone bytes hs
  · intro hp
    refine ⟨2, ?_⟩
    rw [process, if_neg (not_lt.mpr hp.1)]
    exact wp_mono (processLoop_placeable h hp) fun _ _ ⟨hdone, _, bytes, hs, _⟩ =>
      ⟨hdone, bytes, hs⟩

/-- Without records in the pending frame, a record that does not find its place is not settled. -/
theorem not_processed (h : Backend w) (hlength : 0 ≤ length) (hblank : Blank w)
    (hp : ¬Places env ptr (ptr.get w.proto) length w) : ¬Processed env ptr length w := by
  rintro ⟨rounds, hrun⟩
  rw [process, if_neg (not_lt.mpr hlength)] at hrun
  obtain ⟨done, w', hm, hdone, bytes, hs⟩ := wp_returns hrun
  exact wp_ok (processLoop_unplaced h hlength hblank hp) hm hdone bytes hs

/-- The record stays as it is while a frame is asked for and a frame is sent: the caller keeps it,
or the pool gives a frame and no message is built in the static record. -/
def Spared (env : Env) (ptr : RecordPtr) (w : World Dgram Syslog) : Prop :=
  (∃ le, ptr = .caller le) ∨ offer env.toContext w ≠ none ∧
    ∀ m ∈ env.borrowing w.clock ++ env.borrowed (w.clock + 1) ++ env.writing (w.clock + 1),
      m.shared = false

/-- A record that fits an empty frame and stays as it is finds its place, if a frame that is full
can be sent. -/
theorem placeable_of_spared (hfits : Fits (ptr.get w.proto) length)
    (hopen : w.socket.writeOpen = true ∨ HasRoom (recordSize (ptr.get w.proto) length) w)
    (hs : (w.proto.frame ≠ none ∧ HasRoom (recordSize (ptr.get w.proto) length) w) ∨
      Spared env ptr w) : Placeable env ptr length w := by
  refine ⟨hfits.1, ?_⟩
  -- the static record is left alone by the messages of a frame that the pool gives
  have hborrow (hs : Spared env ptr w) : ptr.get (asked env w) = ptr.get w.proto := by
    rcases hs with ⟨le, rfl⟩ | ⟨ho, hshared⟩
    · rfl
    · have hasked : (asked env w).le = w.proto.le := by
        refine alerted_le fun m hm => hshared m ?_
        rw [borrowMessages, Env.answered, if_neg ho] at hm
        exact List.mem_append_left _ hm
      cases ptr with
      | static => exact hasked
      | caller => rfl
  cases hf : w.proto.frame with
  | none =>
    have hs := hs.resolve_left fun hn => hn.1 hf
    exact Or.inl ((places_none hf).mpr ⟨hborrow hs, fun _ => hfits⟩)
  | some f =>
    by_cases hroom : HasRoom (recordSize (ptr.get w.proto) length) w
    · exact Or.inl ((places_pending hf).mpr ⟨rfl, hroom⟩)
    have hs := hs.resolve_left fun hn => hroom hn.2
    have hopen := hopen.resolve_right hroom
    have hv : (w.heap f).vecs ≠ [] := fun hv => hroom (hasRoom_blank hfits fun g hg => by
      obtain rfl : f = g := Option.some.inj (hf.symm.trans hg)
      exact hv)
    refine Or.inr ⟨f, rfl, hv, by simp [vecLimit_eq hfits], ?_⟩
    rw [PlacesNext]
    rcases hs with ⟨le, rfl⟩ | ⟨ho, hshared⟩
    · cases offer env.toContext w with
      | none => exact fun _ _ => ⟨rfl, fun _ => hfits⟩
      | some g => exact ⟨rfl, hfits⟩
    · obtain ⟨g, hg⟩ := Option.ne_none_iff_exists'.mp ho
      have hsent : (sent env w f true).le = w.proto.le := by
        refine alerted_le fun m hm => hshared m ?_
        rw [sendMessages, if_pos rfl, borrowMessages, Env.answered, if_neg ho, writeMessages,
          if_pos hopen] at hm
        simpa [or_assoc] using hm
      rw [hg]
      refine ⟨?_, hfits⟩
      cases ptr with
      | static => exact hsent
      | caller => rfl

end Process

section Examples

/-- A connected socket that is idle. -/
def started (p : Syslog) : World Dgram Syslog :=
  (World.init Dgram.init p fun _ _ => 0).setSocket { Dgram.init with connect := true }

/-- The variables before anything was printed, with a record in the static variable. -/
def fresh (le : LogRecord) : Syslog := ⟨none, 0, le, [], [], []⟩

theorem backend_started (le : LogRecord) : Backend (started (fresh le)) := by
  have h := (Dgram.holds_init (π := Syslog) (fresh le) fun _ _ => 0).setSocket
    (s := { Dgram.init with connect := true }) ⟨rfl, rfl, id, rfl⟩
  exact ⟨⟨[], h, rfl, by rintro _ ⟨⟩, rfl⟩, fun _ => rfl, by rintro _ ⟨⟩⟩

/-- A system that answers every question, whose pool has a frame on offer. -/
def offeringEnv : Env where
  toEnv := { Dgram.idleEnv with framePool := fun c => some ⟨0, c⟩ }
  facility := 16
  format := '5'
  hostname := Log.ascii "host"
  domainname := Log.ascii "host.example"
  localtime := fun _ => ⟨70, 0, 1, 0, 0, 0⟩
  gmtime := fun _ => ⟨70, 0, 1, 0, 0, 0⟩
  realloc := fun _ => true
  now := fun _ => 0
  pid := 1
  appname := Log.ascii "app"
  outOfMemory := fun _ => .noZone
  pointer := fun _ => ⟨Log.ascii "0x7f0000000000", by decide⟩
  borrowing := fun _ => []
  borrowed := fun _ => []
  writing := fun _ => []

/-- A record with the message `hello`. -/
def hello : LogRecord where
  timestamp := 0
  pid := 1
  level := 73
  appname := Log.ascii "app"
  sd := some [⟨Log.ascii "user", Log.ascii "joe"⟩]
  message i := (Log.ascii "hello").getD i.toNat 0

theorem processed_iff_hello : Processed offeringEnv .static 5 (started (fresh hello)) := by
  have hoffer : offer offeringEnv.toContext (started (fresh hello)) = some ⟨0, 0⟩ := by
    simp [offer, offeringEnv, started, World.init]
  have hborrow : borrowMessages offeringEnv (started (fresh hello)) = [] := by
    rw [borrowMessages, hoffer]
    rfl
  refine (processed_iff (backend_started hello)).mpr ⟨by decide, .inl ((places_none rfl).mpr
    ⟨alerted_le fun m hm => ?_, fun _ => ⟨by decide, by decide⟩⟩)⟩
  rw [hborrow] at hm
  cases hm

/-- A message of 20337 bytes is too long for a frame, and its record is never settled. -/
theorem not_processed_long : ¬∀ (text : List UInt8) (env : Env) (w : World Dgram Syslog),
    Backend w → w.proto.le = (Log.logrecordBuild ⟨0, 1, []⟩ (fun _ => 0) 73 none (some text)).1 →
    Processed env .static
      (Log.logrecordBuild ⟨0, 1, []⟩ (fun _ => 0) 73 none (some text)).2 w := by
  obtain ⟨text, htext⟩ : ∃ text : List UInt8, text.length = 20337 :=
    ⟨List.replicate 20337 97, List.length_replicate⟩
  have hlength : (Log.logrecordBuild ⟨0, 1, []⟩ (fun _ => 0) 73 none (some text)).2 = 20337 := by
    change Log.printed text = 20337
    rw [Log.printed, htext]
    rfl
  intro h
  refine not_processed (backend_started _) (by rw [hlength]; decide) (by rintro _ ⟨⟩) (fun hp => ?_)
    (h text offeringEnv _ (backend_started _) rfl)
  obtain ⟨-, hfits⟩ := (places_none rfl).mp hp
  have hsize := (hfits (by simp [offer, offeringEnv, started, World.init])).2
  rw [recordSize, hlength] at hsize
  simp only [SIZEOF_VEC, FRAME_SIZE] at hsize
  omega

/-- Without a frame, the warning about the pool takes the place of the record. -/
theorem not_processed_exhausted : ¬Processed { offeringEnv with framePool := fun _ => none }
    .static 5 (started (fresh hello)) := by
  refine not_processed (backend_started _) (by decide) (by rintro _ ⟨⟩) fun hp => ?_
  obtain ⟨hle, -⟩ := (places_none rfl).mp hp
  exact absurd (congrArg LogRecord.level hle) (by decide)

end Examples

end States

end Syslog

end FrameTransporter
