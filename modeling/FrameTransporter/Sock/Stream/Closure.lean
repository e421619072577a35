import FrameTransporter.Sock.Stream.WriteSide

/-! # What every part of a stream keeps

Few places of the stream shut a side of it, note an error or end the reading. What
these places keep, and what every single step between them keeps, is kept by all
calls and events, with the delegate calling back in between.
-/

namespace FrameTransporter

open Hoare

namespace Stream

open ReadEvent WriteEvent SslError

variable {π : Type}

/-- The entry tells that the stream failed, or that reading ended. -/
def Final : Io → Prop
  | .error .. | .readEnd _ => True
  | _ => False

/-- The single steps that shut nothing, and the callbacks, respect an invariant and a relation. -/
structure SingleSteps (d : Delegate π) (I : World Stream π → Prop)
    (R : World Stream π → World Stream π → Prop) : Prop where
  step : ∀ w s, I w → Sparing w.socket s → I (w.setSocket s) ∧ R w (w.setSocket s)
  tick : ∀ w, I w → I w.tick ∧ R w w.tick
  record : ∀ w x, I w → ¬Final x → I (w.record x) ∧ R w (w.record x)
  setFrame : ∀ w f x, I w → I (w.setFrame f x) ∧ R w (w.setFrame f x)
  setOwner : ∀ w f r, I w → I (w.setOwner f r) ∧ R w (w.setOwner f r)
  callbacks : d.Preserves (fun _ => True) I R

/-- So do errors, and the handling of frames that may end the stream. -/
structure Parts (env : Env) (d : Delegate π) (I : World Stream π → Prop)
    (R : World Stream π → World Stream π → Prop) : Prop extends SingleSteps d I R where
  enqueueFrame : ∀ f, Preserves (fun _ => True) I R (Stream.enqueueFrame f)
  fail : ∀ e l, Preserves (fun _ => True) I R (Stream.error env d e l)
  writeEndOfStream : ∀ f, Preserves (fun _ => True) I R (Stream.writeEndOfStream env d f)

/-- And so do the places that end the reading or shut the TLS session. The latter are reached only
while a shutdown of the session is under way. -/
structure Whole (env : Env) (d : Delegate π) (I : World Stream π → Prop)
    (R : World Stream π → World Stream π → Prop) : Prop extends Parts env d I R where
  readShutdownNow : Preserves (fun _ => True) I R (Stream.readShutdownNow env d)
  cntlAbort : Preserves (fun _ => True) I R (Stream.cntlAbort env d)
  onSslSentShutdownEvent : ∀ w, I w → SSL_SHUTDOWN_WANT_WRITE ∈ w.socket.writeEvents ∨
    SSL_SHUTDOWN_WANT_READ ∈ w.socket.readEvents →
    wp (fun _ => True) (Stream.onSslSentShutdownEvent env d) (fun _ w' => I w' ∧ R w w') w

section Steps

variable {s s' s'' : Stream}

theorem Sparing.trans (h : Sparing s s') (h' : Sparing s' s'') : Sparing s s'' where
  readShutdown := h'.readShutdown.trans h.readShutdown
  readShutdownAt := h'.readShutdownAt.trans h.readShutdownAt
  writeShutdown := h'.writeShutdown.trans h.writeShutdown
  writeShutdownAt := h'.writeShutdownAt.trans h.writeShutdownAt
  writeOpen := h'.writeOpen.trans h.writeOpen
  shutWrite := h.shutWrite ∘ h'.shutWrite
  shutRead := h.shutRead ∘ h'.shutRead

theorem sparing_started (s : Stream) : Sparing s (started s) :=
  (sparing_readSetEvent s (by simp)).trans (sparing_writeSetEvent _ (by simp))

end Steps

namespace SingleSteps

variable {env : Env} {d : Delegate π} {I : World Stream π → Prop}
  {R : World Stream π → World Stream π → Prop} (hp : SingleSteps d I R)

include hp

theorem update {g : Stream → Stream} (hg : ∀ s, Sparing s (g s)) :
    Preserves (fun _ => True) I R (modifySocket g) := fun w h => hp.step w _ h (hg w.socket)

theorem query {α : Type} {q : ℕ → α} : Preserves (fun _ => True) I R (ask q) :=
  fun w h => hp.tick w h

theorem note {x : Io} (hx : ¬Final x) :
    Preserves (fun _ => True) I R (FrameTransporter.record x) := fun w h => hp.record w x h hx

theorem own (f : FrameId) (r : Owner) :
    Preserves (fun _ => True) I R (FrameTransporter.setOwner f r) := fun w h => hp.setOwner w f r h

theorem put (f : FrameId) (x : Frame) :
    Preserves (fun _ => True) I R (FrameTransporter.setFrame f x) := fun w h => hp.setFrame w f x h

theorem wantRead {a : Finset ReadEvent} (ha : SSL_SHUTDOWN_WANT_READ ∉ a) :
    Preserves (fun _ => True) I R (modifySocket (readSetEvent a)) :=
  hp.update fun s => sparing_readSetEvent s ha

theorem unsetRead (a : Finset ReadEvent) :
    Preserves (fun _ => True) I R (modifySocket (readUnsetEvent a)) :=
  hp.update (sparing_readUnsetEvent a)

theorem wantWrite {a : Finset WriteEvent} (ha : SSL_SHUTDOWN_WANT_WRITE ∉ a) :
    Preserves (fun _ => True) I R (modifySocket (writeSetEvent a)) :=
  hp.update fun s => sparing_writeSetEvent s ha

theorem unsetWrite (a : Finset WriteEvent) :
    Preserves (fun _ => True) I R (modifySocket (writeUnsetEvent a)) :=
  hp.update (sparing_writeUnsetEvent a)

theorem setReadFrame (f : Option FrameId) :
    Preserves (fun _ => True) I R (modifySocket fun s => { s with readFrame := f }) :=
  hp.update fun _ => ⟨rfl, rfl, rfl, rfl, rfl, id, id⟩

variable [IsPreorder (World Stream π) R]

theorem frameReturn (ctx : Context) (f : FrameId) :
    Preserves (fun _ => True) I R (FrameTransporter.frameReturn ctx f) := by
  unfold FrameTransporter.frameReturn
  refine preserves_getFrame fun x _ => ?_
  refine .ite _ (fun _ => preserves_throw) fun _ => .ite _ (fun _ => preserves_throw) fun _ =>
    .ite _ (fun _ => preserves_throw) fun _ => hp.query.bind fun next => ?_
  exact (hp.put f _).bind fun _ => (hp.own f _).bind fun _ => hp.note id

theorem poolBorrow (ctx : Context) (type : FrameType) (file : String) (line : ℕ) :
    Preserves (fun _ => True) I R (FrameTransporter.poolBorrow ctx type file line) := by
  unfold FrameTransporter.poolBorrow
  refine hp.query.bind fun r => preserves_get_bind fun w h => ?_
  cases r with
  | none => exact ⟨h, refl_of R w⟩
  | some f =>
    dsimp only
    rw [wp_ite]
    refine ⟨fun _ => ?_, fun _ => ⟨h, refl_of R w⟩⟩
    obtain ⟨h₁, k₁⟩ := hp.setFrame w f (Pool.resetFrame (w.heap f) type file line) h
    obtain ⟨h₂, k₂⟩ := hp.setOwner _ f .user h₁
    exact ⟨h₂, trans_of R k₁ k₂⟩

theorem releaseFrame (f : FrameId) (side : Char) :
    Preserves (fun _ => True) I R (Stream.releaseFrame env d f side) := by
  unfold Stream.releaseFrame
  refine (hp.own f _).bind fun _ => (hp.note (x := .release f side) id).bind fun _ => ?_
  cases hg : d.frameReturn with
  | none => exact hp.frameReturn env.toContext f
  | some g => exact hp.callbacks.frameReturn g hg f side

end SingleSteps

namespace Parts

variable {env : Env} {d : Delegate π} {I : World Stream π → Prop}
  {R : World Stream π → World Stream π → Prop} (hp : Parts env d I R)

include hp

theorem sslProtocolError (x : SslFailure) :
    Preserves (fun _ => True) I R (Stream.sslProtocolError env d x) := by
  unfold Stream.sslProtocolError
  exact .ite _ (fun _ => preserves_throw) fun _ => hp.fail none x.peek

variable [IsPreorder (World Stream π) R]

theorem writeParts : WriteParts env d I R where
  step w s h hs := hp.step w s h hs.toSparing
  tick := hp.tick
  sent w bytes h := hp.record w (.send bytes) h id
  obtained w f h := hp.record w (.obtained f) h id
  setFrame w f x h _ := hp.setFrame w f x h
  poolBorrow := hp.poolBorrow
  enqueueFrame := hp.enqueueFrame
  fail := hp.fail
  releaseFrame f := hp.releaseFrame f 'W'
  writeEndOfStream := hp.writeEndOfStream

theorem deliver (f : FrameId) (last : Bool) :
    Preserves (fun _ => True) I R (Stream.deliver d f last) := by
  unfold Stream.deliver
  exact preserves_getFrame fun x _ => (hp.own f _).bind fun _ =>
    (hp.note (x := .offer f x.type) id).bind fun _ => (hp.callbacks.read f).bind fun taken =>
    (hp.note (x := .read f x.contents taken last) id).bind fun _ => preserves_pure _

theorem deliverOrRelease (f : FrameId) (last : Bool) :
    Preserves (fun _ => True) I R (Stream.deliverOrRelease env d f last) := by
  unfold Stream.deliverOrRelease
  exact (hp.deliver f last).bind fun taken =>
    .ite _ (fun _ => preserves_pure _) fun _ => hp.releaseFrame f 'R'

theorem cntlReadPause (on : Bool) :
    Preserves (fun _ => True) I R (Stream.cntlReadPause (π := π) on) := by
  have hlevel : ∀ (l : ℤ) (s : Stream),
      Sparing s { s with readPauseLevel := s.readPauseLevel + l } :=
    fun _ _ => ⟨rfl, rfl, rfl, rfl, rfl, id, id⟩
  unfold Stream.cntlReadPause
  refine preserves_readSocket.bind fun s => .ite _ (fun _ => ?_) fun _ =>
    .ite _ (fun _ => preserves_throw) fun _ => ?_
  · exact (hp.update (hlevel 1)).bind fun _ => (Preserves.when _ fun _ => hp.unsetRead ∅).bind
      fun _ => preserves_pure _
  · exact (hp.update (hlevel (-1))).bind fun _ =>
      (Preserves.when _ fun _ => hp.wantRead (by simp)).bind fun _ => preserves_pure _

theorem pauseNoframes : Preserves (fun _ => True) I R (Stream.pauseNoframes (π := π)) := by
  have hnote : ∀ s : Stream, Sparing s { s with readPausedNoframes := true } := fun _ =>
    ⟨rfl, rfl, rfl, rfl, rfl, id, id⟩
  unfold Stream.pauseNoframes
  exact (hp.update hnote).bind fun _ => (hp.cntlReadPause true).bind fun _ => preserves_pure _

theorem uplinkPartial : Preserves (fun _ => True) I R (Stream.uplinkPartial env d) := by
  unfold Stream.uplinkPartial
  refine preserves_readSocket.bind fun s => ?_
  cases s.readFrame with
  | none => exact preserves_pure _
  | some f =>
    exact preserves_getFrame fun x _ => .when _ fun _ => (hp.setReadFrame none).bind fun _ =>
      hp.deliverOrRelease f true

theorem endOfStreamFrame :
    Preserves (fun _ => True) I R (Stream.endOfStreamFrame (π := π) env) := by
  unfold Stream.endOfStreamFrame
  refine preserves_readSocket.bind fun s => ?_
  cases s.readFrame with
  | none => exact hp.poolBorrow _ _ _ _
  | some f =>
    exact preserves_getFrame fun x _ => .ite _ (fun _ => (hp.setReadFrame none).bind fun _ =>
      (hp.put f _).bind fun _ => preserves_pure _) fun _ => hp.poolBorrow _ _ _ _

theorem fetchReadFrame : Preserves (fun _ => True) I R (Stream.fetchReadFrame env d) := by
  unfold Stream.fetchReadFrame
  cases hg : d.getReadFrame with
  | some g => exact hp.callbacks.getReadFrame g hg
  | none =>
    refine (hp.poolBorrow _ _ _ _).bind fun r => ?_
    cases r with
    | none => exact preserves_pure _
    | some f =>
      exact preserves_getFrame fun x _ => preserves_lift fun y _ =>
        (hp.put f y).bind fun _ => preserves_pure _

theorem takeReadFrame : Preserves (fun _ => True) I R (Stream.takeReadFrame env d) := by
  unfold Stream.takeReadFrame
  refine preserves_readSocket.bind fun s => .ite _ (fun _ => preserves_pure _) fun _ =>
    hp.fetchReadFrame.bind fun r => ?_
  cases r with
  | none => exact hp.pauseNoframes.bind fun _ => preserves_pure _
  | some f =>
    exact (hp.note id).bind fun _ => (hp.own f _).bind fun _ =>
      (hp.setReadFrame (some f)).bind fun _ => preserves_pure _

theorem uplink (f : FrameId) : Preserves (fun _ => True) I R (Stream.uplink d f) := by
  unfold Stream.uplink
  exact (hp.setReadFrame none).bind fun _ => (hp.deliver f false).bind fun taken =>
    .ite _ (fun _ => preserves_pure _) fun _ => (hp.own f _).bind fun _ => hp.setReadFrame (some f)

theorem uplinkAlone (f : FrameId) : Preserves (fun _ => True) I R (Stream.uplinkAlone d f) := by
  unfold Stream.uplinkAlone
  exact (hp.setReadFrame none).bind fun _ => (hp.deliver f false).bind fun taken =>
    .ite _ (fun _ => preserves_pure _) fun _ => preserves_readSocket.bind fun s =>
    .ite _ (fun _ => preserves_throw) fun _ => (hp.own f _).bind fun _ => hp.setReadFrame (some f)

theorem vecAdvanced (f : FrameId) (filled : Bool) :
    Preserves (fun _ => True) I R (Stream.vecAdvanced d f filled) := by
  have hcont : Preserves (fun _ => True) I R (do
      Stream.uplink d f
      let s ← getSocket
      return decide (READ_WANT_READ ∈ s.readEvents)) :=
    (hp.uplink f).bind fun _ => preserves_readSocket.bind fun _ => preserves_pure _
  unfold Stream.vecAdvanced
  refine preserves_readSocket.bind fun s => .ite _ (fun _ => ?_) fun _ => ?_
  · exact (Preserves.when _ fun _ => hp.uplinkAlone f).bind fun _ =>
      (hp.wantRead (by simp)).bind fun _ => preserves_pure _
  · refine preserves_getFrame fun x _ => preserves_lift fun r _ => ?_
    exact (hp.put f r.2).bind fun _ => .ite _ (fun _ => hcont) fun _ =>
      .ite _ (fun _ => hcont) fun _ => preserves_pure _

theorem sslReadAgain : Preserves (fun _ => True) I R (Stream.sslReadAgain (π := π) env) := by
  unfold Stream.sslReadAgain
  refine preserves_readSocket.bind fun s => hp.query.bind fun r => ?_
  cases r with
  | data b bs => exact preserves_pure _
  | failed x =>
    exact .ite _ (fun _ => hp.writeParts.await.bind fun _ => preserves_readSocket.bind fun _ =>
      hp.query) fun _ => preserves_pure _

theorem enableSsl (r : SslNew) : Preserves (fun _ => True) I R (Stream.enableSsl (π := π) r) := by
  have hssl : ∀ s : Stream, Sparing s { s with ssl := r.new } := fun _ =>
    ⟨rfl, rfl, rfl, rfl, rfl, id, id⟩
  have hstatus : ∀ s : Stream, Sparing s { s with sslStatus := 1 } := fun _ =>
    ⟨rfl, rfl, rfl, rfl, rfl, id, id⟩
  unfold Stream.enableSsl
  exact preserves_readSocket.bind fun s => .ite _ (fun _ => preserves_pure _) fun _ =>
    (hp.update hssl).bind fun _ => .ite _ (fun _ => preserves_pure _) fun _ =>
    (hp.wantWrite (by simp)).bind fun _ => (hp.wantRead (by simp)).bind fun _ =>
    (hp.unsetRead _).bind fun _ => (hp.update hstatus).bind fun _ => preserves_pure _

end Parts

namespace Whole

variable {env : Env} {d : Delegate π} {I : World Stream π → Prop}
  {R : World Stream π → World Stream π → Prop} [IsPreorder (World Stream π) R]
  (hp : Whole env d I R)

include hp

theorem recvPlain (v : Vec) (size : ℕ) :
    Preserves (fun _ => True) I R (Stream.recvPlain env d v size) := by
  have hclear : ∀ s : Stream, Sparing s { s with sysErrno := none, sslError := 0 } := fun _ =>
    ⟨rfl, rfl, rfl, rfl, rfl, id, id⟩
  unfold Stream.recvPlain
  refine preserves_readSocket.bind fun s => hp.query.bind fun r => ?_
  cases r with
  | failed e =>
    have hnote := hp.note (x := .recv v size []) id
    cases e with
    | EAGAIN => exact hnote.bind fun _ => (hp.wantRead (by simp)).bind fun _ => preserves_pure _
    | _ =>
      exact hnote.bind fun _ => (hp.fail (some _) 0).bind fun _ =>
        hp.readShutdownNow.bind fun _ => preserves_pure _
  | data bytes =>
    exact (hp.note (x := .recv v size (bytes.take size)) id).bind fun _ =>
      .ite _ (fun _ => (hp.update hclear).bind fun _ => hp.readShutdownNow.bind fun _ =>
        preserves_pure _) fun _ => preserves_pure _

theorem sslReadFailed (x : SslFailure) :
    Preserves (fun _ => True) I R (Stream.sslReadFailed env d x) := by
  have hset : ∀ (e : Option Errno) (s : Stream),
      Sparing s { s with sysErrno := e, sslError := 0 } :=
    fun _ _ => ⟨rfl, rfl, rfl, rfl, rfl, id, id⟩
  unfold Stream.sslReadFailed
  cases x.error with
  | SSL_ERROR_WANT_READ => exact (hp.wantRead (by simp)).bind fun _ => hp.unsetWrite _
  | SSL_ERROR_WANT_WRITE => exact (hp.unsetRead _).bind fun _ => hp.wantWrite (by simp)
  | SSL_ERROR_ZERO_RETURN =>
    exact .ite _ (fun _ => preserves_throw) fun _ => .ite _ (fun _ => preserves_throw) fun _ =>
      (hp.update (hset none)).bind fun _ => (hp.note (x := .shutdown .SHUT_RD) id).bind fun _ =>
      hp.readShutdownNow
  | SSL_ERROR_SYSCALL =>
    refine .ite _ (fun _ => .ite _ (fun _ => preserves_throw) fun _ => ?_) fun _ => ?_
    · exact (hp.update (hset x.errno)).bind fun _ => hp.readShutdownNow
    · exact (Preserves.when _ fun _ => hp.fail x.errno 0).bind fun _ => hp.readShutdownNow
  | SSL_ERROR_SSL => exact (hp.sslProtocolError x).bind fun _ => hp.readShutdownNow
  | _ => exact (hp.fail (errnoOrReset x) 0).bind fun _ => hp.readShutdownNow

theorem receive (v : Vec) (size : ℕ) :
    Preserves (fun _ => True) I R (Stream.receive env d v size) := by
  unfold Stream.receive
  refine preserves_readSocket.bind fun s => .ite _ (fun _ => hp.recvPlain v size) fun _ =>
    hp.sslReadAgain.bind fun r => ?_
  cases r with
  | data b bs =>
    exact (hp.note (x := .recv v size ((b :: bs).take size)) id).bind fun _ => preserves_pure _
  | failed x =>
    exact (hp.note (x := .recv v size []) id).bind fun _ => (hp.sslReadFailed x).bind fun _ =>
      preserves_pure _

theorem readVec (f : FrameId) : Preserves (fun _ => True) I R (Stream.readVec env d f) := by
  unfold Stream.readVec
  refine preserves_getFrame fun x _ => preserves_lift fun v _ => ?_
  cases v with
  | none => exact preserves_throw
  | some v =>
    refine .ite _ (fun _ => preserves_throw) fun _ => (hp.receive v _).bind fun r => ?_
    cases r with
    | none => exact preserves_pure _
    | some bytes =>
      exact preserves_lift fun y _ => (hp.put f y).bind fun _ => hp.vecAdvanced f _

theorem readLoop (n : ℕ) : Preserves (fun _ => True) I R (Stream.readLoop env d n) := by
  induction n with
  | zero => exact hp.wantRead (by simp)
  | succ n ih =>
    refine hp.takeReadFrame.bind fun r => ?_
    cases r with
    | none => exact preserves_pure _
    | some f =>
      exact (hp.readVec f).bind fun more => .ite _ (fun _ => ih) fun _ => preserves_pure _

theorem onReadEvent : Preserves (fun _ => True) I R (Stream.onReadEvent env d) := by
  unfold Stream.onReadEvent
  exact preserves_readSocket.bind fun s => .ite _ (fun _ => preserves_throw) fun _ => hp.readLoop _

theorem connected : Preserves (fun _ => True) I R (do
    FrameTransporter.record .connected
    d.connected
    Stream.onWriteEvent env d) :=
  (hp.note (x := .connected) id).bind fun _ => hp.callbacks.connected.bind fun _ =>
    hp.writeParts.onWriteEvent

theorem doHandshake : Preserves (fun _ => True) I R (Stream.doHandshake env d) := by
  have hdone : ∀ s : Stream, Sparing s { s with connecting := false, sslStatus := 2 } := fun _ =>
    ⟨rfl, rfl, rfl, rfl, rfl, id, id⟩
  unfold Stream.doHandshake
  refine preserves_readSocket.bind fun s => hp.query.bind fun r => ?_
  cases r with
  | completed verified =>
    exact .ite _ (fun _ => hp.fail _ _) fun _ => (hp.unsetWrite _).bind fun _ =>
      (hp.unsetRead _).bind fun _ => (hp.update sparing_started).bind fun _ =>
      (hp.update hdone).bind fun _ => hp.connected
  | failed x =>
    cases hx : x.error with
    | SSL_ERROR_WANT_READ =>
      simpa only [hx] using (hp.wantRead (by simp)).bind fun _ => hp.unsetWrite _
    | SSL_ERROR_WANT_WRITE =>
      simpa only [hx] using (hp.unsetRead _).bind fun _ => hp.wantWrite (by simp)
    | SSL_ERROR_SSL => simpa only [hx] using hp.sslProtocolError x
    | _ => simpa only [hx] using hp.fail (errnoOrReset x) 0

theorem onSslHandshakeEvent :
    Preserves (fun _ => True) I R (Stream.onSslHandshakeEvent env d) := by
  have hconf : ∀ s : Stream, Sparing s { s with sslHsconf := true } := fun _ =>
    ⟨rfl, rfl, rfl, rfl, rfl, id, id⟩
  unfold Stream.onSslHandshakeEvent
  exact preserves_readSocket.bind fun s => .ite _ (fun _ => preserves_throw) fun _ =>
    .ite _ (fun _ => preserves_throw) fun _ => (Preserves.when _ fun _ =>
      (hp.note (x := .setSslState s.sslServer) id).bind fun _ => hp.update hconf).bind fun _ =>
    hp.doHandshake

/-- The TLS session is shut while that is under way, and the rest follows. -/
theorem shutWhile {α : Type} {c : Stream → Prop} [DecidablePred c] {k : StreamM π α}
    (hc : ∀ s, c s → SSL_SHUTDOWN_WANT_WRITE ∈ s.writeEvents ∨
      SSL_SHUTDOWN_WANT_READ ∈ s.readEvents) (hk : Preserves (fun _ => True) I R k) :
    Preserves (fun _ => True) I R (do
      let s ← getSocket
      when (c s) <| Stream.onSslSentShutdownEvent env d
      k) := by
  refine preserves_getSocket_bind fun w h => ?_
  have hshut : wp (fun _ => True) (when (c w.socket) <| Stream.onSslSentShutdownEvent env d)
      (fun _ w' => I w' ∧ R w w') w := by
    rw [wp_when]
    exact ⟨fun hcs => hp.onSslSentShutdownEvent w h (hc _ hcs), fun _ => ⟨h, refl_of R w⟩⟩
  rw [wp_bind]
  refine wp_mono hshut ?_
  rintro _ w₁ ⟨h₁, k₁⟩
  refine wp_mono (hk w₁ h₁) ?_
  rintro _ w₂ ⟨h₂, k₂⟩
  exact ⟨h₂, trans_of R k₁ k₂⟩

theorem onWriteReady : Preserves (fun _ => True) I R (Stream.onWriteReady env d) := by
  unfold Stream.onWriteReady
  refine preserves_readSocket.bind fun s => (Preserves.when _ fun _ =>
    hp.writeParts.onWriteEvent).bind fun _ => preserves_readSocket.bind fun s => .when _ fun _ =>
    (Preserves.when _ fun _ => hp.onSslHandshakeEvent).bind fun _ => ?_
  exact hp.shutWhile (fun _ => Or.inl) (preserves_readSocket.bind fun s =>
    .when _ fun _ => hp.onReadEvent)

theorem onConnectEvent : Preserves (fun _ => True) I R (Stream.onConnectEvent env d) := by
  have hconn : ∀ s : Stream, Sparing s { s with connecting := false } := fun _ =>
    ⟨rfl, rfl, rfl, rfl, rfl, id, id⟩
  unfold Stream.onConnectEvent
  refine preserves_readSocket.bind fun s => .ite _ (fun _ => preserves_throw) fun _ =>
    hp.query.bind fun r => ?_
  cases r with
  | unknown => exact preserves_pure _
  | error e => exact hp.fail _ _
  | none =>
    refine (hp.unsetWrite _).bind fun _ => .ite _ (fun _ => .ite _ (fun _ => preserves_throw)
      fun _ => ?_) fun _ => ?_
    · exact (hp.wantWrite (by simp)).bind fun _ => (hp.wantRead (by simp)).bind fun _ =>
        hp.onWriteReady
    · exact (hp.update sparing_started).bind fun _ => (hp.update hconn).bind fun _ => hp.connected

theorem onWrite : Preserves (fun _ => True) I R (Stream.onWrite env d) := by
  unfold Stream.onWrite
  exact preserves_readSocket.bind fun s => (Preserves.when _ fun _ => hp.onConnectEvent).bind
    fun _ => hp.onWriteReady

theorem onRead : Preserves (fun _ => True) I R (Stream.onRead env d) := by
  have hstop : ∀ s : Stream, Sparing s { s with readWatcher := false } := fun _ =>
    ⟨rfl, rfl, rfl, rfl, rfl, id, id⟩
  unfold Stream.onRead
  refine preserves_readSocket.bind fun s => .ite _ (fun _ => hp.update hstop) fun _ =>
    (Preserves.when _ fun _ => hp.onReadEvent).bind fun _ => preserves_readSocket.bind fun s =>
    .when _ fun _ => (Preserves.when _ fun _ => hp.onSslHandshakeEvent).bind fun _ => ?_
  exact hp.shutWhile (fun _ hc => Or.inr hc.1) (preserves_readSocket.bind fun s =>
    .when _ fun _ => hp.writeParts.onWriteEvent)

theorem cntlCode (c : Cntl) : Preserves (fun _ => True) I R (Stream.cntlCode env d c) := by
  cases c with
  | READ_START => exact (hp.wantRead (by simp)).bind fun _ => preserves_pure _
  | READ_STOP => exact (hp.unsetRead _).bind fun _ => preserves_pure _
  | READ_PAUSE => exact hp.cntlReadPause true
  | READ_RESUME => exact hp.cntlReadPause false
  | WRITE_START => exact (hp.wantWrite (by simp)).bind fun _ => preserves_pure _
  | WRITE_STOP => exact (hp.unsetWrite _).bind fun _ => preserves_pure _
  | WRITE_SHUTDOWN => exact hp.writeParts.cntlWriteShutdown
  | ABORT => exact hp.cntlAbort

variable {allow : World Stream π → Event → Prop} [∀ w e, Decidable (allow w e)]

theorem call (c : Call) : Preserves (fun _ => True) I R (c.exec env d allow) := by
  have hset : ∀ (b : Bool) (s : Stream), Sparing s { s with readPartial := b } := fun _ _ =>
    ⟨rfl, rfl, rfl, rfl, rfl, id, id⟩
  refine preserves_get_bind fun w h => Preserves.when _ (fun _ => ?_) w h
  cases c with
  | write f => exact (hp.writeParts.write f).bind fun _ => preserves_pure _
  | cntl codes =>
    exact (cntlCodes_preserves fun c _ => hp.cntlCode c).bind fun _ => preserves_pure _
  | enableSsl r => exact (hp.enableSsl r).bind fun _ => preserves_pure _
  | setPartial b => exact hp.update (hset b)
  | borrow type => exact (hp.poolBorrow _ _ _ _).bind fun _ => preserves_pure _
  | frameReturn f => exact hp.frameReturn env.toContext f
  | fill f type vecs vecPosition data => exact preserves_getFrame fun x _ => hp.put f _

theorem event (e : Event) : Preserves (fun _ => True) I R (e.exec env d allow) := by
  have hstop : ∀ s : Stream, Sparing s { s with readWatcher := false, writeWatcher := false } :=
    fun _ => ⟨rfl, rfl, rfl, rfl, rfl, id, id⟩
  cases e with
  | call c => exact hp.call c
  | read => exact preserves_get_bind fun w h => Preserves.when _ (fun _ => hp.onRead) w h
  | write => exact preserves_get_bind fun w h => Preserves.when _ (fun _ => hp.onWrite) w h
  | error =>
    exact preserves_get_bind fun w h => Preserves.when _ (fun _ =>
      (hp.update hstop).bind fun _ => hp.fail _ _) w h

end Whole

/-- What all parts keep, whatever the delegate does that keeps it, is kept by every run. -/
theorem run_keeps {env : Env} {I : World Stream π → Prop}
    {R : World Stream π → World Stream π → Prop} [IsPreorder (World Stream π) R]
    {allow : World Stream π → Event → Prop} [∀ w e, Decidable (allow w e)]
    (hp : ∀ d : Delegate π, d.Preserves (fun _ => True) I R → Whole env d I R)
    (htick : ∀ w, I w → I w.tick ∧ R w w.tick)
    (hframe : ∀ w f x, I w → I (w.setFrame f x) ∧ R w (w.setFrame f x))
    (script : Script) (n : ℕ) (events : List Event) :
    Preserves (fun _ => True) I R (run env (scripted env allow script n) allow events) := by
  have hd : (scripted env allow script n).Preserves (fun _ => True) I R :=
    scripted_preserves htick (fun w f _ _ _ h _ => hframe w f _ h)
      (fun d hd c => (hp d hd).call c) n
  exact preserves_forM fun e _ => (hp _ hd).event e

end Stream

end FrameTransporter
