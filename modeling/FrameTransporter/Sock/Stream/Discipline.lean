import FrameTransporter.Sock.Stream.Run

/-! # The stream as a transition system of its socket

Each function of the stream changes the socket in small updates. The updates form
a transition system of their own, in which frames, bytes and callbacks are gone.
An invariant of the updates is an invariant of every call and event, with the
delegate calling back in between, and so is a relation that all updates respect.
-/

namespace FrameTransporter

open Hoare Intrusive

namespace Stream

open ReadEvent WriteEvent SslError

/-- The socket once an error was noted, before the delegate is told. -/
def failed (now : ℚ) (sysErrno : Option Errno) (sslError : ℕ) (s : Stream) : Stream :=
  { s with
    sysErrno, sslError, writeOpen := false, readShutdown := true, writeShutdown := true
    writeShutdownAt := some now, readShutdownAt := some now }

/-- The socket with both watchers stopped. -/
def stopped (s : Stream) : Stream := { s with readWatcher := false, writeWatcher := false }

/-- The socket after one more pause. -/
def paused (s : Stream) : Stream :=
  if s.readPauseLevel + 1 = 1 then
    readUnsetEvent ∅ { s with readPauseLevel := s.readPauseLevel + 1 }
  else { s with readPauseLevel := s.readPauseLevel + 1 }

/-- The socket after one more resume. -/
def resumed (s : Stream) : Stream :=
  if s.readPauseLevel - 1 = 0 then
    readSetEvent ∅ { s with readPauseLevel := s.readPauseLevel - 1 }
  else { s with readPauseLevel := s.readPauseLevel - 1 }

theorem wp_cntlReadPause {π : Type} {E : Fault → Prop} {w : World Stream π} (on : Bool)
    {Q : Bool → World Stream π → Prop} : wp E (cntlReadPause on) Q w ↔
      if on = true then Q true (w.setSocket (paused w.socket))
      else if w.socket.readPauseLevel ≤ 0 then E (.abort .readPauseLevel)
      else Q true (w.setSocket (resumed w.socket)) := by
  unfold cntlReadPause paused resumed when
  rw [wp_bind, wp_getSocket]
  split
  · rw [wp_bind, wp_modifySocket]
    split <;> rfl
  · split
    · rfl
    · rw [wp_bind, wp_modifySocket]
      split <;> rfl

/-- The socket whose write side was shut down. -/
def writeShut (now : ℚ) (s : Stream) : Stream :=
  { s with writeShutdownAt := some now, writeShutdown := true }

/-- The updates of the socket, with what the code knows where it makes them. Loops run while the
stream is `Act`, which an application of this system chooses. -/
inductive Update (env : Env) (Act : Stream → Prop) (s : Stream) : Stream → Prop
  | note {readPartial readPausedNoframes sslHsconf : Bool} {readFrame : Option FrameId}
      {sysErrno : Option Errno} {sslError : ℕ} : Update env Act s { s with
        readPartial, readPausedNoframes, sslHsconf, readFrame, sysErrno, sslError }
  | dequeue {next : Option FrameId} {last : Link FrameId} {n : ℕ} (h : s.writeFrames ≠ none) :
      Update env Act s { s with writeFrames := next, writeFrameLast := last, writeQueueLength := n }
  | enqueue {writeOpen : Bool} {first : Option FrameId} {last : Link FrameId} {n : ℕ}
      (h : s.writeOpen = true) : Update env Act s { s with
        writeOpen, writeFrames := first, writeFrameLast := last, writeQueueLength := n }
  | stopWrite : Update env Act s (writeUnsetEvent {WRITE_WANT_WRITE} s)
  | wantWrite (h : s.connecting = false) : Update env Act s (writeSetEvent {WRITE_WANT_WRITE} s)
  | awaitWrite (h : Act s) : Update env Act s (awaitWrite s)
  | writable (h : s.connecting = false) : Update env Act s { s with writeReady := true }
  | takeWrite : Update env Act s { s with writeEvents := s.writeEvents \ {WRITE_WANT_WRITE} }
  | shutWrite {now : ℚ} (h : s.writeOpen = false) : Update env Act s (writeShut now s)
  | abort {now : ℚ} : Update env Act s (writeShut now s)
  | pause : Update env Act s (paused s)
  | resume (h : 0 < s.readPauseLevel) : Update env Act s (resumed s)
  | pausedEvent (h : 0 < s.readPauseLevel) : Update env Act s { s with readWatcher := false }
  | wantRead (h : Act s) : Update env Act s (readSetEvent {READ_WANT_READ} s)
  | shutRead :
      Update env Act s { readUnsetEvent {READ_WANT_READ} s with readShutdown := true }
  | connected (hc : s.connecting = true) (hs : s.ssl = false) : Update env Act s
      { started (writeUnsetEvent {CONNECT_WANT_WRITE} s) with connecting := false }
  | sslConnect (hc : s.connecting = true) (hs : s.ssl = true) (h1 : s.sslStatus = 1) :
      Update env Act s (readSetEvent {SSL_HANDSHAKE_WANT_READ}
        (writeSetEvent {SSL_HANDSHAKE_WANT_WRITE} (writeUnsetEvent {CONNECT_WANT_WRITE} s)))
  | handshakeDone (hs : s.ssl = true) (h1 : s.sslStatus = 1) : Update env Act s
      { started (readUnsetEvent {SSL_HANDSHAKE_WANT_READ}
          (writeUnsetEvent {SSL_HANDSHAKE_WANT_WRITE} s)) with connecting := false, sslStatus := 2 }
  | handshakeWantRead (hs : s.ssl = true) (h1 : s.sslStatus = 1) :
      Update env Act s
        (writeUnsetEvent {SSL_HANDSHAKE_WANT_WRITE} (readSetEvent {SSL_HANDSHAKE_WANT_READ} s))
  | handshakeWantWrite {n : ℕ} {x : SslFailure} (hs : s.ssl = true) (h1 : s.sslStatus = 1)
      (hr : env.sslDoHandshake s n = .failed x) (hx : x.error = SSL_ERROR_WANT_WRITE) :
      Update env Act s
        (writeSetEvent {SSL_HANDSHAKE_WANT_WRITE} (readUnsetEvent {SSL_HANDSHAKE_WANT_READ} s))
  | sslWriteWantRead (h : Act s) (hs : s.ssl = true) : Update env Act s
      (writeUnsetEvent {WRITE_WANT_WRITE} (readSetEvent {SSL_WRITE_WANT_READ} s))
  | sslWriteWantWrite {n : ℕ} {x : SslFailure} (h : Act s) (hs : s.ssl = true)
      (hr : env.sslWrite s n = .failed x) (hx : x.error = SSL_ERROR_WANT_WRITE) :
      Update env Act s (readUnsetEvent {SSL_WRITE_WANT_READ} (Stream.awaitWrite s))
  | sslReadWantRead (h : Act s) (hs : s.ssl = true) : Update env Act s
      (writeUnsetEvent {SSL_READ_WANT_WRITE} (readSetEvent {READ_WANT_READ} s))
  | sslReadWantWrite {n : ℕ} {x : SslFailure} (h : Act s) (hs : s.ssl = true)
      (hr : env.sslRead s n = .failed x) (hx : x.error = SSL_ERROR_WANT_WRITE) :
      Update env Act s (writeSetEvent {SSL_READ_WANT_WRITE} (readUnsetEvent {READ_WANT_READ} s))
  | sslShutWrite {now : ℚ} (hs : s.ssl = true) (h0 : s.sslStatus ≠ 0) :
      Update env Act s (writeShut now s)
  | sslShutSent {now : ℚ} (hs : s.ssl = true) (h0 : s.sslStatus ≠ 0) : Update env Act s
      (readSetEvent {SSL_SHUTDOWN_WANT_READ}
        (writeUnsetEvent {SSL_SHUTDOWN_WANT_WRITE} (writeShut now s)))
  | sslShutCompleted {n : ℕ} {now : ℚ} (hs : s.ssl = true) (h0 : s.sslStatus ≠ 0)
      (hr : env.sslShutdown s n = .completed) : Update env Act s
      (writeShut now (readSetEvent {SSL_SHUTDOWN_WANT_READ}
        (writeUnsetEvent {SSL_SHUTDOWN_WANT_WRITE} { s with sslStatus := 0 })))
  | sslShutWantRead (hs : s.ssl = true) (h0 : s.sslStatus ≠ 0) : Update env Act s
      (writeUnsetEvent {SSL_SHUTDOWN_WANT_WRITE} (readSetEvent {SSL_SHUTDOWN_WANT_READ} s))
  | sslShutWantWrite {n : ℕ} {x : SslFailure} (hs : s.ssl = true) (h0 : s.sslStatus ≠ 0)
      (hr : env.sslShutdown s n = .failed x) (hx : x.error = SSL_ERROR_WANT_WRITE) :
      Update env Act s
        (writeSetEvent {SSL_SHUTDOWN_WANT_WRITE} (readUnsetEvent {SSL_SHUTDOWN_WANT_READ} s))

/-- The error report from `s` runs the delegate in the socket `s₁`, and then stops the watchers. -/
def Reports (J : Stream → Prop) (K : Stream → Stream → Prop) (s s₁ : Stream) : Prop :=
  J s₁ ∧ ∀ t, J t → K s₁ t → J (stopped t) ∧ K s (stopped t)

/-- An invariant and a relation of all updates. The code asserts the phase of the connection where
it begins to read or to write; there the invariant is to give it, unless `E` admits its failure. -/
structure Discipline (env : Env) (E : Fault → Prop) (J Act : Stream → Prop)
    (K : Stream → Stream → Prop) : Prop where
  update : ∀ s s', J s → Update env Act s s' → J s' ∧ K s s'
  error : ∀ s now e l, J s → Reports J K s (failed now e l s)
  errorEvent : ∀ s now e l, J s → Reports J K s (failed now e l (stopped s))
  active : ∀ s s', Act s → K s s' → Act s'
  begin : ∀ s, J s → s.connecting = false → s.ssl = false ∨ s.sslStatus = 2 → Act s
  fault : ∀ a, a ≠ .phase → E (.abort a)
  enter : ∀ s, J s → Act s → s.writeFrames ≠ none → s.Established ∨ E (.abort .phase)
  enterSslRead : ∀ s, J s → SSL_READ_WANT_WRITE ∈ s.writeEvents →
    s.Established ∨ E (.abort .phase)
  enterSslWrite : ∀ s, J s → SSL_WRITE_WANT_READ ∈ s.readEvents → s.connecting = false →
    s.writeFrames ≠ none → s.Established ∨ E (.abort .phase)
  enterConnected : ∀ s s', J s → s.connecting = true → J s' → K s s' →
    WRITE_WANT_WRITE ∈ s'.writeEvents → s'.connecting = false → s'.writeFrames ≠ none →
    s'.Established ∨ E (.abort .phase)

/-- Every return of `m` keeps the invariant of the socket and is related to the socket before. -/
abbrev Respects {π α : Type} (E : Fault → Prop) (J : Stream → Prop) (K : Stream → Stream → Prop)
    (m : StreamM π α) : Prop :=
  Preserves E (OnSocket J) (SocketStep K) m

/-- As `Respects`, from one state. -/
def RespectsAt {π α : Type} (E : Fault → Prop) (J : Stream → Prop) (K : Stream → Stream → Prop)
    (m : StreamM π α) (w : World Stream π) : Prop :=
  wp E m (fun _ w' => J w'.socket ∧ K w.socket w'.socket) w

section Respects

variable {π α β : Type} {E : Fault → Prop} {J : Stream → Prop} {K : Stream → Stream → Prop}
  {w : World Stream π} {s : Stream} [IsPreorder Stream K]

omit [IsPreorder Stream K] in
theorem Respects.at {m : StreamM π α} (hm : Respects E J K m) (h : J w.socket) :
    RespectsAt E J K m w := hm w h

/-- What runs behind a step is related to the socket before the step. -/
theorem RespectsAt.behind {m : StreamM π α} {w₁ : World Stream π} (hm : RespectsAt E J K m w₁)
    (hK : K w.socket w₁.socket) :
    wp E m (fun _ w' => J w'.socket ∧ K w.socket w'.socket) w₁ := by
  refine wp_mono hm ?_
  rintro _ _ ⟨h', k'⟩
  exact ⟨h', trans_of K hK k'⟩

theorem RespectsAt.bind {m : StreamM π α} {k : α → StreamM π β} (hm : RespectsAt E J K m w)
    (hk : ∀ a w', J w'.socket → K w.socket w'.socket → RespectsAt E J K (k a) w') :
    RespectsAt E J K (m >>= k) w := by
  unfold RespectsAt at *
  rw [wp_bind]
  refine wp_mono hm ?_
  rintro a w₁ ⟨h₁, k₁⟩
  exact RespectsAt.behind (hk a w₁ h₁ k₁) k₁

omit [IsPreorder Stream K] in
theorem RespectsAt.ite {m m' : StreamM π α} {c : Prop} [Decidable c]
    (h : c → RespectsAt E J K m w) (h' : ¬c → RespectsAt E J K m' w) :
    RespectsAt E J K (if c then m else m') w := (wp_ite c m').mpr ⟨h, h'⟩

theorem RespectsAt.when {m : StreamM π Unit} {c : Prop} [Decidable c] (h : J w.socket)
    (hm : c → RespectsAt E J K m w) : RespectsAt E J K (when c m) w :=
  .ite hm fun _ => ⟨h, refl_of K _⟩

theorem respectsAt_pure (a : α) (h : J w.socket) : RespectsAt E J K (pure a) w := ⟨h, refl_of K _⟩

theorem respects_ask {q : ℕ → α} : Respects E J K (ask (σ := Stream) (π := π) q) :=
  preserves_of_socket fun _ => rfl

theorem respects_getSocket : Respects E J K (getSocket (σ := Stream) (π := π)) :=
  preserves_of_socket fun _ => rfl

theorem respects_getFrame (f : FrameId) : Respects E J K (getFrame (σ := Stream) (π := π) f) :=
  preserves_of_socket fun _ => rfl

theorem respects_setFrame (f : FrameId) (x : Frame) :
    Respects E J K (setFrame (σ := Stream) (π := π) f x) := preserves_of_socket fun _ => rfl

theorem respects_setOwner (f : FrameId) (o : Owner) :
    Respects E J K (setOwner (σ := Stream) (π := π) f o) := preserves_of_socket fun _ => rfl

theorem respects_record (x : Io) : Respects E J K (record (σ := Stream) (π := π) x) :=
  preserves_of_socket fun _ => rfl

end Respects

namespace Discipline

variable {π α : Type} {env : Env} {d : Delegate π} {E : Fault → Prop} {J Act : Stream → Prop}
  {K : Stream → Stream → Prop} {w : World Stream π} {f : FrameId} [IsPreorder Stream K]

section Steps

omit [IsPreorder Stream K] in
theorem update_at (D : Discipline env E J Act K) {g : Stream → Stream} (h : J w.socket)
    (hg : Update env Act w.socket (g w.socket)) : RespectsAt E J K (modifySocket g) w :=
  D.update _ _ h hg

/-- An update, and what follows it in the socket that it leaves. -/
theorem update_bind (D : Discipline env E J Act K) {g : Stream → Stream} {k : Unit → StreamM π α}
    (h : J w.socket) (hu : Update env Act w.socket (g w.socket))
    (hk : J (g w.socket) → RespectsAt E J K (k ()) (w.setSocket (g w.socket))) :
    RespectsAt E J K (modifySocket g >>= k) w := by
  obtain ⟨hJ, hK⟩ := D.update _ _ h hu
  unfold RespectsAt
  rw [wp_bind, wp_modifySocket]
  exact (hk hJ).behind hK

omit [IsPreorder Stream K] in
theorem throw_at (D : Discipline env E J Act K) {a : Assertion} (ha : a ≠ .phase) :
    RespectsAt E J K (throw (.abort a) : StreamM π α) w := D.fault a ha

theorem liftM_respects (D : Discipline env E J Act K) {r : Except Fault α}
    (hr : ∀ e, r = .error e → ∃ a ≠ Assertion.phase, e = .abort a) :
    Respects E J K (liftM r : StreamM π α) :=
  preserves_liftM fun e he => by
    obtain ⟨a, ha, rfl⟩ := hr e he
    exact D.fault a ha

theorem frameReturn_respects (D : Discipline env E J Act K) (ctx : Context) (f : FrameId) :
    Respects E J K (FrameTransporter.frameReturn (σ := Stream) (π := π) ctx f) :=
  preserves_of_socket fun _ =>
    frameReturn_socket (fun a ha => D.fault a (by rintro rfl; simp at ha))
    ctx f

theorem poolBorrow_respects (ctx : Context) (type : FrameType) (file : String) (line : ℕ) :
    Respects E J K (poolBorrow (σ := Stream) (π := π) ctx type file line) :=
  preserves_of_socket fun _ => poolBorrow_socket ctx type file line

end Steps

section Functions

omit [IsPreorder Stream K] in
theorem error_respects (D : Discipline env E J Act K)
    (hd : d.Preserves E (OnSocket J) (SocketStep K)) (e : Option Errno) (l : ℕ) :
    Respects E J K (Stream.error env d e l) := by
  intro w h
  unfold Stream.error
  rw [wp_ite]
  refine ⟨fun _ => D.fault _ (by simp), fun _ => ?_⟩
  rw [wp_bind, wp_ask, wp_bind, wp_modifySocket, wp_bind, wp_getSocket, wp_bind, wp_record, wp_bind]
  obtain ⟨h₁, hs⟩ := D.error _ (env.evNow w.clock) e l h
  refine wp_mono (hd.error _ h₁) ?_
  rintro _ w₂ ⟨h₂, k₂⟩
  exact hs w₂.socket h₂ k₂

theorem releaseFrame_respects (D : Discipline env E J Act K)
    (hd : d.Preserves E (OnSocket J) (SocketStep K)) (f : FrameId) (side : Char) :
    Respects E J K (releaseFrame env d f side) := by
  unfold releaseFrame
  refine (respects_setOwner f _).bind fun _ => (respects_record _).bind fun _ => ?_
  cases hg : d.frameReturn with
  | none => exact D.frameReturn_respects env.toContext f
  | some g => exact hd.frameReturn g hg f side

omit [IsPreorder Stream K] in
theorem sslProtocolError_respects (D : Discipline env E J Act K)
    (hd : d.Preserves E (OnSocket J) (SocketStep K)) (x : SslFailure) :
    Respects E J K (sslProtocolError env d x) := by
  unfold sslProtocolError
  exact .ite _ (fun _ _ _ => D.fault _ (by simp)) fun _ => D.error_respects hd none x.peek

theorem onSslSentShutdownEvent_respects (D : Discipline env E J Act K)
    (hd : d.Preserves E (OnSocket J) (SocketStep K)) :
    Respects E J K (onSslSentShutdownEvent env d) := by
  unfold onSslSentShutdownEvent
  refine preserves_getSocket_bind fun w h => ?_
  refine RespectsAt.ite (fun _ => D.throw_at (by simp)) fun h0 => ?_
  refine RespectsAt.ite (fun _ => D.throw_at (by simp)) fun hs => ?_
  have hs : w.socket.ssl = true := by simpa using hs
  unfold RespectsAt
  rw [wp_bind, wp_ask, wp_ite]
  refine ⟨fun _ => ?_, fun _ => ?_⟩
  · refine RespectsAt.when (w := w.tick) h fun _ => ?_
    unfold RespectsAt
    rw [wp_bind, wp_ask]
    exact D.update_at (w := w.tick.tick) h (.sslShutWrite hs h0)
  · rw [wp_bind, wp_ask]
    cases hr : env.sslShutdown w.socket w.tick.clock with
    | sent =>
      simp only [wp_bind, wp_ask, wp_modifySocket, World.setSocket_setSocket,
        World.setSocket_socket]
      exact D.update _ _ h (.sslShutSent hs h0)
    | completed =>
      simp only [wp_bind, wp_ask, wp_modifySocket, World.setSocket_setSocket,
        World.setSocket_socket, wp_record]
      exact D.update _ _ h (.sslShutCompleted hs h0 hr)
    | failed x =>
      dsimp only
      cases hx : x.error with
      | SSL_ERROR_WANT_READ =>
        simp only [wp_bind, wp_modifySocket, World.setSocket_setSocket, World.setSocket_socket]
        exact D.update _ _ h (.sslShutWantRead hs h0)
      | SSL_ERROR_WANT_WRITE =>
        simp only [wp_bind, wp_modifySocket, World.setSocket_setSocket, World.setSocket_socket]
        exact D.update _ _ h (.sslShutWantWrite hs h0 hr hx)
      | SSL_ERROR_SSL => exact D.sslProtocolError_respects hd x w.tick.tick h
      | _ => exact D.error_respects hd _ 0 w.tick.tick h

theorem writeEndOfStream_respects (D : Discipline env E J Act K)
    (hd : d.Preserves E (OnSocket J) (SocketStep K)) (h : J w.socket)
    (hf : w.socket.writeFrames ≠ none) : RespectsAt E J K (writeEndOfStream env d f) w := by
  unfold writeEndOfStream RespectsAt
  rw [wp_bind, wp_getFrame]
  refine RespectsAt.bind (D.update_at h (.dequeue hf)) fun _ w₁ h₁ k₁ => ?_
  refine ((D.releaseFrame_respects hd f 'W').at h₁).bind fun _ w₂ h₂ k₂ => ?_
  unfold RespectsAt
  rw [wp_bind, wp_getSocket]
  refine RespectsAt.ite (fun _ => D.throw_at (by simp)) fun ho => ?_
  have ho : w₂.socket.writeOpen = false := by simpa using ho
  refine D.update_bind h₂ .stopWrite fun h₃ => ?_
  refine RespectsAt.ite (fun _ => D.onSslSentShutdownEvent_respects hd _ h₃) fun _ => ?_
  have hw : (writeUnsetEvent {WRITE_WANT_WRITE} w₂.socket).writeOpen = false := by
    rw [writeUnsetEvent_eq]
    exact ho
  unfold RespectsAt
  rw [wp_bind, wp_ask, wp_bind, wp_modifySocket, wp_record]
  exact D.update _ _ h₃ (.shutWrite hw)

theorem sslWriteFailed_respects (D : Discipline env E J Act K)
    (hd : d.Preserves E (OnSocket J) (SocketStep K)) (h : J w.socket) (ha : Act w.socket)
    (hs : w.socket.ssl = true) {n : ℕ} {x : SslFailure}
    (hr : env.sslWrite w.socket n = .failed x) : RespectsAt E J K (sslWriteFailed env d x) w := by
  unfold sslWriteFailed
  cases hx : x.error with
  | SSL_ERROR_WANT_READ =>
    unfold RespectsAt
    rw [wp_bind, wp_modifySocket, wp_modifySocket, World.setSocket_setSocket]
    exact D.update _ _ h (.sslWriteWantRead ha hs)
  | SSL_ERROR_WANT_WRITE =>
    unfold RespectsAt
    rw [wp_bind, wp_modifySocket, wp_modifySocket, World.setSocket_setSocket]
    exact D.update _ _ h (.sslWriteWantWrite ha hs hr hx)
  | SSL_ERROR_SYSCALL =>
    refine RespectsAt.ite (fun _ => ?_) fun _ => D.error_respects hd _ 0 w h
    refine RespectsAt.bind (D.update_at h .note) fun _ w₁ h₁ _ => ?_
    exact D.update_at h₁ .stopWrite
  | SSL_ERROR_SSL => exact D.sslProtocolError_respects hd x w h
  | _ => exact D.error_respects hd _ 0 w h

/-- If bytes were taken then nothing happened to the socket. -/
theorem transmit_respects (D : Discipline env E J Act K)
    (hd : d.Preserves E (OnSocket J) (SocketStep K)) (h : J w.socket) (ha : Act w.socket)
    (bytes : List UInt8) :
    wp E (transmit env d bytes) (fun r w' => (J w'.socket ∧ K w.socket w'.socket) ∧
      (r ≠ none → w'.socket = w.socket)) w := by
  unfold transmit
  rw [wp_bind, wp_getSocket, wp_ite]
  refine ⟨fun _ => ?_, fun hs => ?_⟩
  · rw [wp_bind, wp_ask]
    cases env.send w.socket w.clock with
    | failed e =>
      have herr : wp E (Stream.error env d (some e) 0)
          (fun _ w' => J w'.socket ∧ K w.socket w'.socket) (w.tick.record (.send [])) :=
        D.error_respects hd (some e) 0 _ h
      cases e with
      | EAGAIN => exact ⟨D.update _ _ h (.awaitWrite ha), by simp⟩
      | _ =>
        simp only [wp_bind, wp_record]
        exact wp_mono herr fun _ _ h' => ⟨h', by simp⟩
    | sent n =>
      simp only [wp_bind, wp_record, wp_ite, wp_modifySocket, wp_pure]
      exact ⟨fun _ => ⟨D.update _ _ h (.awaitWrite ha), by simp⟩,
        fun _ => ⟨⟨h, refl_of K _⟩, fun _ => rfl⟩⟩
  · rw [wp_bind, wp_ask]
    cases hr : env.sslWrite w.socket w.clock with
    | failed x =>
      simp only [wp_bind, wp_record]
      refine wp_mono (D.sslWriteFailed_respects hd (w := w.tick.record (.send [])) h ha
        (by simpa using hs) hr) fun _ _ h' => ⟨h', by simp⟩
    | sent n => exact ⟨⟨h, refl_of K _⟩, fun _ => rfl⟩

theorem dequeueFrame_respects (D : Discipline env E J Act K)
    (hd : d.Preserves E (OnSocket J) (SocketStep K)) (h : J w.socket)
    (hf : w.socket.writeFrames ≠ none) : RespectsAt E J K (dequeueFrame env d f) w := by
  unfold dequeueFrame RespectsAt
  rw [wp_bind, wp_getSocket, wp_bind, wp_getFrame]
  refine RespectsAt.ite (fun _ => D.throw_at (by simp)) fun _ => ?_
  exact D.update_bind h (.dequeue hf) fun h₁ => D.releaseFrame_respects hd f 'W' _ h₁

theorem writeVec_respects (D : Discipline env E J Act K)
    (hd : d.Preserves E (OnSocket J) (SocketStep K)) (h : J w.socket) (ha : Act w.socket)
    (hf : w.socket.writeFrames ≠ none) : RespectsAt E J K (writeVec env d f) w := by
  unfold writeVec RespectsAt
  rw [wp_bind, wp_getFrame, wp_bind]
  cases hv : (w.heap f).getVec with
  | error e => exact Frame.getVec_error hv ▸ D.fault _ (by simp)
  | ok r =>
    cases r with
    | none => exact D.fault _ (by simp)
    | some v =>
      refine RespectsAt.ite (fun _ => D.throw_at (by simp)) fun _ => ?_
      unfold RespectsAt
      rw [wp_bind]
      refine wp_mono (D.transmit_respects hd h ha _) ?_
      rintro r w₁ ⟨⟨h₁, k₁⟩, hs⟩
      cases r with
      | none => exact ⟨h₁, k₁⟩
      | some n =>
        have hs : w₁.socket = w.socket := hs (by simp)
        rw [← hs] at ha hf ⊢
        dsimp only
        rw [wp_bind]
        cases hy : (w.heap f).advanceVec v n with
        | error e => rcases Frame.advanceVec_abort hy with rfl | rfl <;> exact D.fault _ (by simp)
        | ok y =>
          rw [wp_liftM_ok, wp_bind, wp_setFrame]
          refine RespectsAt.ite (fun _ => ?_) fun _ => ?_
          · refine RespectsAt.bind (D.update_at h₁ (.awaitWrite ha)) fun _ w₂ h₂ _ => ?_
            exact respectsAt_pure false h₂
          · unfold RespectsAt
            rw [wp_bind]
            cases hz : y.nextVec with
            | error e => exact Frame.nextVec_error hz ▸ D.fault _ (by simp)
            | ok z =>
              rw [wp_liftM_ok, wp_bind, wp_setFrame]
              refine RespectsAt.ite (fun _ => respectsAt_pure true h₁) fun _ => ?_
              refine RespectsAt.bind (D.dequeueFrame_respects hd h₁ hf) fun _ w₂ h₂ _ => ?_
              exact respectsAt_pure true h₂

theorem writeLoop_respects (D : Discipline env E J Act K)
    (hd : d.Preserves E (OnSocket J) (SocketStep K)) (n : ℕ) :
    ∀ {w : World Stream π}, J w.socket → Act w.socket → RespectsAt E J K (writeLoop env d n) w := by
  induction n with
  | zero =>
    intro w h ha
    unfold writeLoop
    exact ((respects_getSocket).at h).bind fun s w₁ h₁ k₁ =>
      RespectsAt.when h₁ fun _ => D.update_at h₁ (.awaitWrite (D.active _ _ ha k₁))
  | succ n ih =>
    intro w h ha
    unfold writeLoop RespectsAt
    rw [wp_bind, wp_getSocket]
    cases hf : w.socket.writeFrames with
    | none => exact respectsAt_pure () h
    | some f =>
      have hne : w.socket.writeFrames ≠ none := by simp [hf]
      rw [wp_bind, wp_getFrame]
      refine RespectsAt.ite (fun _ => D.writeEndOfStream_respects hd h hne) fun _ => ?_
      refine RespectsAt.bind (D.writeVec_respects hd h ha hne) fun more w₁ h₁ k₁ => ?_
      exact RespectsAt.ite (fun _ => ih h₁ (D.active _ _ ha k₁)) fun _ => respectsAt_pure () h₁

theorem writeReal_respects (D : Discipline env E J Act K)
    (hd : d.Preserves E (OnSocket J) (SocketStep K)) (h : J w.socket)
    (he : w.socket.Established ∨ E (.abort .phase)) : RespectsAt E J K (writeReal env d) w := by
  unfold writeReal RespectsAt
  rw [wp_bind, wp_getSocket]
  refine RespectsAt.ite (fun _ => D.throw_at (by simp)) fun _ => ?_
  refine RespectsAt.ite (fun hn => he.resolve_left hn) fun hest => ?_
  obtain ⟨hc, hs⟩ := not_not.mp hest
  exact D.writeLoop_respects hd _ h (D.begin _ h hc (hs.imp And.left And.right))

/-- A write event may find frames in the queue only in a phase for writing. -/
theorem onWriteEvent_respects (D : Discipline env E J Act K)
    (hd : d.Preserves E (OnSocket J) (SocketStep K)) (h : J w.socket)
    (he : w.socket.connecting = false → w.socket.writeFrames ≠ none →
      w.socket.Established ∨ E (.abort .phase)) : RespectsAt E J K (onWriteEvent env d) w := by
  unfold onWriteEvent RespectsAt
  rw [wp_bind, wp_getSocket]
  refine RespectsAt.ite (fun _ => D.throw_at (by simp)) fun hc => ?_
  have hc : w.socket.connecting = false := by simpa using hc
  refine D.update_bind h (.writable hc) fun h₁ => ?_
  refine RespectsAt.ite (fun hf => ?_) fun _ => D.update_at h₁ .stopWrite
  refine D.update_bind h₁ .takeWrite fun h₂ => ?_
  refine RespectsAt.bind (D.writeReal_respects hd h₂ (he hc hf)) fun _ w₃ h₃ _ => ?_
  refine RespectsAt.bind (respects_getSocket.at h₃) fun s w₄ h₄ _ => ?_
  exact RespectsAt.when h₄ fun _ => D.update_at h₄ .stopWrite

/-- A frame may be written at once only in a phase for writing. -/
theorem write_respects (D : Discipline env E J Act K)
    (hd : d.Preserves E (OnSocket J) (SocketStep K)) (f : FrameId) (h : J w.socket)
    (he : w.socket.writeOpen = true → w.socket.writeReady = true →
      w.socket.Established ∨ E (.abort .phase)) : RespectsAt E J K (Stream.write env d f) w := by
  unfold Stream.write RespectsAt
  rw [wp_bind, wp_getSocket]
  refine RespectsAt.ite (fun _ => respectsAt_pure false h) fun ho => ?_
  have ho : w.socket.writeOpen = true := by simpa using ho
  obtain ⟨h₁, k₁⟩ := D.update _ (queued w f).socket h (.enqueue ho)
  unfold RespectsAt
  rw [wp_bind, wp_enqueueFrame]
  apply RespectsAt.behind _ k₁
  refine RespectsAt.ite (fun _ => ?_) fun hr => ?_
  · refine RespectsAt.bind (RespectsAt.when h₁ fun hc => D.update_at h₁ (.wantWrite hc)) ?_
    exact fun _ w₂ h₂ _ => respectsAt_pure true h₂
  · refine RespectsAt.bind (D.writeReal_respects hd h₁ (he ho (by simpa using hr))) ?_
    exact fun _ w₂ h₂ _ => respectsAt_pure true h₂

theorem cntlWriteShutdown_respects (D : Discipline env E J Act K)
    (hd : d.Preserves E (OnSocket J) (SocketStep K)) (h : J w.socket)
    (he : w.socket.writeOpen = true → w.socket.writeReady = true →
      w.socket.Established ∨ E (.abort .phase)) :
    RespectsAt E J K (cntlWriteShutdown env d) w := by
  unfold cntlWriteShutdown RespectsAt
  rw [wp_bind, wp_getSocket]
  refine RespectsAt.ite (fun _ => respectsAt_pure true h) fun _ => ?_
  refine RespectsAt.ite (fun _ => respectsAt_pure true h) fun _ => ?_
  unfold RespectsAt
  rw [wp_bind]
  refine wp_mono (poolBorrow_socket env.toContext .endOfStream "stream.c" 1189) fun r w₁ hs => ?_
  rw [← hs] at h he ⊢
  cases r with
  | none => exact respectsAt_pure false h
  | some f =>
    rw [wp_bind, wp_record]
    exact D.write_respects (w := w₁.record (.obtained f)) hd f h he

theorem deliver_respects (hd : d.Preserves E (OnSocket J) (SocketStep K)) (f : FrameId)
    (last : Bool) : Respects E J K (deliver d f last) := by
  unfold deliver
  exact (respects_getFrame f).bind fun _ => (respects_setOwner f _).bind fun _ =>
    (respects_record _).bind fun _ => (hd.read f).bind fun _ =>
      (respects_record _).bind fun _ => preserves_pure _

theorem deliverOrRelease_respects (D : Discipline env E J Act K)
    (hd : d.Preserves E (OnSocket J) (SocketStep K)) (f : FrameId) (last : Bool) :
    Respects E J K (deliverOrRelease env d f last) := by
  unfold deliverOrRelease
  refine (deliver_respects hd f last).bind fun taken => ?_
  exact .ite _ (fun _ => preserves_pure _) fun _ => D.releaseFrame_respects hd f 'R'

omit [IsPreorder Stream K] in
theorem cntlReadPause_respects (D : Discipline env E J Act K) (on : Bool) :
    Respects E J K (cntlReadPause (π := π) on) := by
  intro w h
  rw [wp_cntlReadPause]
  split
  · exact D.update _ _ h .pause
  · split
    · exact D.fault _ (by simp)
    · next hl => exact D.update _ _ h (.resume (not_le.mp hl))

theorem pauseNoframes_respects (D : Discipline env E J Act K) :
    Respects E J K (pauseNoframes (π := π)) := by
  unfold pauseNoframes
  intro w h
  refine RespectsAt.bind (D.update_at h .note) fun _ w₁ h₁ _ => ?_
  exact (D.cntlReadPause_respects true).at h₁ |>.bind fun _ w₂ h₂ _ => respectsAt_pure _ h₂

theorem uplinkPartial_respects (D : Discipline env E J Act K)
    (hd : d.Preserves E (OnSocket J) (SocketStep K)) : Respects E J K (uplinkPartial env d) := by
  unfold uplinkPartial
  refine respects_getSocket.bind fun s => ?_
  cases s.readFrame with
  | none => exact preserves_pure ()
  | some f =>
    refine (respects_getFrame f).bind fun x => ?_
    refine .when _ fun _ w h => ?_
    refine RespectsAt.bind (D.update_at h .note) fun _ w₁ h₁ _ => ?_
    exact D.deliverOrRelease_respects hd f true w₁ h₁

theorem endOfStreamFrame_respects (D : Discipline env E J Act K) :
    Respects E J K (endOfStreamFrame (π := π) env) := by
  unfold endOfStreamFrame
  refine respects_getSocket.bind fun s => ?_
  cases s.readFrame with
  | none => exact poolBorrow_respects _ _ _ _
  | some f =>
    refine (respects_getFrame f).bind fun x => ?_
    refine .ite _ (fun _ w h => ?_) fun _ => poolBorrow_respects _ _ _ _
    refine RespectsAt.bind (D.update_at h .note) fun _ w₁ h₁ _ => ?_
    exact (respects_setFrame f _).at h₁ |>.bind fun _ w₂ h₂ _ => respectsAt_pure _ h₂

theorem readShutdownNow_respects (D : Discipline env E J Act K)
    (hd : d.Preserves E (OnSocket J) (SocketStep K)) : Respects E J K (readShutdownNow env d) := by
  intro w h
  unfold readShutdownNow cntlReadStop
  rw [wp_bind, wp_bind, wp_modifySocket, wp_pure, wp_bind, wp_modifySocket]
  obtain ⟨h₁, k₁⟩ := D.update _ _ h .shutRead
  apply RespectsAt.behind _ k₁
  refine RespectsAt.bind (D.uplinkPartial_respects hd _ h₁) fun _ w₂ h₂ _ => ?_
  refine RespectsAt.bind (D.endOfStreamFrame_respects w₂ h₂) fun r w₃ h₃ _ => ?_
  refine RespectsAt.bind (respects_record _ w₃ h₃) fun _ w₄ h₄ _ => ?_
  cases r with
  | none => exact D.pauseNoframes_respects w₄ h₄
  | some f => exact D.deliverOrRelease_respects hd f false w₄ h₄

theorem fetchReadFrame_respects (D : Discipline env E J Act K)
    (hd : d.Preserves E (OnSocket J) (SocketStep K)) : Respects E J K (fetchReadFrame env d) := by
  unfold fetchReadFrame
  cases hg : d.getReadFrame with
  | some g => exact hd.getReadFrame g hg
  | none =>
    refine (poolBorrow_respects _ _ _ _).bind fun r => ?_
    cases r with
    | none => exact preserves_pure _
    | some f =>
      refine (respects_getFrame f).bind fun x => ?_
      refine (D.liftM_respects fun e he => ⟨_, by simp, Frame.formatSimple_error he⟩).bind ?_
      exact fun y => (respects_setFrame f y).bind fun _ => preserves_pure _

theorem takeReadFrame_respects (D : Discipline env E J Act K)
    (hd : d.Preserves E (OnSocket J) (SocketStep K)) : Respects E J K (takeReadFrame env d) := by
  unfold takeReadFrame
  refine respects_getSocket.bind fun s => ?_
  refine .ite _ (fun _ => preserves_pure _) fun _ => ?_
  refine (D.fetchReadFrame_respects hd).bind fun r => ?_
  cases r with
  | none => exact D.pauseNoframes_respects.bind fun _ => preserves_pure _
  | some f =>
    refine (respects_record _).bind fun _ => (respects_setOwner f _).bind fun _ w h => ?_
    exact RespectsAt.bind (D.update_at h .note) fun _ w₁ h₁ _ => respectsAt_pure _ h₁

theorem recvPlain_respects (D : Discipline env E J Act K)
    (hd : d.Preserves E (OnSocket J) (SocketStep K)) (v : Vec) (size : ℕ) (h : J w.socket)
    (ha : Act w.socket) : RespectsAt E J K (recvPlain env d v size) w := by
  unfold recvPlain RespectsAt
  rw [wp_bind, wp_getSocket, wp_bind, wp_ask]
  cases env.recv w.socket w.clock with
  | failed e =>
    have hfail : RespectsAt E J K (do
        FrameTransporter.record (.recv v size [])
        Stream.error env d (some e) 0
        readShutdownNow env d
        return (none : Option (List UInt8))) w.tick := by
      refine (respects_record _).at (w := w.tick) h |>.bind fun _ w₁ h₁ _ => ?_
      refine RespectsAt.bind (D.error_respects hd (some e) 0 w₁ h₁) fun _ w₂ h₂ _ => ?_
      refine RespectsAt.bind (D.readShutdownNow_respects hd w₂ h₂) fun _ w₃ h₃ _ => ?_
      exact respectsAt_pure _ h₃
    cases e with
    | EAGAIN => exact D.update _ _ h (.wantRead ha)
    | _ => exact hfail
  | data bytes =>
    refine (respects_record _).at (w := w.tick) h |>.bind fun _ w₁ h₁ _ => ?_
    refine RespectsAt.ite (fun _ => ?_) fun _ => respectsAt_pure _ h₁
    refine RespectsAt.bind (D.update_at h₁ .note) fun _ w₂ h₂ _ => ?_
    refine RespectsAt.bind (D.readShutdownNow_respects hd w₂ h₂) fun _ w₃ h₃ _ => ?_
    exact respectsAt_pure _ h₃

/-- A failure of `SSL_read` is one in the current state of the socket. -/
theorem sslReadAgain_respects (D : Discipline env E J Act K) (h : J w.socket) (ha : Act w.socket) :
    wp E (sslReadAgain (π := π) env) (fun r w' => (J w'.socket ∧ K w.socket w'.socket) ∧
      w'.socket.ssl = w.socket.ssl ∧
      ∀ x, r = .failed x → ∃ n, env.sslRead w'.socket n = .failed x) w := by
  unfold sslReadAgain
  rw [wp_bind, wp_getSocket, wp_bind, wp_ask]
  cases hr : env.sslRead w.socket w.clock with
  | data b bs => exact ⟨⟨h, refl_of K _⟩, rfl, by simp⟩
  | failed x =>
    dsimp only
    rw [wp_ite]
    refine ⟨fun _ => ?_, fun _ => ⟨⟨h, refl_of K _⟩, rfl, fun y hy => ⟨_, hr.trans hy⟩⟩⟩
    rw [wp_bind, wp_modifySocket, wp_bind, wp_getSocket, wp_ask]
    refine ⟨D.update _ _ h (.awaitWrite ha), ?_, fun y hy => ⟨_, hy⟩⟩
    simp [awaitWrite, writeSetEvent_eq]

theorem sslReadFailed_respects (D : Discipline env E J Act K)
    (hd : d.Preserves E (OnSocket J) (SocketStep K)) (h : J w.socket) (ha : Act w.socket)
    (hs : w.socket.ssl = true) {n : ℕ} {x : SslFailure}
    (hr : env.sslRead w.socket n = .failed x) : RespectsAt E J K (sslReadFailed env d x) w := by
  have hshut : ∀ {w : World Stream π}, J w.socket → RespectsAt E J K (readShutdownNow env d) w :=
    fun h => D.readShutdownNow_respects hd _ h
  unfold sslReadFailed
  cases hx : x.error with
  | SSL_ERROR_WANT_READ =>
    unfold RespectsAt
    rw [wp_bind, wp_modifySocket, wp_modifySocket, World.setSocket_setSocket]
    exact D.update _ _ h (.sslReadWantRead ha hs)
  | SSL_ERROR_WANT_WRITE =>
    unfold RespectsAt
    rw [wp_bind, wp_modifySocket, wp_modifySocket, World.setSocket_setSocket]
    exact D.update _ _ h (.sslReadWantWrite ha hs hr hx)
  | SSL_ERROR_ZERO_RETURN =>
    refine RespectsAt.ite (fun _ => D.throw_at (by simp)) fun _ => ?_
    refine RespectsAt.ite (fun _ => D.throw_at (by simp)) fun _ => ?_
    refine RespectsAt.bind (D.update_at h .note) fun _ w₁ h₁ _ => ?_
    exact (respects_record _).at h₁ |>.bind fun _ w₂ h₂ _ => hshut h₂
  | SSL_ERROR_SYSCALL =>
    refine RespectsAt.ite (fun _ => ?_) fun _ => ?_
    · refine RespectsAt.ite (fun _ => D.throw_at (by simp)) fun _ => ?_
      exact RespectsAt.bind (D.update_at h .note) fun _ w₁ h₁ _ => hshut h₁
    · refine RespectsAt.bind (RespectsAt.when h fun _ => D.error_respects hd _ 0 w h) ?_
      exact fun _ w₁ h₁ _ => hshut h₁
  | SSL_ERROR_SSL =>
    exact RespectsAt.bind (D.sslProtocolError_respects hd x w h) fun _ w₁ h₁ _ => hshut h₁
  | _ => exact RespectsAt.bind (D.error_respects hd _ 0 w h) fun _ w₁ h₁ _ => hshut h₁

theorem receive_respects (D : Discipline env E J Act K)
    (hd : d.Preserves E (OnSocket J) (SocketStep K)) (v : Vec) (size : ℕ) (h : J w.socket)
    (ha : Act w.socket) : RespectsAt E J K (receive env d v size) w := by
  unfold receive RespectsAt
  rw [wp_bind, wp_getSocket]
  refine RespectsAt.ite (fun _ => D.recvPlain_respects hd v size h ha) fun hs => ?_
  unfold RespectsAt
  rw [wp_bind]
  refine wp_mono (D.sslReadAgain_respects h ha) ?_
  rintro r w₁ ⟨⟨h₁, k₁⟩, hssl, hr⟩
  cases r with
  | data b bs => exact ⟨h₁, k₁⟩
  | failed x =>
    obtain ⟨n, hn⟩ := hr x rfl
    have hs₁ : w₁.socket.ssl = true := by simpa [hssl] using hs
    have hf := D.sslReadFailed_respects hd (w := w₁.record (.recv v size [])) h₁
      (D.active _ _ ha k₁) hs₁ hn
    rw [wp_bind, wp_record, wp_bind]
    exact hf.behind k₁

theorem uplink_respects (D : Discipline env E J Act K)
    (hd : d.Preserves E (OnSocket J) (SocketStep K)) (f : FrameId) :
    Respects E J K (uplink d f) := by
  intro w h
  unfold uplink
  refine RespectsAt.bind (D.update_at h .note) fun _ w₁ h₁ _ => ?_
  refine RespectsAt.bind (deliver_respects hd f false w₁ h₁) fun taken w₂ h₂ _ => ?_
  refine RespectsAt.ite (fun _ => respectsAt_pure () h₂) fun _ => ?_
  exact RespectsAt.bind (respects_setOwner f _ w₂ h₂) fun _ w₃ h₃ _ => D.update_at h₃ .note

theorem uplinkAlone_respects (D : Discipline env E J Act K)
    (hd : d.Preserves E (OnSocket J) (SocketStep K)) (f : FrameId) :
    Respects E J K (uplinkAlone d f) := by
  intro w h
  unfold uplinkAlone
  refine RespectsAt.bind (D.update_at h .note) fun _ w₁ h₁ _ => ?_
  refine RespectsAt.bind (deliver_respects hd f false w₁ h₁) fun taken w₂ h₂ _ => ?_
  refine RespectsAt.ite (fun _ => respectsAt_pure () h₂) fun _ => ?_
  refine RespectsAt.bind (respects_getSocket.at h₂) fun s w₃ h₃ _ => ?_
  refine RespectsAt.ite (fun _ => D.throw_at (by simp)) fun _ => ?_
  exact RespectsAt.bind (respects_setOwner f _ w₃ h₃) fun _ w₄ h₄ _ => D.update_at h₄ .note

theorem vecAdvanced_respects (D : Discipline env E J Act K)
    (hd : d.Preserves E (OnSocket J) (SocketStep K)) (f : FrameId) (filled : Bool)
    (h : J w.socket) (ha : Act w.socket) : RespectsAt E J K (vecAdvanced d f filled) w := by
  have hup : Respects E J K (do
      uplink d f
      let s ← getSocket
      return decide (READ_WANT_READ ∈ s.readEvents)) :=
    (D.uplink_respects hd f).bind fun _ => respects_getSocket.bind fun _ => preserves_pure _
  unfold vecAdvanced RespectsAt
  rw [wp_bind, wp_getSocket]
  refine RespectsAt.ite (fun _ => ?_) fun _ => ?_
  · refine RespectsAt.bind (RespectsAt.when h fun _ => D.uplinkAlone_respects hd f w h) ?_
    intro _ w₁ h₁ k₁
    refine RespectsAt.bind (D.update_at h₁ (.wantRead (D.active _ _ ha k₁))) fun _ w₂ h₂ _ => ?_
    exact respectsAt_pure false h₂
  · refine (respects_getFrame f).at h |>.bind fun x w₁ h₁ _ => ?_
    refine (D.liftM_respects fun e he => ⟨_, by simp, Frame.nextVec_error he⟩).at h₁ |>.bind ?_
    rintro ⟨more, y⟩ w₂ h₂ -
    refine (respects_setFrame f y).at h₂ |>.bind fun _ w₃ h₃ _ => ?_
    refine RespectsAt.ite (fun _ => hup w₃ h₃) fun _ => ?_
    exact RespectsAt.ite (fun _ => hup w₃ h₃) fun _ => respectsAt_pure true h₃

theorem readVec_respects (D : Discipline env E J Act K)
    (hd : d.Preserves E (OnSocket J) (SocketStep K)) (f : FrameId) (h : J w.socket)
    (ha : Act w.socket) : RespectsAt E J K (readVec env d f) w := by
  unfold readVec
  refine (respects_getFrame f).at h |>.bind fun x w₁ h₁ k₁ => ?_
  refine (D.liftM_respects fun e he => ⟨_, by simp, Frame.getVec_error he⟩).at h₁ |>.bind ?_
  intro r w₂ h₂ k₂
  have ha₂ : Act w₂.socket := D.active _ _ (D.active _ _ ha k₁) k₂
  cases r with
  | none => exact D.throw_at (by simp)
  | some v =>
    refine RespectsAt.ite (fun _ => D.throw_at (by simp)) fun _ => ?_
    refine RespectsAt.bind (D.receive_respects hd v _ h₂ ha₂) fun r w₃ h₃ k₃ => ?_
    cases r with
    | none => exact respectsAt_pure false h₃
    | some bytes =>
      refine ((D.liftM_respects fun e he => ?_).at h₃).bind fun y w₄ h₄ k₄ => ?_
      · rcases Frame.advanceVec_abort he with rfl | rfl <;> exact ⟨_, by simp, rfl⟩
      refine (respects_setFrame f y).at h₄ |>.bind fun _ w₅ h₅ k₅ => ?_
      exact D.vecAdvanced_respects hd f _ h₅
        (D.active _ _ (D.active _ _ (D.active _ _ ha₂ k₃) k₄) k₅)

theorem readLoop_respects (D : Discipline env E J Act K)
    (hd : d.Preserves E (OnSocket J) (SocketStep K)) (n : ℕ) :
    ∀ {w : World Stream π}, J w.socket → Act w.socket → RespectsAt E J K (readLoop env d n) w := by
  induction n with
  | zero => exact fun h ha => D.update_at h (.wantRead ha)
  | succ n ih =>
    intro w h ha
    unfold readLoop
    refine RespectsAt.bind (D.takeReadFrame_respects hd w h) fun r w₁ h₁ k₁ => ?_
    have ha₁ : Act w₁.socket := D.active _ _ ha k₁
    cases r with
    | none => exact respectsAt_pure () h₁
    | some f =>
      refine RespectsAt.bind (D.readVec_respects hd f h₁ ha₁) fun more w₂ h₂ k₂ => ?_
      exact RespectsAt.ite (fun _ => ih h₂ (D.active _ _ ha₁ k₂)) fun _ => respectsAt_pure () h₂

theorem onReadEvent_respects (D : Discipline env E J Act K)
    (hd : d.Preserves E (OnSocket J) (SocketStep K)) (h : J w.socket)
    (he : w.socket.Established ∨ E (.abort .phase)) : RespectsAt E J K (onReadEvent env d) w := by
  unfold onReadEvent RespectsAt
  rw [wp_bind, wp_getSocket]
  refine RespectsAt.ite (fun hn => he.resolve_left hn) fun hest => ?_
  obtain ⟨hc, hs⟩ := not_not.mp hest
  exact D.readLoop_respects hd _ h (D.begin _ h hc (hs.imp And.left And.right))

theorem cntlAbort_respects (D : Discipline env E J Act K)
    (hd : d.Preserves E (OnSocket J) (SocketStep K)) : Respects E J K (cntlAbort env d) := by
  intro w h
  unfold cntlAbort
  refine RespectsAt.bind (D.readShutdownNow_respects hd w h) fun _ w₁ h₁ _ => ?_
  refine RespectsAt.bind (D.update_at h₁ .stopWrite) fun _ w₂ h₂ _ => ?_
  refine respects_ask.at h₂ |>.bind fun now w₃ h₃ _ => ?_
  refine RespectsAt.bind (D.update_at h₃ .abort) fun _ w₄ h₄ _ => ?_
  exact (respects_record _).at h₄ |>.bind fun _ w₅ h₅ _ => respectsAt_pure true h₅

/-- The connection is up: the application is told, and may write. -/
theorem connected_respects (D : Discipline env E J Act K)
    (hd : d.Preserves E (OnSocket J) (SocketStep K)) (h : J w.socket) (ha : Act w.socket) :
    wp E d.connected (fun _ => wp E (onWriteEvent env d) fun _ w' =>
      J w'.socket ∧ K w.socket w'.socket) w := by
  refine wp_mono (hd.connected w h) ?_
  rintro _ w₁ ⟨h₁, k₁⟩
  apply RespectsAt.behind _ k₁
  exact D.onWriteEvent_respects hd h₁ fun _ hf => D.enter _ h₁ (D.active _ _ ha k₁) hf

theorem doHandshake_respects (D : Discipline env E J Act K)
    (hd : d.Preserves E (OnSocket J) (SocketStep K)) (h : J w.socket) (hs : w.socket.ssl = true)
    (h1 : w.socket.sslStatus = 1) : RespectsAt E J K (doHandshake env d) w := by
  unfold doHandshake RespectsAt
  rw [wp_bind, wp_getSocket, wp_bind, wp_ask]
  cases hr : env.sslDoHandshake w.socket w.clock with
  | completed verified =>
    refine RespectsAt.ite (fun _ => D.error_respects hd _ 0 w.tick h) fun _ => ?_
    obtain ⟨h₁, k₁⟩ := D.update _ _ h (.handshakeDone hs h1)
    unfold RespectsAt
    simp only [wp_bind, wp_modifySocket, wp_cntlStart, wp_record, World.setSocket_setSocket,
      World.setSocket_socket]
    refine wp_mono (D.connected_respects hd h₁ (D.begin _ h₁ rfl (Or.inr rfl))) ?_
    intro _ w₁ h'
    exact wp_mono h' fun _ w₂ h₂ => ⟨h₂.1, trans_of K k₁ h₂.2⟩
  | failed x =>
    dsimp only
    cases hx : x.error with
    | SSL_ERROR_WANT_READ =>
      simp only [wp_bind, wp_modifySocket, World.setSocket_setSocket, World.setSocket_socket]
      exact D.update _ _ h (.handshakeWantRead hs h1)
    | SSL_ERROR_WANT_WRITE =>
      simp only [wp_bind, wp_modifySocket, World.setSocket_setSocket, World.setSocket_socket]
      exact D.update _ _ h (.handshakeWantWrite hs h1 hr hx)
    | SSL_ERROR_SSL => exact D.sslProtocolError_respects hd x w.tick h
    | _ => exact D.error_respects hd _ 0 w.tick h

theorem onSslHandshakeEvent_respects (D : Discipline env E J Act K)
    (hd : d.Preserves E (OnSocket J) (SocketStep K)) :
    Respects E J K (onSslHandshakeEvent env d) := by
  unfold onSslHandshakeEvent
  refine preserves_getSocket_bind fun w h => ?_
  refine RespectsAt.ite (fun _ => D.throw_at (by simp)) fun h1 => ?_
  refine RespectsAt.ite (fun _ => D.throw_at (by simp)) fun hs => ?_
  have h1 : w.socket.sslStatus = 1 := not_not.mp h1
  have hs : w.socket.ssl = true := by simpa using hs
  unfold RespectsAt
  rw [wp_bind, wp_when]
  refine ⟨fun _ => ?_, fun _ => D.doHandshake_respects hd h hs h1⟩
  rw [wp_bind, wp_record, wp_modifySocket]
  obtain ⟨h₁, k₁⟩ := D.update _ { w.socket with sslHsconf := true } h .note
  apply RespectsAt.behind _ k₁
  exact D.doHandshake_respects hd h₁ hs h1

theorem onWriteReady_respects (D : Discipline env E J Act K)
    (hd : d.Preserves E (OnSocket J) (SocketStep K)) (h : J w.socket)
    (he : WRITE_WANT_WRITE ∈ w.socket.writeEvents → w.socket.connecting = false →
      w.socket.writeFrames ≠ none → w.socket.Established ∨ E (.abort .phase)) :
    RespectsAt E J K (onWriteReady env d) w := by
  unfold onWriteReady RespectsAt
  rw [wp_bind, wp_getSocket]
  refine RespectsAt.bind (RespectsAt.when h fun hw => ?_) fun _ w₁ h₁ _ => ?_
  · exact D.onWriteEvent_respects hd h (he hw)
  refine (respects_getSocket).at h₁ |>.bind fun s w₂ h₂ _ => ?_
  refine RespectsAt.when h₂ fun _ => ?_
  refine RespectsAt.bind (RespectsAt.when h₂ fun _ => ?_) fun _ w₃ h₃ _ => ?_
  · exact D.onSslHandshakeEvent_respects hd w₂ h₂
  refine (respects_getSocket).at h₃ |>.bind fun s w₄ h₄ _ => ?_
  refine RespectsAt.bind (RespectsAt.when h₄ fun _ => ?_) fun _ w₅ h₅ _ => ?_
  · exact D.onSslSentShutdownEvent_respects hd w₄ h₄
  unfold RespectsAt
  rw [wp_bind, wp_getSocket]
  exact RespectsAt.when h₅ fun hw => D.onReadEvent_respects hd h₅ (D.enterSslRead _ h₅ hw)

theorem onConnectEvent_respects (D : Discipline env E J Act K)
    (hd : d.Preserves E (OnSocket J) (SocketStep K)) : Respects E J K (onConnectEvent env d) := by
  unfold onConnectEvent
  refine preserves_getSocket_bind fun w h => ?_
  refine RespectsAt.ite (fun _ => D.throw_at (by simp)) fun hc => ?_
  have hc : w.socket.connecting = true := by simpa using hc
  unfold RespectsAt
  rw [wp_bind, wp_ask]
  cases env.soError w.clock with
  | unknown => exact respectsAt_pure (w := w.tick) () h
  | error e => exact D.error_respects hd (some e) 0 w.tick h
  | none =>
    dsimp only
    rw [wp_bind, wp_modifySocket, World.tick_socket, wp_ite]
    refine ⟨fun hs => ?_, fun hs => ?_⟩
    · rw [wp_ite]
      refine ⟨fun _ => D.fault _ (by simp), fun h1 => ?_⟩
      have h1 : w.socket.sslStatus = 1 := not_not.mp h1
      obtain ⟨h₁, k₁⟩ := D.update _ _ h (.sslConnect hc hs h1)
      have hcon : (readSetEvent {SSL_HANDSHAKE_WANT_READ} (writeSetEvent {SSL_HANDSHAKE_WANT_WRITE}
          (writeUnsetEvent {CONNECT_WANT_WRITE} w.socket))).connecting = true := by
        simp [writeSetEvent_eq, readSetEvent_eq, writeUnsetEvent_eq, hc]
      simp only [wp_bind, wp_modifySocket, World.setSocket_setSocket, World.setSocket_socket]
      generalize readSetEvent {SSL_HANDSHAKE_WANT_READ} (writeSetEvent {SSL_HANDSHAKE_WANT_WRITE}
        (writeUnsetEvent {CONNECT_WANT_WRITE} w.socket)) = s₁ at *
      apply RespectsAt.behind _ k₁
      refine D.onWriteReady_respects hd h₁ fun _ hn => ?_
      exact absurd (hcon.symm.trans hn) (by simp)
    · have hs : w.socket.ssl = false := by simpa using hs
      obtain ⟨h₁, k₁⟩ := D.update _ _ h (.connected hc hs)
      have hssl : (started (writeUnsetEvent {CONNECT_WANT_WRITE} w.socket)).ssl = false := by
        simp [started, writeSetEvent_eq, readSetEvent_eq, writeUnsetEvent_eq, hs]
      simp only [wp_bind, wp_modifySocket, wp_cntlStart, wp_record, World.setSocket_setSocket,
        World.setSocket_socket]
      have ha := D.begin _ h₁ rfl (Or.inl hssl)
      refine wp_mono (D.connected_respects hd h₁ ha) fun _ w₁ h' => ?_
      refine wp_mono h' ?_
      rintro _ w₂ ⟨h₂, k₂⟩
      refine ⟨h₂, ?_⟩
      rw [World.record_socket, World.setSocket_socket] at k₂
      exact trans_of K k₁ k₂

theorem onWrite_respects (D : Discipline env E J Act K)
    (hd : d.Preserves E (OnSocket J) (SocketStep K)) (h : J w.socket)
    (he : CONNECT_WANT_WRITE ∉ w.socket.writeEvents → WRITE_WANT_WRITE ∈ w.socket.writeEvents →
      w.socket.connecting = false → w.socket.writeFrames ≠ none →
      w.socket.Established ∨ E (.abort .phase)) : RespectsAt E J K (onWrite env d) w := by
  unfold onWrite RespectsAt
  rw [wp_bind, wp_getSocket, wp_bind, wp_when]
  refine ⟨fun _ => ?_, fun hw => D.onWriteReady_respects hd h (he hw)⟩
  cases hc : w.socket.connecting with
  | false =>
    unfold onConnectEvent
    rw [wp_bind, wp_getSocket, if_pos hc]
    exact D.fault _ (by simp)
  | true =>
    refine wp_mono (D.onConnectEvent_respects hd w h) ?_
    rintro _ w₁ ⟨h₁, k₁⟩
    apply RespectsAt.behind _ k₁
    exact D.onWriteReady_respects hd h₁ (D.enterConnected _ _ h hc h₁ k₁)

theorem onRead_respects (D : Discipline env E J Act K)
    (hd : d.Preserves E (OnSocket J) (SocketStep K)) (h : J w.socket)
    (he : w.socket.readPauseLevel ≤ 0 → READ_WANT_READ ∈ w.socket.readEvents →
      w.socket.Established ∨ E (.abort .phase)) : RespectsAt E J K (onRead env d) w := by
  unfold onRead RespectsAt
  rw [wp_bind, wp_getSocket]
  refine RespectsAt.ite (fun hl => D.update_at h (.pausedEvent hl)) fun hl => ?_
  refine RespectsAt.bind (RespectsAt.when h fun hw => ?_) fun _ w₁ h₁ _ => ?_
  · exact D.onReadEvent_respects hd h (he (not_lt.mp hl) hw)
  refine (respects_getSocket).at h₁ |>.bind fun s w₂ h₂ _ => ?_
  refine RespectsAt.when h₂ fun _ => ?_
  refine RespectsAt.bind (RespectsAt.when h₂ fun _ => ?_) fun _ w₃ h₃ _ => ?_
  · exact D.onSslHandshakeEvent_respects hd w₂ h₂
  refine (respects_getSocket).at h₃ |>.bind fun s w₄ h₄ _ => ?_
  refine RespectsAt.bind (RespectsAt.when h₄ fun _ => ?_) fun _ w₅ h₅ _ => ?_
  · exact D.onSslSentShutdownEvent_respects hd w₄ h₄
  unfold RespectsAt
  rw [wp_bind, wp_getSocket]
  exact RespectsAt.when h₅ fun hw => D.onWriteEvent_respects hd h₅ (D.enterSslWrite _ h₅ hw)

omit [IsPreorder Stream K] in
theorem onError_respects (D : Discipline env E J Act K)
    (hd : d.Preserves E (OnSocket J) (SocketStep K)) (h : J w.socket) :
    wp E (onError env d) (fun _ w' => J w'.socket ∧ K w.socket w'.socket)
      (w.setSocket (stopped w.socket)) := by
  unfold onError Stream.error
  rw [if_neg (by simp), wp_bind, wp_ask, wp_bind, wp_modifySocket, wp_bind, wp_getSocket, wp_bind,
    wp_record, wp_bind]
  obtain ⟨h₁, hs⟩ := D.errorEvent _ (env.evNow w.clock) (some .ECONNRESET) 0 h
  refine wp_mono (hd.error _ h₁) ?_
  rintro _ w₂ ⟨h₂, k₂⟩
  exact hs w₂.socket h₂ k₂

end Functions

section Runs

variable {allow : World Stream π → Event → Prop} [∀ w e, Decidable (allow w e)]

theorem call_respects (D : Discipline env E J Act K)
    (hd : d.Preserves E (OnSocket J) (SocketStep K)) (c : Call)
    (hwrite : ∀ w f, J w.socket → allow w (.call (.write f)) → w.socket.writeOpen = true →
      w.socket.writeReady = true → w.socket.Established ∨ E (.abort .phase))
    (hcntl : ∀ w codes, J w.socket → allow w (.call (.cntl codes)) →
      RespectsAt E J K (cntl env d codes) w)
    (hssl : ∀ w r, c = .enableSsl r → J w.socket → allow w (.call (.enableSsl r)) →
      RespectsAt E J K (enableSsl r) w) :
    Respects E J K (c.exec env d allow) := by
  intro w h
  unfold Call.exec
  rw [wp_bind, wp_get]
  refine RespectsAt.when h ?_
  rintro ⟨_, hrun⟩
  cases c with
  | write f =>
    refine RespectsAt.bind (D.write_respects hd f h (hwrite w f h hrun)) ?_
    exact fun _ w₁ h₁ _ => respectsAt_pure () h₁
  | cntl codes =>
    exact RespectsAt.bind (hcntl w codes h hrun) fun _ w₁ h₁ _ => respectsAt_pure () h₁
  | enableSsl r =>
    exact RespectsAt.bind (hssl w r rfl h hrun) fun _ w₁ h₁ _ => respectsAt_pure () h₁
  | setPartial b => exact D.update w.socket { w.socket with readPartial := b } h .note
  | borrow type =>
    refine RespectsAt.bind (poolBorrow_respects _ _ _ _ w h) ?_
    exact fun _ w₁ h₁ _ => respectsAt_pure () h₁
  | frameReturn f => exact D.frameReturn_respects env.toContext f w h
  | fill f type vecs vecPosition data =>
    exact (respects_getFrame f).at h |>.bind fun x w₁ h₁ _ => respects_setFrame f _ w₁ h₁

theorem event_respects (D : Discipline env E J Act K)
    (hd : d.Preserves E (OnSocket J) (SocketStep K)) (e : Event) (h : J w.socket)
    (hcall : ∀ c, e = .call c → RespectsAt E J K (c.exec env d allow) w)
    (hread : w.socket.readWatcher = true → allow w .read → w.socket.readPauseLevel ≤ 0 →
      READ_WANT_READ ∈ w.socket.readEvents → w.socket.Established ∨ E (.abort .phase))
    (hwrite : allow w .write → CONNECT_WANT_WRITE ∉ w.socket.writeEvents →
      WRITE_WANT_WRITE ∈ w.socket.writeEvents → w.socket.connecting = false →
      w.socket.writeFrames ≠ none → w.socket.Established ∨ E (.abort .phase)) :
    RespectsAt E J K (e.exec env d allow) w := by
  unfold Event.exec
  cases e with
  | call c => exact hcall c rfl
  | read =>
    unfold RespectsAt
    rw [wp_bind, wp_get]
    refine RespectsAt.when h ?_
    rintro ⟨hw, hrun⟩
    exact D.onRead_respects hd h (hread hw hrun)
  | write =>
    unfold RespectsAt
    rw [wp_bind, wp_get]
    refine RespectsAt.when h ?_
    rintro ⟨_, hrun⟩
    exact D.onWrite_respects hd h (hwrite hrun)
  | error =>
    unfold RespectsAt
    rw [wp_bind, wp_get]
    refine RespectsAt.when h fun _ => ?_
    unfold RespectsAt
    rw [wp_bind, wp_modifySocket]
    exact D.onError_respects hd h

/-- What every call respects is respected by a scripted delegate. -/
theorem scripted_respects (hcall : ∀ d : Delegate π, d.Preserves E (OnSocket J) (SocketStep K) →
      ∀ c, Respects E J K (Call.exec env d allow c)) (script : Script) (n : ℕ) :
    (scripted env allow script n).Preserves E (OnSocket J) (SocketStep K) :=
  scripted_preserves (fun _ h => ⟨h, refl_of K _⟩) (fun _ _ _ _ _ h _ => ⟨h, refl_of K _⟩) hcall n

end Runs

end Discipline

end Stream

end FrameTransporter
