import FrameTransporter.Sock.Stream.Discipline

/-! # The write side leaves reading alone

Writing, reporting an error and giving frames back change nothing that reading
depends on. An invariant and a relation that every single step of them respects
are respected by all of them.
-/

namespace FrameTransporter

open Hoare

namespace Stream

open ReadEvent WriteEvent SslError

variable {π : Type}

/-- A change of the socket by the write side. -/
structure WriteStep (s s' : Stream) : Prop where
  readFrame : s'.readFrame = s.readFrame
  readPartial : s'.readPartial = s.readPartial
  readPauseLevel : s'.readPauseLevel = s.readPauseLevel
  ssl : s'.ssl = s.ssl
  shut : s.readShutdown = true → s'.readShutdown = true
  watcher : s.readShutdown = true → s.readWatcher = false → s'.readWatcher = false
  sslRead : SSL_READ_WANT_WRITE ∈ s'.writeEvents → SSL_READ_WANT_WRITE ∈ s.writeEvents
  wantRead : READ_WANT_READ ∈ s'.readEvents → READ_WANT_READ ∈ s.readEvents

/-- The step leaves alone what tells that a side is shut. -/
structure Sparing (s s' : Stream) : Prop where
  readShutdown : s'.readShutdown = s.readShutdown
  readShutdownAt : s'.readShutdownAt = s.readShutdownAt
  writeShutdown : s'.writeShutdown = s.writeShutdown
  writeShutdownAt : s'.writeShutdownAt = s.writeShutdownAt
  writeOpen : s'.writeOpen = s.writeOpen
  shutWrite : SSL_SHUTDOWN_WANT_WRITE ∈ s'.writeEvents → SSL_SHUTDOWN_WANT_WRITE ∈ s.writeEvents
  shutRead : SSL_SHUTDOWN_WANT_READ ∈ s'.readEvents → SSL_SHUTDOWN_WANT_READ ∈ s.readEvents

/-- A change of the socket by the write loop itself, which shuts nothing. -/
structure LoopStep (s s' : Stream) : Prop extends WriteStep s s', Sparing s s'

/-- What is recorded besides the reading. -/
def Outward : Io → Prop
  | .recv .. | .offer .. | .read .. | .readEnd _ => False
  | _ => True

/-- A frame of the size that the frame `f` has under the invariant. -/
def Sized (I : World Stream π → Prop) (f : FrameId) (x : Frame) : Prop :=
  ∃ w, I w ∧ x.capacity = (w.heap f).capacity

/-- The single steps that leave the frames alone respect an invariant and a relation. -/
structure SocketSteps (I : World Stream π → Prop) (R : World Stream π → World Stream π → Prop) :
    Prop where
  step : ∀ w s, I w → WriteStep w.socket s → I (w.setSocket s) ∧ R w (w.setSocket s)
  tick : ∀ w, I w → I w.tick ∧ R w w.tick
  record : ∀ w x, I w → Outward x → I (w.record x) ∧ R w (w.record x)

/-- So do all single steps of the write side. -/
structure SideSteps (I : World Stream π → Prop) (R : World Stream π → World Stream π → Prop) :
    Prop extends SocketSteps I R where
  setFrame : ∀ w f x, I w → Sized I f x → I (w.setFrame f x) ∧ R w (w.setFrame f x)
  setOwner : ∀ w f r, I w → I (w.setOwner f r) ∧ R w (w.setOwner f r)
  enqueue : ∀ w l f, I w → I (w.enqueue l f) ∧ R w (w.enqueue l f)

/-- And so do the callbacks that the write side makes. -/
structure WriteSide (I : World Stream π → Prop) (R : World Stream π → World Stream π → Prop)
    (d : Delegate π) : Prop extends SideSteps I R where
  onError : Preserves (fun _ => True) I R d.error
  onReturn : ∀ g ∈ d.frameReturn, ∀ f side, Preserves (fun _ => True) I R (g f side)

/-- The write loop is made of such steps, and of errors, frames that are given back and the
handling of end-of-stream frames, which respect the invariant and the relation as well. -/
structure WriteParts (env : Env) (d : Delegate π) (I : World Stream π → Prop)
    (R : World Stream π → World Stream π → Prop) : Prop where
  step : ∀ w s, I w → LoopStep w.socket s → I (w.setSocket s) ∧ R w (w.setSocket s)
  tick : ∀ w, I w → I w.tick ∧ R w w.tick
  sent : ∀ w bytes, I w → I (w.record (.send bytes)) ∧ R w (w.record (.send bytes))
  obtained : ∀ w f, I w → I (w.record (.obtained f)) ∧ R w (w.record (.obtained f))
  setFrame : ∀ w f x, I w → Sized I f x → I (w.setFrame f x) ∧ R w (w.setFrame f x)
  poolBorrow : ∀ ctx type file line,
    Preserves (fun _ => True) I R (FrameTransporter.poolBorrow ctx type file line)
  enqueueFrame : ∀ f, Preserves (fun _ => True) I R (Stream.enqueueFrame f)
  fail : ∀ e l, Preserves (fun _ => True) I R (Stream.error env d e l)
  releaseFrame : ∀ f, Preserves (fun _ => True) I R (Stream.releaseFrame env d f 'W')
  writeEndOfStream : ∀ f, Preserves (fun _ => True) I R (Stream.writeEndOfStream env d f)

section Steps

variable {s s' s'' : Stream}

theorem WriteStep.trans (h : WriteStep s s') (h' : WriteStep s' s'') : WriteStep s s'' where
  readFrame := h'.readFrame.trans h.readFrame
  readPartial := h'.readPartial.trans h.readPartial
  readPauseLevel := h'.readPauseLevel.trans h.readPauseLevel
  ssl := h'.ssl.trans h.ssl
  shut := h'.shut ∘ h.shut
  watcher hs := h'.watcher (h.shut hs) ∘ h.watcher hs
  sslRead := h.sslRead ∘ h'.sslRead
  wantRead := h.wantRead ∘ h'.wantRead

theorem writeStep_readSetEvent {a : Finset ReadEvent} (s : Stream) (ha : READ_WANT_READ ∉ a) :
    WriteStep s (readSetEvent a s) := by
  rw [readSetEvent_eq]
  refine ⟨rfl, rfl, rfl, rfl, id, fun hs hw => ?_, id, fun he => ?_⟩
  · exact (if_neg fun hc => by simp [hs] at hc).trans hw
  · exact (Finset.mem_union.mp he).resolve_right ha

theorem writeStep_readUnsetEvent (a : Finset ReadEvent) (s : Stream) :
    WriteStep s (readUnsetEvent a s) := by
  rw [readUnsetEvent_eq]
  refine ⟨rfl, rfl, rfl, rfl, id, fun hs _ => ?_, id, fun he => (Finset.mem_sdiff.mp he).1⟩
  exact if_pos (Or.inr (Or.inl hs))

theorem writeStep_writeSetEvent {a : Finset WriteEvent} (s : Stream)
    (ha : SSL_READ_WANT_WRITE ∉ a) : WriteStep s (writeSetEvent a s) := by
  rw [writeSetEvent_eq]
  exact ⟨rfl, rfl, rfl, rfl, id, fun _ => id, fun he => (Finset.mem_union.mp he).resolve_right ha,
    id⟩

theorem writeStep_writeUnsetEvent (a : Finset WriteEvent) (s : Stream) :
    WriteStep s (writeUnsetEvent a s) := by
  rw [writeUnsetEvent_eq]
  exact ⟨rfl, rfl, rfl, rfl, id, fun _ => id, fun he => (Finset.mem_sdiff.mp he).1, id⟩

theorem writeStep_awaitWrite (s : Stream) : WriteStep s (awaitWrite s) := by
  have h : WriteStep s { s with writeReady := false } :=
    ⟨rfl, rfl, rfl, rfl, id, fun _ => id, id, id⟩
  exact h.trans (writeStep_writeSetEvent _ (by simp))

theorem sparing_readSetEvent {a : Finset ReadEvent} (s : Stream) (ha : SSL_SHUTDOWN_WANT_READ ∉ a) :
    Sparing s (readSetEvent a s) := by
  rw [readSetEvent_eq]
  exact ⟨rfl, rfl, rfl, rfl, rfl, id, fun he => (Finset.mem_union.mp he).resolve_right ha⟩

theorem sparing_readUnsetEvent (a : Finset ReadEvent) (s : Stream) :
    Sparing s (readUnsetEvent a s) := by
  rw [readUnsetEvent_eq]
  exact ⟨rfl, rfl, rfl, rfl, rfl, id, fun he => (Finset.mem_sdiff.mp he).1⟩

theorem sparing_writeSetEvent {a : Finset WriteEvent} (s : Stream)
    (ha : SSL_SHUTDOWN_WANT_WRITE ∉ a) : Sparing s (writeSetEvent a s) := by
  rw [writeSetEvent_eq]
  exact ⟨rfl, rfl, rfl, rfl, rfl, fun he => (Finset.mem_union.mp he).resolve_right ha, id⟩

theorem sparing_writeUnsetEvent (a : Finset WriteEvent) (s : Stream) :
    Sparing s (writeUnsetEvent a s) := by
  rw [writeUnsetEvent_eq]
  exact ⟨rfl, rfl, rfl, rfl, rfl, fun he => (Finset.mem_sdiff.mp he).1, id⟩

theorem sparing_awaitWrite (s : Stream) : Sparing s (awaitWrite s) := by
  rw [awaitWrite, writeSetEvent_eq]
  exact ⟨rfl, rfl, rfl, rfl, rfl, fun he => (Finset.mem_union.mp he).resolve_right (by simp), id⟩

/-- The write side is shut. -/
theorem writeStep_shut (now : ℚ) (s : Stream) :
    WriteStep s { s with writeShutdownAt := some now, writeShutdown := true } :=
  ⟨rfl, rfl, rfl, rfl, id, fun _ => id, id, id⟩

end Steps

section Sizes

variable {x x' : Frame} {v : Vec} {n : ℕ} {more : Bool} {I : World Stream π → Prop} {f : FrameId}

theorem capacity_advanceVec (h : x.advanceVec v n = .ok x') : x'.capacity = x.capacity := by
  unfold Frame.advanceVec at h
  cases hv : v.advance n with
  | error e => simp [hv] at h
  | ok v' =>
    rw [hv] at h
    obtain rfl := Except.ok.inj h
    rfl

theorem capacity_nextVec (h : x.nextVec = .ok (more, x')) : x'.capacity = x.capacity := by
  unfold Frame.nextVec at h
  split at h
  · cases h
    rfl
  · split at h <;> cases h
    rfl

theorem Sized.of_eq (h : Sized I f x) (hc : x'.capacity = x.capacity) : Sized I f x' :=
  h.imp fun _ ⟨hi, hx⟩ => ⟨hi, hc.trans hx⟩

end Sizes

theorem preserves_throw {I : World Stream π → Prop} {R : World Stream π → World Stream π → Prop}
    {α : Type} {e : Fault} : Preserves (fun _ => True) I R (throw e : StreamM π α) :=
  fun _ _ => trivial

section Rules

variable {I : World Stream π → Prop} {R : World Stream π → World Stream π → Prop} {f : FrameId}

/-- A frame that was read has the size of the frame. -/
theorem preserves_getFrame {α : Type} {k : Frame → StreamM π α}
    (hk : ∀ x, Sized I f x → Preserves (fun _ => True) I R (k x)) :
    Preserves (fun _ => True) I R (getFrame f >>= k) :=
  fun w h => hk (w.heap f) ⟨w, h, rfl⟩ w h

/-- A pure computation may be followed by what works for its result. -/
theorem preserves_lift {α β : Type} {r : Except Fault α} {k : α → StreamM π β}
    (hk : ∀ a, r = .ok a → Preserves (fun _ => True) I R (k a)) :
    Preserves (fun _ => True) I R (liftM r >>= k) := by
  cases r with
  | error e => exact fun _ _ => trivial
  | ok a => exact hk a rfl

theorem preserves_readSocket [IsPreorder (World Stream π) R] :
    Preserves (fun _ => True) I R (getSocket (π := π)) := fun w h => ⟨h, refl_of R w⟩

end Rules

namespace SocketSteps

variable {env : Env} {d : Delegate π} {I : World Stream π → Prop}
  {R : World Stream π → World Stream π → Prop}

section Primitives

variable (hw : SocketSteps I R)

include hw

theorem update {g : Stream → Stream} (hg : ∀ s, WriteStep s (g s)) :
    Preserves (fun _ => True) I R (modifySocket g) := fun w h => hw.step w _ h (hg w.socket)

theorem query {α : Type} {q : ℕ → α} : Preserves (fun _ => True) I R (ask q) :=
  fun w h => hw.tick w h

theorem note {x : Io} (hx : Outward x) :
    Preserves (fun _ => True) I R (FrameTransporter.record x) := fun w h => hw.record w x h hx

end Primitives

variable [IsPreorder (World Stream π) R] (hw : SocketSteps I R)
  (hd : Preserves (fun _ => True) I R d.error)

include hw hd

theorem error (e : Option Errno) (l : ℕ) :
    Preserves (fun _ => True) I R (Stream.error env d e l) := by
  have hfail : ∀ (now : ℚ) (s : Stream), WriteStep s { s with
      sysErrno := e, sslError := l, writeOpen := false, readShutdown := true, writeShutdown := true
      writeShutdownAt := some now, readShutdownAt := some now } := fun _ _ =>
    ⟨rfl, rfl, rfl, rfl, fun _ => rfl, fun _ => id, id, id⟩
  have hread : ∀ s : Stream, WriteStep s { s with readWatcher := false } := fun _ =>
    ⟨rfl, rfl, rfl, rfl, id, fun _ _ => rfl, id, id⟩
  have hwrite : ∀ s : Stream, WriteStep s { s with writeWatcher := false } := fun _ =>
    ⟨rfl, rfl, rfl, rfl, id, fun _ => id, id, id⟩
  unfold Stream.error
  refine .ite _ (fun _ => preserves_throw) fun _ => hw.query.bind fun now => ?_
  exact (hw.update (hfail now)).bind fun _ => preserves_readSocket.bind fun s =>
    (hw.note (x := .error e s.readFrame) trivial).bind fun _ => hd.bind fun _ =>
    (hw.update hwrite).bind fun _ => (hw.update hread).bind fun _ => hw.note trivial

theorem sslProtocolError (x : SslFailure) :
    Preserves (fun _ => True) I R (Stream.sslProtocolError env d x) := by
  unfold Stream.sslProtocolError
  exact .ite _ (fun _ => preserves_throw) fun _ => hw.error hd none x.peek

end SocketSteps

namespace SideSteps

variable {I : World Stream π → Prop} {R : World Stream π → World Stream π → Prop} {f : FrameId}
  (hw : SideSteps I R)

include hw

theorem own (f : FrameId) (r : Owner) :
    Preserves (fun _ => True) I R (FrameTransporter.setOwner f r) := fun w h => hw.setOwner w f r h

theorem put {x : Frame} (hx : Sized I f x) :
    Preserves (fun _ => True) I R (FrameTransporter.setFrame f x) :=
  fun w h => hw.setFrame w f x h hx

variable [IsPreorder (World Stream π) R]

theorem frameReturn (ctx : Context) (f : FrameId) :
    Preserves (fun _ => True) I R (FrameTransporter.frameReturn ctx f) := by
  unfold FrameTransporter.frameReturn
  refine preserves_getFrame fun x hx => ?_
  refine .ite _ (fun _ => preserves_throw) fun _ => .ite _ (fun _ => preserves_throw) fun _ =>
    .ite _ (fun _ => preserves_throw) fun _ => hw.query.bind fun next => ?_
  have hput : Sized I f { x with
      type := .free, next, lastSeenByFile := none, lastSeenByLine := 0 } := hx.of_eq rfl
  exact (hw.put hput).bind fun _ => (hw.own f _).bind fun _ => hw.note trivial

theorem poolBorrow (ctx : Context) (type : FrameType) (file : String) (line : ℕ) :
    Preserves (fun _ => True) I R (FrameTransporter.poolBorrow ctx type file line) := by
  unfold FrameTransporter.poolBorrow
  refine hw.query.bind fun r => preserves_get_bind fun w h => ?_
  cases r with
  | none => exact ⟨h, refl_of R w⟩
  | some f =>
    dsimp only
    rw [wp_ite]
    refine ⟨fun _ => ?_, fun _ => ⟨h, refl_of R w⟩⟩
    obtain ⟨h₁, k₁⟩ := hw.setFrame w f (Pool.resetFrame (w.heap f) type file line) h ⟨w, h, rfl⟩
    obtain ⟨h₂, k₂⟩ := hw.setOwner _ f .user h₁
    exact ⟨h₂, trans_of R k₁ k₂⟩

end SideSteps

namespace WriteParts

variable {env : Env} {d : Delegate π} {I : World Stream π → Prop}
  {R : World Stream π → World Stream π → Prop} (hw : WriteParts env d I R)

include hw

theorem update {g : Stream → Stream} (hg : ∀ s, LoopStep s (g s)) :
    Preserves (fun _ => True) I R (modifySocket g) := fun w h => hw.step w _ h (hg w.socket)

theorem query {α : Type} {q : ℕ → α} : Preserves (fun _ => True) I R (ask q) :=
  fun w h => hw.tick w h

theorem noteSend (bytes : List UInt8) :
    Preserves (fun _ => True) I R (FrameTransporter.record (.send bytes)) :=
  fun w h => hw.sent w bytes h

theorem noteObtained (f : FrameId) :
    Preserves (fun _ => True) I R (FrameTransporter.record (.obtained f)) :=
  fun w h => hw.obtained w f h

theorem put {f : FrameId} {x : Frame} (hx : Sized I f x) :
    Preserves (fun _ => True) I R (FrameTransporter.setFrame f x) :=
  fun w h => hw.setFrame w f x h hx

theorem await : Preserves (fun _ => True) I R (modifySocket awaitWrite) :=
  hw.update fun s => ⟨writeStep_awaitWrite s, sparing_awaitWrite s⟩

theorem unset (a : Finset WriteEvent) :
    Preserves (fun _ => True) I R (modifySocket (writeUnsetEvent a)) :=
  hw.update fun s => ⟨writeStep_writeUnsetEvent a s, sparing_writeUnsetEvent a s⟩

theorem sslProtocolError (x : SslFailure) :
    Preserves (fun _ => True) I R (Stream.sslProtocolError env d x) := by
  unfold Stream.sslProtocolError
  exact .ite _ (fun _ => preserves_throw) fun _ => hw.fail none x.peek

variable [IsPreorder (World Stream π) R]

theorem sslWriteFailed (x : SslFailure) :
    Preserves (fun _ => True) I R (Stream.sslWriteFailed env d x) := by
  have hclear : ∀ s : Stream, LoopStep s { s with sysErrno := none, sslError := 0 } := fun _ =>
    ⟨⟨rfl, rfl, rfl, rfl, id, fun _ => id, id, id⟩, rfl, rfl, rfl, rfl, rfl, id, id⟩
  unfold Stream.sslWriteFailed
  cases x.error with
  | SSL_ERROR_WANT_READ =>
    exact (hw.update fun s => ⟨writeStep_readSetEvent s (by simp),
      sparing_readSetEvent s (by simp)⟩).bind fun _ => hw.unset _
  | SSL_ERROR_WANT_WRITE =>
    exact hw.await.bind fun _ => hw.update fun s =>
      ⟨writeStep_readUnsetEvent _ s, sparing_readUnsetEvent _ s⟩
  | SSL_ERROR_SYSCALL =>
    exact .ite _ (fun _ => (hw.update hclear).bind fun _ => hw.unset _) fun _ =>
      hw.fail (errnoOrReset x) 0
  | SSL_ERROR_SSL => exact hw.sslProtocolError x
  | _ => exact hw.fail (errnoOrReset x) 0

theorem transmit (bytes : List UInt8) :
    Preserves (fun _ => True) I R (Stream.transmit env d bytes) := by
  have hwait : Preserves (fun _ => True) I R (do
      modifySocket awaitWrite
      return (none : Option ℕ)) := hw.await.bind fun _ => preserves_pure _
  unfold Stream.transmit
  refine preserves_readSocket.bind fun s => .ite _ (fun _ => hw.query.bind fun r => ?_) fun _ =>
    hw.query.bind fun r => ?_
  · cases r with
    | failed e =>
      have hnote := hw.noteSend []
      cases e with
      | EAGAIN => exact hnote.bind fun _ => hwait
      | _ => exact hnote.bind fun _ => (hw.fail (some _) 0).bind fun _ => preserves_pure _
    | sent n =>
      exact (hw.noteSend (bytes.take n)).bind fun _ =>
        .ite _ (fun _ => hwait) fun _ => preserves_pure _
  · cases r with
    | failed x =>
      exact (hw.noteSend []).bind fun _ =>
        (hw.sslWriteFailed x).bind fun _ => preserves_pure _
    | sent n =>
      exact (hw.noteSend (bytes.take (n + 1))).bind fun _ => preserves_pure _

theorem dequeueFrame (f : FrameId) :
    Preserves (fun _ => True) I R (Stream.dequeueFrame env d f) := by
  have hnext : ∀ (next : Option FrameId) (s : Stream), LoopStep s { s with
      writeQueueLength := s.writeQueueLength - 1
      writeFrames := next
      writeFrameLast := if next = none then .head else s.writeFrameLast } :=
    fun _ _ => ⟨⟨rfl, rfl, rfl, rfl, id, fun _ => id, id, id⟩, rfl, rfl, rfl, rfl, rfl, id, id⟩
  unfold Stream.dequeueFrame
  exact preserves_readSocket.bind fun s => preserves_getFrame fun x _ =>
    .ite _ (fun _ => preserves_throw) fun _ => (hw.update (hnext x.next)).bind fun _ =>
      hw.releaseFrame f

theorem writeVec (f : FrameId) : Preserves (fun _ => True) I R (Stream.writeVec env d f) := by
  unfold Stream.writeVec
  refine preserves_getFrame fun x hx => preserves_lift fun v _ => ?_
  cases v with
  | none => exact preserves_throw
  | some v =>
    refine .ite _ (fun _ => preserves_throw) fun _ => (hw.transmit _).bind fun r => ?_
    cases r with
    | none => exact preserves_pure _
    | some n =>
      refine preserves_lift fun x₁ h₁ => ?_
      have hx₁ : Sized I f x₁ := hx.of_eq (capacity_advanceVec h₁)
      refine (hw.put hx₁).bind fun _ => .ite _ (fun _ => ?_) fun _ => preserves_lift fun r h₂ => ?_
      · exact hw.await.bind fun _ => preserves_pure _
      obtain ⟨more, x₂⟩ := r
      have hx₂ : Sized I f x₂ := hx₁.of_eq (capacity_nextVec h₂)
      exact (hw.put hx₂).bind fun _ => .ite _ (fun _ => preserves_pure _) fun _ =>
        (hw.dequeueFrame f).bind fun _ => preserves_pure _

theorem writeLoop (n : ℕ) : Preserves (fun _ => True) I R (Stream.writeLoop env d n) := by
  induction n with
  | zero => exact preserves_readSocket.bind fun s => .when _ fun _ => hw.await
  | succ n ih =>
    refine preserves_readSocket.bind fun s => ?_
    cases s.writeFrames with
    | none => exact preserves_pure _
    | some f =>
      refine preserves_getFrame fun x _ => .ite _ (fun _ => hw.writeEndOfStream f) fun _ =>
        (hw.writeVec f).bind fun more => ?_
      exact .ite _ (fun _ => ih) fun _ => preserves_pure _

theorem writeReal : Preserves (fun _ => True) I R (Stream.writeReal env d) := by
  unfold Stream.writeReal
  exact preserves_readSocket.bind fun s => .ite _ (fun _ => preserves_throw) fun _ =>
    .ite _ (fun _ => preserves_throw) fun _ => hw.writeLoop _

theorem onWriteEvent : Preserves (fun _ => True) I R (Stream.onWriteEvent env d) := by
  have hready : ∀ s : Stream, LoopStep s { s with writeReady := true } := fun _ =>
    ⟨⟨rfl, rfl, rfl, rfl, id, fun _ => id, id, id⟩, rfl, rfl, rfl, rfl, rfl, id, id⟩
  have htake : ∀ s : Stream,
      LoopStep s { s with writeEvents := s.writeEvents \ {WRITE_WANT_WRITE} } := fun _ =>
    ⟨⟨rfl, rfl, rfl, rfl, id, fun _ => id, fun he => (Finset.mem_sdiff.mp he).1, id⟩,
      rfl, rfl, rfl, rfl, rfl, fun he => (Finset.mem_sdiff.mp he).1, id⟩
  unfold Stream.onWriteEvent
  refine preserves_readSocket.bind fun s => .ite _ (fun _ => preserves_throw) fun _ =>
    (hw.update hready).bind fun _ => .ite _ (fun _ => ?_) fun _ => hw.unset _
  exact (hw.update htake).bind fun _ => hw.writeReal.bind fun _ =>
    preserves_readSocket.bind fun s => .when _ fun _ => hw.unset _

theorem write (f : FrameId) : Preserves (fun _ => True) I R (Stream.write env d f) := by
  unfold Stream.write
  refine preserves_readSocket.bind fun s => .ite _ (fun _ => preserves_pure _) fun _ =>
    (hw.enqueueFrame f).bind fun _ => .ite _ (fun _ => ?_) fun _ => ?_
  · exact (Preserves.when _ fun _ => hw.update fun s => ⟨writeStep_writeSetEvent s (by simp),
      sparing_writeSetEvent s (by simp)⟩).bind fun _ => preserves_pure _
  · exact hw.writeReal.bind fun _ => preserves_pure _

theorem cntlWriteShutdown :
    Preserves (fun _ => True) I R (Stream.cntlWriteShutdown env d) := by
  unfold Stream.cntlWriteShutdown
  refine preserves_readSocket.bind fun s => .ite _ (fun _ => preserves_pure _) fun _ =>
    .ite _ (fun _ => preserves_pure _) fun _ => (hw.poolBorrow _ _ _ _).bind fun r => ?_
  cases r with
  | none => exact preserves_pure _
  | some f => exact (hw.noteObtained f).bind fun _ => hw.write f

end WriteParts

namespace WriteSide

variable {env : Env} {d : Delegate π} {I : World Stream π → Prop}
  {R : World Stream π → World Stream π → Prop} [IsPreorder (World Stream π) R]
  (hw : WriteSide I R d)

include hw

theorem fail (e : Option Errno) (l : ℕ) :
    Preserves (fun _ => True) I R (Stream.error env d e l) := hw.error hw.onError e l

theorem protocolError (x : SslFailure) :
    Preserves (fun _ => True) I R (Stream.sslProtocolError env d x) :=
  hw.sslProtocolError hw.onError x

theorem releaseFrame (f : FrameId) (side : Char) :
    Preserves (fun _ => True) I R (Stream.releaseFrame env d f side) := by
  unfold Stream.releaseFrame
  refine (hw.own f _).bind fun _ => (hw.note (x := .release f side) trivial).bind fun _ => ?_
  cases hg : d.frameReturn with
  | none => exact hw.frameReturn env.toContext f
  | some g => exact hw.onReturn g hg f side

theorem onSslSentShutdownEvent :
    Preserves (fun _ => True) I R (Stream.onSslSentShutdownEvent env d) := by
  have hstatus : ∀ s : Stream, WriteStep s { s with sslStatus := 0 } := fun _ =>
    ⟨rfl, rfl, rfl, rfl, id, fun _ => id, id, id⟩
  have hread : Preserves (fun _ => True) I R
      (modifySocket (readSetEvent {SSL_SHUTDOWN_WANT_READ})) :=
    hw.update fun s => writeStep_readSetEvent s (by simp)
  have hunset : Preserves (fun _ => True) I R
      (modifySocket (writeUnsetEvent {SSL_SHUTDOWN_WANT_WRITE})) :=
    hw.update (writeStep_writeUnsetEvent _)
  have hshut : ∀ now, Preserves (fun _ => True) I R (modifySocket fun s =>
      { s with writeShutdownAt := some now, writeShutdown := true }) :=
    fun now => hw.update (writeStep_shut now)
  unfold Stream.onSslSentShutdownEvent
  refine preserves_readSocket.bind fun s => .ite _ (fun _ => preserves_throw) fun _ =>
    .ite _ (fun _ => preserves_throw) fun _ => hw.query.bind fun sent =>
    .ite _ (fun _ => .when _ fun _ => hw.query.bind hshut) fun _ => hw.query.bind fun r => ?_
  cases r with
  | sent => exact hw.query.bind fun now => (hshut now).bind fun _ => hunset.bind fun _ => hread
  | completed =>
    exact (hw.update hstatus).bind fun _ => hunset.bind fun _ => hread.bind fun _ =>
      hw.query.bind fun now => (hshut now).bind fun _ => hw.note trivial
  | failed x =>
    cases hx : x.error with
    | SSL_ERROR_WANT_READ => simpa only [hx] using hread.bind fun _ => hunset
    | SSL_ERROR_WANT_WRITE =>
      simpa only [hx] using (hw.update (writeStep_readUnsetEvent _)).bind fun _ =>
        hw.update fun s => writeStep_writeSetEvent s (by simp)
    | SSL_ERROR_SSL => simpa only [hx] using hw.protocolError x
    | _ => simpa only [hx] using hw.fail (errnoOrReset x) 0

theorem writeEndOfStream (f : FrameId) :
    Preserves (fun _ => True) I R (Stream.writeEndOfStream env d f) := by
  have hnext : ∀ (next : Option FrameId) (s : Stream), WriteStep s { s with writeFrames := next } :=
    fun _ _ => ⟨rfl, rfl, rfl, rfl, id, fun _ => id, id, id⟩
  unfold Stream.writeEndOfStream
  refine preserves_getFrame fun x _ => (hw.update (hnext x.next)).bind fun _ =>
    (hw.releaseFrame f 'W').bind fun _ => preserves_readSocket.bind fun s =>
    .ite _ (fun _ => preserves_throw) fun _ =>
    (hw.update (writeStep_writeUnsetEvent _)).bind fun _ => ?_
  exact .ite _ (fun _ => hw.onSslSentShutdownEvent) fun _ => hw.query.bind fun now =>
    (hw.update (writeStep_shut now)).bind fun _ => hw.note trivial

theorem enqueueFrame (f : FrameId) :
    Preserves (fun _ => True) I R (Stream.enqueueFrame f) := by
  intro w h
  rw [wp_enqueueFrame]
  obtain ⟨h₁, k₁⟩ := hw.enqueue w w.socket.writeFrameLast f h
  obtain ⟨h₂, k₂⟩ := hw.step _ { w.socket with
    writeOpen := if (w.heap f).type = .endOfStream then false else w.socket.writeOpen
    writeFrames := w.socket.writeFrameLast.storeHead f w.socket.writeFrames
    writeFrameLast := .next f
    writeQueueLength := w.socket.writeQueueLength + 1 } h₁
    ⟨rfl, rfl, rfl, rfl, id, fun _ => id, id, id⟩
  obtain ⟨h₃, k₃⟩ := hw.setOwner _ f .writer h₂
  obtain ⟨h₄, k₄⟩ := hw.record _ (.accepted f (w.heap f).type (w.heap f).pendingBytes) h₃ trivial
  exact ⟨h₄, trans_of R k₁ (trans_of R k₂ (trans_of R k₃ k₄))⟩

theorem parts : WriteParts env d I R where
  step w s h hs := hw.step w s h hs.toWriteStep
  tick := hw.tick
  sent w bytes h := hw.record w (.send bytes) h trivial
  obtained w f h := hw.record w (.obtained f) h trivial
  setFrame := hw.setFrame
  poolBorrow := hw.toSideSteps.poolBorrow
  enqueueFrame := hw.enqueueFrame
  fail := hw.fail
  releaseFrame f := hw.releaseFrame f 'W'
  writeEndOfStream := hw.writeEndOfStream

theorem onWriteEvent : Preserves (fun _ => True) I R (Stream.onWriteEvent env d) :=
  hw.parts.onWriteEvent

theorem write (f : FrameId) : Preserves (fun _ => True) I R (Stream.write env d f) :=
  hw.parts.write f

theorem cntlWriteShutdown : Preserves (fun _ => True) I R (Stream.cntlWriteShutdown env d) :=
  hw.parts.cntlWriteShutdown

end WriteSide

end Stream

end FrameTransporter
