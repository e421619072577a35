import FrameTransporter.Sock.Stream.ReadSide

/-! # A server that replies

The delegate of a reply server flips each frame that was read and writes it to the
same stream, so reading and writing meet in one callback. What is sent is what was
received, in its order, as far as it was accepted and not waits in the queue, and
no assertion fails whatever the system does.
-/

namespace FrameTransporter

open Hoare Intrusive

namespace Frame

variable {x y : Frame} {v : Vec} {n : ℕ} {e : Fault} {bytes : List UInt8}

/-- The vector of a frame that `ft_frame_format_simple` made. -/
@[simps] def whole : Vec := ⟨0, 0, FRAME_SIZE - SIZEOF_VEC, FRAME_SIZE - SIZEOF_VEC⟩

/-- The vectors of a frame end within their capacity. -/
def Fits (x : Frame) : Prop := ∀ v ∈ x.vecs, v.position ≤ v.limit ∧ v.limit ≤ v.capacity

theorem fits_nil (h : x.vecs = []) : x.Fits := by simp [Fits, h]

theorem Fits.flip (h : x.Fits) : x.flip.Fits := by
  intro u hu
  obtain ⟨v, hv, rfl⟩ := List.mem_map.mp hu
  exact ⟨Nat.zero_le _, (h v hv).1.trans (h v hv).2⟩

/-- A vector that fits has room in its capacity for all that has room below its limit. -/
theorem advanceVec_error_ne (hv : v.limit ≤ v.capacity) (h : x.advanceVec v n = .error e) :
    e ≠ .abort .advanceWithinCapacity := by
  unfold advanceVec Vec.advance at h
  split at h
  · cases h
    simp
  · next hl =>
    rw [if_neg (by omega)] at h
    cases h

theorem Fits.advanceVec (hx : x.Fits) (hv : v.limit ≤ v.capacity)
    (h : x.advanceVec v n = .ok y) :
    y.Fits ∧ y.capacity = x.capacity ∧ (Pool.Live x → Pool.Live y) := by
  unfold Frame.advanceVec Vec.advance at h
  split at h
  · cases h
  · next hl =>
    rw [if_neg (by omega)] at h
    cases h
    refine ⟨fun u hu => ?_, rfl, id⟩
    rcases List.mem_or_eq_of_mem_set hu with hu | rfl
    · exact hx u hu
    · exact ⟨not_lt.mp hl, hv⟩

theorem getVec_mem (h : x.getVec = .ok (some v)) : v ∈ x.vecs := by
  unfold getVec at h
  split at h
  · cases h
  · split at h
    · cases h
    · exact List.mem_of_getElem? (Except.ok.inj h)

theorem getVec_error_ne (h : x.getVec = .error e) : e ≠ .abort .advanceWithinCapacity := by
  rw [getVec_error h]
  simp

theorem nextVec_error_ne (h : x.nextVec = .error e) : e ≠ .abort .advanceWithinCapacity := by
  rw [nextVec_error h]
  simp

theorem Fits.nextVec {more : Bool} (hx : x.Fits) (h : x.nextVec = .ok (more, y)) :
    y.Fits ∧ y.capacity = x.capacity ∧ (Pool.Live x → Pool.Live y) := by
  unfold Frame.nextVec at h
  split at h
  · cases h
    exact ⟨hx, rfl, id⟩
  · split at h
    · cases h
    · cases h
      exact ⟨hx, rfl, id⟩

end Frame

namespace Stream

variable {π : Type}

/-- A delegate that only reads, as a structure with one callback that is set. -/
def ofRead (read : FrameId → StreamM π Bool) : Delegate π where
  getReadFrame := none
  read := read
  connected := pure ()
  error := pure ()
  frameReturn := none

section Congruence

variable (env : Env) (r r' : FrameId → StreamM π Bool)

/-- Writing does not read. -/
theorem writeLoop_ofRead : ∀ n, writeLoop env (ofRead r) n = writeLoop env (ofRead r') n
  | 0 => rfl
  | n + 1 => by
    have hvec : writeVec env (ofRead r) = writeVec env (ofRead r') := rfl
    have hend : writeEndOfStream env (ofRead r) = writeEndOfStream env (ofRead r') := rfl
    rw [writeLoop, writeLoop, hvec, hend, writeLoop_ofRead n]

theorem writeReal_ofRead : writeReal env (ofRead r) = writeReal env (ofRead r') := by
  rw [writeReal, writeReal, writeLoop_ofRead env r r']

theorem write_ofRead (f : FrameId) : write env (ofRead r) f = write env (ofRead r') f := by
  rw [write, write, writeReal_ofRead env r r']

theorem onWriteEvent_ofRead : onWriteEvent env (ofRead r) = onWriteEvent env (ofRead r') := by
  rw [onWriteEvent, onWriteEvent, writeReal_ofRead env r r']

end Congruence

namespace Reply

variable {env : Env} {w : World Stream π} {f : FrameId} {x : Frame} {s : Stream}
  {extra pend : List UInt8} {o : Option FrameId}

/-- The delegate of the stream while a frame is written, where `read` is not called. -/
def quiet : Delegate π := ofRead fun _ => pure true

/-- `on_read` of the reply server. -/
def onRead (env : Env) (f : FrameId) : StreamM π Bool := do
  let x ← getFrame f
  setFrame f x.flip
  let ok ← write env quiet f
  when (ok = false) <| frameReturn env.toContext f
  return true

/-- `stream_delegate` of the reply server. -/
def streamDelegate (env : Env) : Delegate π := ofRead (onRead env)

/-- The write in the callback is one of the stream with this delegate. -/
theorem onRead_eq (f : FrameId) : (onRead env f : StreamM π Bool) = (do
    let x ← getFrame f
    setFrame f x.flip
    let ok ← write env (streamDelegate env) f
    when (ok = false) <| frameReturn env.toContext f
    return true) := by
  rw [onRead, quiet, streamDelegate, write_ofRead env (fun _ => pure true) (onRead env)]

/-- The socket after `on_accept_cb`. -/
def accepted : Stream := { opened .accept with readPartial := true }

/-- What the server does with a stream between the events of its watchers: `on_check_cb` pauses and
resumes reading, and `on_exit_cb` stops everything. -/
def ServerRun (w : World Stream π) : Event → Prop
  | .call (.cntl codes) =>
    (codes = {.READ_PAUSE} ∧ w.socket.readPauseLevel = 0) ∨
      (codes = {.READ_RESUME} ∧ w.socket.readPauseLevel ≠ 0) ∨ codes = {.READ_STOP, .WRITE_STOP}
  | .read | .write | .error => True
  | _ => False

instance (w : World Stream π) : (e : Event) → Decidable (ServerRun w e)
  | .call (.cntl codes) => inferInstanceAs (Decidable ((codes = {.READ_PAUSE} ∧ _) ∨
      (codes = {.READ_RESUME} ∧ _) ∨ codes = {.READ_STOP, .WRITE_STOP}))
  | .read | .write | .error => inferInstanceAs (Decidable True)
  | .call (.write _) | .call (.enableSsl _) | .call (.setPartial _) | .call (.borrow _)
  | .call (.frameReturn _) | .call (.fill ..) => inferInstanceAs (Decidable False)

/-- No error was reported. -/
def Sound (w : World Stream π) : Prop := ∀ e f, .error e f ∉ w.trace

/-- The read side of the stream: `extra` was received and not handed over yet, and `pend` was
accepted by the callback that runs. The read frame `o` is empty. -/
structure Echo (extra pend : List UInt8) (o : Option FrameId) (w : World Stream π) : Prop where
  plain : w.socket.ssl = false ∧ w.socket.sslStatus = 0 ∧ w.socket.connecting = false
  partly : w.socket.readPartial = true
  level : 0 ≤ w.socket.readPauseLevel
  received : recvBytes w.trace = handedBytes w.trace ++ extra
  accepted : acceptedBytes dataOnly w.trace <+: handedBytes w.trace ++ pend
  opened : w.socket.writeOpen = true →
    acceptedBytes dataOnly w.trace = handedBytes w.trace ++ pend
  ended : Sound w → w.socket.writeOpen = false → w.socket.readShutdown = true ∧
    w.socket.readWatcher = false ∧ acceptedBytes dataOnly w.trace = recvBytes w.trace
  live : ∀ f, w.owner f ≠ .pool → Pool.Live (w.heap f)
  capacity : ∀ f, (w.heap f).capacity = FRAME_SIZE
  fits : ∀ f, (w.heap f).Fits
  frame : w.socket.readFrame = o
  held : ∀ f, o = some f → w.owner f = .reader ∧ (w.heap f).vecs = Frame.simple ∧
    (w.heap f).vecPosition = 0 ∧ (w.heap f).type ≠ .endOfStream

/-- Errors are not forgotten, and without one the write side is as open as before. -/
def Steady (w w' : World Stream π) : Prop :=
  Sound w' → Sound w ∧ w'.socket.writeOpen = w.socket.writeOpen

instance : IsPreorder (World Stream π) Steady where
  refl _ := fun h => ⟨h, rfl⟩
  trans _ _ _ h h' := fun hs =>
    ⟨(h (h' hs).1).1, (h' hs).2.trans (h (h' hs).1).2⟩

section Steps

theorem Echo.ne_of_owner (h : Echo extra pend o w) (hf : w.owner f ≠ .reader) : o ≠ some f :=
  fun ho => hf (h.held f ho).1

theorem Echo.tick (h : Echo extra pend o w) : Echo extra pend o w.tick := { h with }

/-- An entry of the trace that moves no bytes. -/
def Still (y : Io) : Prop :=
  recvBytes [y] = [] ∧ handedBytes [y] = [] ∧ acceptedBytes dataOnly [y] = []

theorem sound_record {y : Io} (h : Sound (w.record y)) : Sound w :=
  fun e f hm => h e f (List.mem_append_left _ hm)

theorem Echo.record {y : Io} (h : Echo extra pend o w) (hy : Still y) :
    Echo extra pend o (w.record y) where
  __ := h
  received := by simpa [hy.1, hy.2.1] using h.received
  accepted := by simpa [hy.2.1, hy.2.2] using h.accepted
  opened ho := by simpa [hy.2.1, hy.2.2] using h.opened ho
  ended hs ho := by simpa [hy.1, hy.2.2] using h.ended (sound_record hs) ho

theorem Echo.setFrame (h : Echo extra pend o w) (ho : o ≠ some f)
    (hl : w.owner f ≠ .pool → Pool.Live x) (hc : x.capacity = FRAME_SIZE) (hx : x.Fits) :
    Echo extra pend o (w.setFrame f x) where
  __ := h
  live g hg := by
    by_cases e : g = f
    · subst e; simpa using hl hg
    · simpa [e] using h.live g hg
  capacity g := by
    by_cases e : g = f
    · subst e; simpa using hc
    · simpa [e] using h.capacity g
  fits g := by
    by_cases e : g = f
    · subst e; simpa using hx
    · simpa [e] using h.fits g
  held g hg := by
    have e : g ≠ f := fun e => ho (e ▸ hg)
    simpa [e] using h.held g hg

theorem Echo.setOwner {a : Owner} (h : Echo extra pend o w) (ho : o ≠ some f)
    (hl : a ≠ .pool → Pool.Live (w.heap f)) : Echo extra pend o (w.setOwner f a) where
  __ := h
  live g hg := by
    by_cases e : g = f
    · subst e; exact hl (by simpa using hg)
    · exact h.live g (by simpa [e] using hg)
  held g hg := by
    have e : g ≠ f := fun e => ho (e ▸ hg)
    simpa [e] using h.held g hg

/-- A change of the socket that does not resume reading after its shutdown, beside the read frame
and the phase of the connection. -/
structure SameEcho (s s' : Stream) : Prop where
  plain : s'.ssl = s.ssl ∧ s'.sslStatus = s.sslStatus ∧ s'.connecting = s.connecting
  partly : s'.readPartial = s.readPartial
  level : 0 ≤ s.readPauseLevel → 0 ≤ s'.readPauseLevel
  writeOpen : s'.writeOpen = s.writeOpen
  stopped : s.readShutdown = true → s.readWatcher = false →
    s'.readShutdown = true ∧ s'.readWatcher = false
  frame : s'.readFrame = s.readFrame

theorem Echo.setSocket (h : Echo extra pend o w) (hs : SameEcho w.socket s) :
    Echo extra pend o (w.setSocket s) where
  __ := h
  plain := by
    rw [World.setSocket_socket, hs.plain.1, hs.plain.2.1, hs.plain.2.2]
    exact h.plain
  partly := hs.partly.trans h.partly
  level := hs.level h.level
  opened ho := h.opened (hs.writeOpen.symm.trans ho)
  ended hn ho := by
    obtain ⟨hr, hw, ha⟩ := h.ended hn (hs.writeOpen.symm.trans ho)
    exact ⟨(hs.stopped hr hw).1, (hs.stopped hr hw).2, ha⟩
  frame := hs.frame.trans h.frame

theorem sameEcho_readSetEvent (e : Finset ReadEvent) (s : Stream) :
    SameEcho s (readSetEvent e s) := by
  rw [readSetEvent_eq]
  refine ⟨⟨rfl, rfl, rfl⟩, rfl, id, rfl, fun hr hw => ⟨hr, ?_⟩, rfl⟩
  dsimp only
  rw [if_neg (fun hc => by simp [hr] at hc), hw]

theorem sameEcho_readUnsetEvent (e : Finset ReadEvent) (s : Stream) :
    SameEcho s (readUnsetEvent e s) := by
  rw [readUnsetEvent_eq]
  refine ⟨⟨rfl, rfl, rfl⟩, rfl, id, rfl, fun hr hw => ⟨hr, ?_⟩, rfl⟩
  dsimp only
  rw [hw, ite_self]

theorem sameEcho_writeSetEvent (e : Finset WriteEvent) (s : Stream) :
    SameEcho s (writeSetEvent e s) := by
  rw [writeSetEvent_eq]
  exact ⟨⟨rfl, rfl, rfl⟩, rfl, id, rfl, fun hr hw => ⟨hr, hw⟩, rfl⟩

theorem sameEcho_writeUnsetEvent (e : Finset WriteEvent) (s : Stream) :
    SameEcho s (writeUnsetEvent e s) := by
  rw [writeUnsetEvent_eq]
  exact ⟨⟨rfl, rfl, rfl⟩, rfl, id, rfl, fun hr hw => ⟨hr, hw⟩, rfl⟩

theorem sameEcho_awaitWrite (s : Stream) : SameEcho s (awaitWrite s) := by
  obtain ⟨hp, ht, hl, ho, hr, hf⟩ :=
    sameEcho_writeSetEvent {.WRITE_WANT_WRITE} { s with writeReady := false }
  exact ⟨hp, ht, hl, ho, hr, hf⟩

/-- The read frame is detached. -/
theorem Echo.detach (h : Echo extra pend o w) :
    Echo extra pend none (w.setSocket { w.socket with readFrame := none }) where
  __ := h
  frame := rfl
  held g hg := by cases hg

end Steps

section Writing

open WriteEvent

/-- The faults that the write queue excludes. -/
def Other (e : Fault) : Prop := e ≠ .abort .advanceWithinCapacity

theorem other_abort {a : Assertion} (ha : a ≠ .advanceWithinCapacity) : Other (.abort a) := by
  intro h
  exact ha (Fault.abort.inj h)

theorem wp_liftM {α : Type} {r : Except Fault α} {Q : α → World Stream π → Prop}
    (hok : ∀ a, r = .ok a → Q a w) (herr : ∀ e, r = .error e → Other e) :
    wp Other (liftM r : StreamM π α) Q w := by
  cases r with
  | error e => exact herr e rfl
  | ok a => exact hok a rfl

theorem Steady.of_trace {w' : World Stream π} (ht : Sound w' → Sound w)
    (ho : w'.socket.writeOpen = w.socket.writeOpen) : Steady w w' := fun hs => ⟨ht hs, ho⟩

/-- The socket that `_ft_stream_error` shows to the callback. -/
def broken (s : Stream) (e : Option Errno) (n : ℕ) (now : ℚ) : Stream := { s with
  sysErrno := e, sslError := n, writeOpen := false, readShutdown := true, writeShutdown := true
  writeShutdownAt := some now, readShutdownAt := some now }

/-- An error closes the stream, and it is not forgotten. -/
theorem error_echo {r : FrameId → StreamM π Bool} (h : Echo extra pend o w) (e : Option Errno)
    (n : ℕ) : wp Other (error env (ofRead r) e n)
      (fun _ w' => Echo extra pend o w' ∧ Steady w w' ∧ ¬Sound w') w := by
  rw [error, wp_ite]
  refine ⟨fun _ => other_abort (by simp), fun _ => ?_⟩
  have h₁ : Echo extra pend o ((w.tick.setSocket (broken w.socket e n (env.evNow w.clock))).record
      (.error e w.socket.readFrame)) :=
    { h with
      received := by simpa [recvBytes, handedBytes] using h.received
      accepted := by simpa [acceptedBytes, handedBytes] using h.accepted
      opened := by simp [broken]
      ended := fun hs => absurd (List.mem_append_right _ (List.mem_singleton_self _)) (hs e _) }
  have h₂ := h₁.setSocket (s := { broken w.socket e n (env.evNow w.clock) with
    writeWatcher := false, readWatcher := false })
    ⟨⟨rfl, rfl, rfl⟩, rfl, id, rfl, fun hr _ => ⟨hr, rfl⟩, rfl⟩
  have h₃ := h₂.record (y := .shutdown .SHUT_RDWR) ⟨rfl, rfl, rfl⟩
  have hns : ¬Sound ((((w.tick.setSocket (broken w.socket e n (env.evNow w.clock))).record
      (.error e w.socket.readFrame)).setSocket { broken w.socket e n (env.evNow w.clock) with
        writeWatcher := false, readWatcher := false }).record (.shutdown .SHUT_RDWR)) :=
    fun hs => hs e w.socket.readFrame (by simp)
  exact ⟨h₃, fun hs => absurd hs hns, hns⟩

theorem frameReturn_echo (ctx : Context) (h : Echo extra pend o w) (ho : o ≠ some f) :
    wp Other (frameReturn ctx f) (fun _ w' => Echo extra pend o w' ∧ Steady w w') w := by
  rw [frameReturn, wp_bind, wp_getFrame, wp_ite, wp_ite, wp_ite]
  refine ⟨fun _ => other_abort (by simp), fun _ => ⟨fun _ => other_abort (by simp), fun _ =>
    ⟨fun _ => other_abort (by simp), fun _ => ?_⟩⟩⟩
  simp only [wp_bind, wp_ask, wp_setFrame, wp_setOwner, wp_record]
  have h₁ := h.tick.setOwner (f := f) (a := .pool) ho (by simp)
  have h₂ := h₁.setFrame (f := f) (x := { w.heap f with
    type := .free, next := ctx.availableFrames w.clock, lastSeenByFile := none,
    lastSeenByLine := 0 }) ho (by simp) (h.capacity f) (h.fits f)
  exact ⟨h₂.record ⟨rfl, rfl, rfl⟩, Steady.of_trace sound_record rfl⟩

theorem releaseFrame_echo {r : FrameId → StreamM π Bool} (side : Char) (h : Echo extra pend o w)
    (ho : o ≠ some f) (hl : Pool.Live (w.heap f)) :
    wp Other (releaseFrame env (ofRead r) f side)
      (fun _ w' => Echo extra pend o w' ∧ Steady w w') w := by
  have h₁ := (h.setOwner (f := f) (a := .user) ho fun _ => hl).record
    (y := .release f side) ⟨rfl, rfl, rfl⟩
  rw [releaseFrame, wp_bind, wp_setOwner, wp_bind, wp_record]
  refine wp_mono (frameReturn_echo env.toContext h₁ ho) fun _ w' h' => ⟨h'.1, ?_⟩
  exact fun hs => ⟨sound_record (h'.2 hs).1, (h'.2 hs).2⟩

theorem writeEndOfStream_echo {r : FrameId → StreamM π Bool} (h : Echo extra pend o w)
    (ho : o ≠ some f) (hl : Pool.Live (w.heap f)) :
    wp Other (writeEndOfStream env (ofRead r) f)
      (fun _ w' => Echo extra pend o w' ∧ Steady w w') w := by
  rw [writeEndOfStream, wp_bind, wp_getFrame, wp_bind, wp_modifySocket, wp_bind]
  have h₁ := h.setSocket (s := { w.socket with writeFrames := (w.heap f).next })
    ⟨⟨rfl, rfl, rfl⟩, rfl, id, rfl, fun hr hw => ⟨hr, hw⟩, rfl⟩
  refine wp_mono (releaseFrame_echo 'W' h₁ ho hl) ?_
  rintro _ w₂ ⟨h₂, l₂⟩
  rw [wp_bind, wp_getSocket, wp_ite]
  refine ⟨fun _ => other_abort (by simp), fun _ => ?_⟩
  rw [wp_bind, wp_modifySocket, if_neg (by simp [h₂.plain.1])]
  simp only [wp_bind, wp_ask, wp_modifySocket, wp_record]
  have h₃ := (h₂.setSocket (sameEcho_writeUnsetEvent {WRITE_WANT_WRITE} w₂.socket)).tick
  have h₄ := h₃.setSocket (s := { writeUnsetEvent {WRITE_WANT_WRITE} w₂.socket with
      writeShutdownAt := some (env.evNow w₂.clock), writeShutdown := true })
    ⟨⟨rfl, rfl, rfl⟩, rfl, id, rfl, fun hr hw => ⟨hr, hw⟩, rfl⟩
  have hopen : (writeUnsetEvent {WRITE_WANT_WRITE} w₂.socket).writeOpen = w₂.socket.writeOpen :=
    (sameEcho_writeUnsetEvent {WRITE_WANT_WRITE} w₂.socket).writeOpen
  refine ⟨h₄.record (y := .shutdown .SHUT_WR) ⟨rfl, rfl, rfl⟩, fun hs => ?_⟩
  have hs₂ : Sound w₂ := sound_record hs
  exact ⟨(l₂ hs₂).1, hopen.trans (l₂ hs₂).2⟩

theorem Echo.await (h : Echo extra pend o w) :
    Echo extra pend o ((w.tick.record (.send [])).setSocket (awaitWrite w.socket)) ∧
      Steady w ((w.tick.record (.send [])).setSocket (awaitWrite w.socket)) :=
  ⟨(h.tick.record ⟨rfl, rfl, rfl⟩).setSocket (sameEcho_awaitWrite _),
    Steady.of_trace sound_record (sameEcho_awaitWrite _).writeOpen⟩

theorem transmit_echo {r : FrameId → StreamM π Bool} (h : Echo extra pend o w)
    (bytes : List UInt8) :
    wp Other (transmit env (ofRead r) bytes) (fun n w' => Echo extra pend o w' ∧ Steady w w' ∧
      (n ≠ none → w'.heap = w.heap ∧ w'.owner = w.owner)) w := by
  rw [transmit, wp_bind, wp_getSocket, if_pos h.plain.1, wp_bind, wp_ask]
  cases hr : env.send w.socket w.clock with
  | failed e =>
    have herr : wp Other (error env (ofRead r) (some e) 0) (fun _ w' =>
        Echo extra pend o w' ∧ Steady w w' ∧ ((none : Option ℕ) ≠ none →
          w'.heap = w.heap ∧ w'.owner = w.owner)) (w.tick.record (.send [])) := by
      refine wp_mono (error_echo (h.tick.record (y := .send []) ⟨rfl, rfl, rfl⟩) (some e) 0) ?_
      rintro _ w' ⟨h', l', -⟩
      exact ⟨h', fun hs => ⟨sound_record (l' hs).1, (l' hs).2⟩, fun hn => absurd rfl hn⟩
    cases e with
    | EAGAIN => exact ⟨h.await.1, h.await.2, fun hn => absurd rfl hn⟩
    | _ => simpa using herr
  | sent n =>
    simp only [wp_bind, wp_record, wp_ite, wp_modifySocket, wp_pure]
    refine ⟨fun _ => ?_, fun _ => ?_⟩
    · refine ⟨(h.tick.record ⟨rfl, rfl, rfl⟩).setSocket (sameEcho_awaitWrite _), ?_, by simp⟩
      exact Steady.of_trace sound_record (sameEcho_awaitWrite _).writeOpen
    · exact ⟨h.tick.record ⟨rfl, rfl, rfl⟩, Steady.of_trace sound_record rfl, fun _ => ⟨rfl, rfl⟩⟩

theorem dequeueFrame_echo {r : FrameId → StreamM π Bool} (h : Echo extra pend o w)
    (ho : o ≠ some f) (hl : Pool.Live (w.heap f)) :
    wp Other (dequeueFrame env (ofRead r) f)
      (fun _ w' => Echo extra pend o w' ∧ Steady w w') w := by
  rw [dequeueFrame, wp_bind, wp_getSocket, wp_bind, wp_getFrame, wp_ite]
  refine ⟨fun _ => other_abort (by simp), fun _ => ?_⟩
  rw [wp_bind, wp_modifySocket]
  have h₁ := h.setSocket (s := { w.socket with
      writeQueueLength := w.socket.writeQueueLength - 1
      writeFrames := (w.heap f).next
      writeFrameLast := if (w.heap f).next = none then .head else w.socket.writeFrameLast })
    ⟨⟨rfl, rfl, rfl⟩, rfl, id, rfl, fun hr hw => ⟨hr, hw⟩, rfl⟩
  exact releaseFrame_echo 'W' h₁ ho hl

theorem writeVec_echo {r : FrameId → StreamM π Bool} (h : Echo extra pend o w)
    (hf : w.owner f = .writer) :
    wp Other (writeVec env (ofRead r) f) (fun _ w' => Echo extra pend o w' ∧ Steady w w') w := by
  have ho : o ≠ some f := h.ne_of_owner (by simp [hf])
  rw [writeVec, wp_bind, wp_getFrame, wp_bind]
  refine wp_liftM (fun v hv => ?_) fun e he => Frame.getVec_error_ne he
  cases v with
  | none => exact other_abort (by simp)
  | some v =>
    have hcap := (h.fits f v (Frame.getVec_mem hv)).2
    dsimp only
    rw [wp_ite]
    refine ⟨fun _ => other_abort (by simp), fun _ => ?_⟩
    rw [wp_bind]
    refine wp_mono (transmit_echo h _) ?_
    rintro (_ | n) w₁ ⟨h₁, l₁, hsame⟩
    · exact ⟨h₁, l₁⟩
    obtain ⟨hheap, howner⟩ := hsame (by simp)
    have hl : Pool.Live (w.heap f) := h.live f (by simp [hf])
    dsimp only
    rw [wp_bind]
    refine wp_liftM (fun y hy => ?_) fun e he => Frame.advanceVec_error_ne hcap he
    obtain ⟨hfit, hsize, hlive⟩ := (h.fits f).advanceVec hcap hy
    have hsize : y.capacity = FRAME_SIZE := hsize.trans (h.capacity f)
    have h₂ := h₁.setFrame (f := f) (x := y) ho (fun _ => hlive hl) hsize hfit
    rw [wp_bind, wp_setFrame, wp_ite]
    refine ⟨fun _ => ?_, fun _ => ?_⟩
    · refine ⟨h₂.setSocket (sameEcho_awaitWrite _), fun hs => ?_⟩
      exact ⟨(l₁ hs).1, (sameEcho_awaitWrite _).writeOpen.trans (l₁ hs).2⟩
    · rw [wp_bind]
      refine wp_liftM (fun z hz => ?_) fun e he => Frame.nextVec_error_ne he
      obtain ⟨more, z⟩ := z
      obtain ⟨hfit', hsize', hlive'⟩ := hfit.nextVec hz
      have h₃ := h₂.setFrame (f := f) (x := z) ho (fun _ => hlive' (hlive hl))
        (hsize'.trans hsize) hfit'
      rw [wp_bind, wp_setFrame, wp_ite]
      refine ⟨fun _ => ⟨h₃, l₁⟩, fun _ => ?_⟩
      rw [wp_bind]
      refine wp_mono (dequeueFrame_echo h₃ ho (by simpa using hlive' (hlive hl))) ?_
      rintro _ w₄ ⟨h₄, l₄⟩
      exact ⟨h₄, fun hs => l₁ (l₄ hs).1 |>.imp id (l₄ hs).2.trans⟩

/-- The write queue and the read side together. -/
def Both (extra pend : List UInt8) (o : Option FrameId) (w : World Stream π) : Prop :=
  WriteInv w ∧ Echo extra pend o w

theorem quiet_preserves {E : Fault → Prop} : (quiet : Delegate π).Preserves E WriteInv Later where
  getReadFrame g hg := by cases hg
  read _ := preserves_pure _
  connected := preserves_pure _
  error := preserves_pure _
  frameReturn g hg := by cases hg

/-- What holds on both sides is proved with the faults that the other side excludes. -/
theorem wp_sides {α : Type} {m : StreamM π α} {Q Q' : α → World Stream π → Prop}
    (h : wp (· = .abort .advanceWithinCapacity) m Q w) (h' : wp Other m Q' w) :
    wp (fun _ => False) m (fun a w' => Q a w' ∧ Q' a w') w :=
  wp_and_both h h' fun _ he he' => he' he

theorem writeLoop_both (n : ℕ) (h : Both extra pend o w) :
    wp (fun _ => False) (writeLoop env quiet n)
      (fun _ w' => Both extra pend o w' ∧ Steady w w') w := by
  induction n generalizing w with
  | zero =>
    rw [writeLoop, wp_bind, wp_getSocket, wp_when]
    refine ⟨fun _ => ?_, fun _ => ⟨h, refl_of Steady w⟩⟩
    obtain ⟨h₁, -⟩ := h.1.setSocket (control_awaitWrite h.1.1 h.2.plain.2.2)
    refine ⟨⟨h₁, h.2.setSocket (sameEcho_awaitWrite _)⟩, ?_⟩
    exact Steady.of_trace id (sameEcho_awaitWrite _).writeOpen
  | succ n ih =>
    obtain ⟨⟨hp, q, hq⟩, he⟩ := h
    rw [writeLoop, wp_bind, wp_getSocket]
    cases hf : w.socket.writeFrames with
    | none => exact ⟨⟨⟨hp, q, hq⟩, he⟩, refl_of Steady w⟩
    | some f =>
      obtain ⟨q, rfl, -⟩ := Chain.exists_cons (hf ▸ hq.chain)
      have hw : w.owner f = .writer := hq.owner f List.mem_cons_self
      have ho : o ≠ some f := he.ne_of_owner (by simp [hw])
      rw [wp_bind, wp_getFrame, wp_ite]
      refine ⟨fun ht => ?_, fun ht => ?_⟩
      · refine wp_mono (wp_sides (writeEndOfStream_wp env quiet_preserves hp hq ht)
          (writeEndOfStream_echo he ho (he.live f (by simp [hw])))) ?_
        rintro _ w' ⟨⟨h', -⟩, he', l'⟩
        exact ⟨⟨h', he'⟩, l'⟩
      · rw [wp_bind]
        refine wp_mono (wp_sides
          (writeVec_wp env quiet_preserves rfl hp he.plain.2.2 hq ht) (writeVec_echo he hw)) ?_
        rintro more w' ⟨⟨h', -⟩, he', l'⟩
        cases more with
        | false => exact ⟨⟨h', he'⟩, l'⟩
        | true =>
          refine wp_mono (ih ⟨h', he'⟩) ?_
          rintro _ w'' ⟨h'', l''⟩
          exact ⟨h'', trans_of Steady l' l''⟩

theorem writeReal_both (h : Both extra pend o w) (hr : w.socket.writeReady = true) :
    wp (fun _ => False) (writeReal env quiet)
      (fun _ w' => Both extra pend o w' ∧ Steady w w') w := by
  obtain ⟨hs, ht, hc⟩ := h.2.plain
  rw [writeReal, wp_bind, wp_getSocket, if_neg (by simp [hr]),
    if_neg (not_not_intro ⟨hc, .inl ⟨hs, ht⟩⟩)]
  exact writeLoop_both _ h

theorem sameEcho_writeEvents (s : Stream) (e : Finset WriteEvent) (ready : Bool) :
    SameEcho s { s with writeReady := ready, writeEvents := e } :=
  ⟨⟨rfl, rfl, rfl⟩, rfl, id, rfl, fun hr hw => ⟨hr, hw⟩, rfl⟩

theorem onWriteEvent_both (h : Both extra pend o w) :
    wp (fun _ => False) (onWriteEvent env quiet)
      (fun _ w' => Both extra pend o w' ∧ Steady w w') w := by
  obtain ⟨h, he⟩ := h
  have hc := he.plain.2.2
  have hready : Control w.socket { w.socket with writeReady := true } :=
    ⟨⟨rfl, rfl, id, rfl⟩, { h.1 with ready := fun ht => by simp [hc] at ht }, id⟩
  rw [onWriteEvent, wp_bind, wp_getSocket, if_neg (by simp [hc]), wp_bind, wp_modifySocket, wp_ite]
  refine ⟨fun _ => ?_, fun _ => ?_⟩
  · have hwant : Control w.socket { w.socket with
        writeReady := true, writeEvents := w.socket.writeEvents \ {WRITE_WANT_WRITE} } :=
      ⟨⟨rfl, rfl, id, rfl⟩, { hready.plain with
        want := fun ht => by simp [hc] at ht
        connect := fun hm => h.1.connect (Finset.mem_sdiff.mp hm).1 }, id⟩
    have h₂ : Both extra pend o (w.setSocket { w.socket with
        writeReady := true, writeEvents := w.socket.writeEvents \ {WRITE_WANT_WRITE} }) :=
      ⟨(h.setSocket hwant).1, he.setSocket (sameEcho_writeEvents _ _ _)⟩
    rw [wp_bind, wp_modifySocket, wp_bind]
    refine wp_mono (writeReal_both h₂ rfl) ?_
    rintro _ w' ⟨⟨h', he'⟩, l'⟩
    rw [wp_bind, wp_getSocket, wp_when]
    refine ⟨fun _ => ⟨⟨?_, ?_⟩, fun hs => ?_⟩, fun _ => ⟨⟨h', he'⟩, l'⟩⟩
    · exact (h'.setSocket (control_writeUnsetEvent h'.1 {WRITE_WANT_WRITE})).1
    · exact he'.setSocket (sameEcho_writeUnsetEvent _ _)
    · exact ⟨(l' hs).1, (sameEcho_writeUnsetEvent _ _).writeOpen.trans (l' hs).2⟩
  · obtain ⟨h₁, -⟩ := h.setSocket hready
    have he₁ := he.setSocket (sameEcho_writeEvents w.socket w.socket.writeEvents true)
    refine ⟨⟨(h₁.setSocket (control_writeUnsetEvent h₁.1 {WRITE_WANT_WRITE})).1,
      he₁.setSocket (sameEcho_writeUnsetEvent _ _)⟩, ?_⟩
    exact Steady.of_trace id (sameEcho_writeUnsetEvent _ _).writeOpen

/-- A write goes on from the state in which the frame is queued. -/
theorem write_both (hopen : w.socket.writeOpen = true) (h : Both extra pend o (queued w f)) :
    wp (fun _ => False) (write env quiet f) (fun ok w' =>
      ok = true ∧ Both extra pend o w' ∧ Steady (queued w f) w') w := by
  rw [write, wp_bind, wp_getSocket, if_neg (by simp [hopen]), wp_bind, wp_enqueueFrame, wp_ite]
  refine ⟨fun _ => ?_, fun hr => ?_⟩
  · have hc : (queued w f).socket.connecting = false := h.2.plain.2.2
    rw [wp_bind, wp_when]
    refine ⟨fun _ => ⟨rfl, ⟨?_, ?_⟩, ?_⟩, fun _ => ⟨rfl, h, refl_of Steady _⟩⟩
    · exact (h.1.setSocket (control_writeSetEvent h.1.1 hc)).1
    · exact h.2.setSocket (sameEcho_writeSetEvent _ _)
    · exact Steady.of_trace id (sameEcho_writeSetEvent _ _).writeOpen
  · have hr : w.socket.writeReady = true := by simpa using hr
    rw [wp_bind]
    refine wp_mono (writeReal_both h hr) ?_
    rintro _ w' ⟨h', l'⟩
    exact ⟨rfl, h', l'⟩

theorem frameReturn_both (ctx : Context) (h : Both extra pend o w) (hf : w.owner f = .user) :
    wp (fun _ => False) (frameReturn ctx f)
      (fun _ w' => Both extra pend o w' ∧ Steady w w') w := by
  refine wp_mono (wp_sides (frameReturn_wp ctx h.1 hf)
    (frameReturn_echo ctx h.2 (h.2.ne_of_owner (by simp [hf])))) ?_
  rintro _ w' ⟨⟨h', -⟩, he', l'⟩
  exact ⟨⟨h', he'⟩, l'⟩

end Writing

section Callback

/-- Flipping turns what was read into what is to be written. -/
theorem pendingBytes_flip (x : Frame) : x.flip.pendingBytes = x.contents := by
  rw [Frame.pendingBytes, Frame.contents, Frame.flip, List.drop_zero, List.flatMap_map]
  rfl

theorem writable_flip (hv : x.vecs ≠ []) (hpos : ∀ v ∈ x.vecs, 0 < v.position) :
    x.flip.Writable := by
  refine .inr ⟨?_, fun u hu => ?_⟩
  · rw [Frame.flip, List.drop_zero]
    exact fun hn => hv (List.map_eq_nil_iff.mp hn)
  · rw [Frame.flip, List.drop_zero] at hu
    obtain ⟨v, hv, rfl⟩ := List.mem_map.mp hu
    exact hpos v hv

/-- The header of frames in memory does not change when a frame is linked. -/
theorem Echo.queued_of {bytes : List UInt8} (h : Echo extra [] none w) (ho : w.owner f ≠ .pool)
    (hacc : acceptedBytes dataOnly (queued w f).trace = acceptedBytes dataOnly w.trace ++ bytes)
    (hopen : acceptedBytes dataOnly w.trace = handedBytes w.trace)
    (hend : Sound w → (queued w f).socket.writeOpen = false → w.socket.readShutdown = true ∧
      w.socket.readWatcher = false ∧
        acceptedBytes dataOnly w.trace ++ bytes = recvBytes w.trace) :
    Echo extra bytes none (queued w f) where
  plain := h.plain
  partly := h.partly
  level := h.level
  received := by
    have hr := h.received
    simpa [queued, recvBytes, handedBytes] using hr
  accepted := by
    have hh : handedBytes (queued w f).trace = handedBytes w.trace := by
      simp [queued, handedBytes]
    rw [hacc, hh, hopen]
  opened _ := by
    have hh : handedBytes (queued w f).trace = handedBytes w.trace := by
      simp [queued, handedBytes]
    rw [hacc, hh, hopen]
  ended hs hc := by
    have hr : recvBytes (queued w f).trace = recvBytes w.trace := by simp [queued, recvBytes]
    rw [hacc, hr]
    exact hend (sound_record hs) hc
  live g hg := by
    by_cases e : g = f
    · subst e; exact h.live g ho
    · exact h.live g (by simpa [queued, e] using hg)
  capacity := h.capacity
  fits := h.fits
  frame := h.frame
  held g hg := by cases hg

theorem accepted_queued : acceptedBytes dataOnly (queued w f).trace =
    acceptedBytes dataOnly w.trace ++ (w.heap f).payload := by
  simp [queued, acceptedBytes, Frame.payload]

/-- What the write side does not accept is not sent. -/
theorem Echo.refused (h : Echo extra [] o w) (ho : w.socket.writeOpen = false) :
    Echo extra extra o w where
  __ := h
  accepted := by
    have hp := h.accepted
    rw [List.append_nil] at hp
    exact hp.trans (List.prefix_append _ _)
  opened hopen := by
    rw [ho] at hopen
    cases hopen

/-- The frame that `on_read` gets is written, or given back if the write side is closed. -/
theorem onRead_of_queued (h : Both extra [] none w) (hf : w.owner f = .user)
    (hq : (w.setFrame f (w.heap f).flip).socket.writeOpen = true →
      Both extra pend none (queued (w.setFrame f (w.heap f).flip) f))
    (hclosed : w.socket.writeOpen = false → Echo extra pend none w) :
    wp (fun _ => False) (onRead env f) (fun ok w' => ok = true ∧ Both extra pend none w' ∧
      (w.socket.writeOpen = true → Steady (queued (w.setFrame f (w.heap f).flip) f) w') ∧
      (w.socket.writeOpen = false → Steady w w')) w := by
  rw [onRead, wp_bind, wp_getFrame, wp_bind, wp_setFrame, wp_bind]
  by_cases ho : w.socket.writeOpen = true
  · refine wp_mono (write_both ho (hq ho)) ?_
    rintro ok w' ⟨rfl, h', l'⟩
    rw [wp_bind, wp_when]
    refine ⟨fun hok => absurd hok (by simp), fun _ => ⟨rfl, h', fun _ => l', fun hc => ?_⟩⟩
    rw [ho] at hc
    cases hc
  · have ho : w.socket.writeOpen = false := by simpa using ho
    have hl : Pool.Live (w.heap f) := h.2.live f (by simp [hf])
    have hne : w.owner f ≠ .writer := by simp [hf]
    have h₁ : Both extra pend none (w.setFrame f (w.heap f).flip) :=
      ⟨(h.1.setFrame (x := (w.heap f).flip) hne fun _ => hl).1, (hclosed ho).setFrame (by simp)
        (fun _ => hl) (h.2.capacity f) (h.2.fits f).flip⟩
    have hwrite : wp (fun _ => False) (write env quiet f)
        (fun ok w' => ok = false ∧ w' = w.setFrame f (w.heap f).flip)
        (w.setFrame f (w.heap f).flip) := by
      rw [write, wp_bind, wp_getSocket, if_pos (by simpa using ho)]
      exact ⟨rfl, rfl⟩
    refine wp_mono hwrite ?_
    rintro ok w' ⟨rfl, rfl⟩
    rw [wp_bind, wp_when]
    refine ⟨fun _ => ?_, fun hok => absurd rfl hok⟩
    refine wp_mono (frameReturn_both env.toContext h₁ hf) ?_
    rintro _ w'' ⟨h'', l''⟩
    exact ⟨rfl, h'', fun hc => by simp [ho] at hc, fun _ => l''⟩

/-- The callback sends the data frame that was read. -/
theorem onRead_data (h : Both (w.heap f).contents [] none w) (hf : w.owner f = .user)
    (ht : (w.heap f).type ≠ .endOfStream) (hv : (w.heap f).vecs ≠ [])
    (hpos : ∀ v ∈ (w.heap f).vecs, 0 < v.position) :
    wp (fun _ => False) (onRead env f) (fun ok w' => ok = true ∧
      Both (w.heap f).contents (w.heap f).contents none w' ∧ Steady w w') w := by
  have hl : Pool.Live (w.heap f) := h.2.live f (by simp [hf])
  have hne : w.owner f ≠ .writer := by simp [hf]
  have hx : (w.setFrame f (w.heap f).flip).heap f = (w.heap f).flip := by simp
  refine wp_mono (onRead_of_queued h hf (fun ho => ⟨?_, ?_⟩) fun ho => h.2.refused ho) ?_
  · obtain ⟨hp, q, hq⟩ := (h.1.setFrame (x := (w.heap f).flip) hne fun _ => hl).1
    refine ⟨{ hp with }, _, hq.queued ho hf ?_⟩
    rw [hx]
    exact writable_flip hv hpos
  · have he := h.2.setFrame (f := f) (x := (w.heap f).flip) (by simp) (fun _ => hl)
      (h.2.capacity f) (h.2.fits f).flip
    have hpay : ((w.setFrame f (w.heap f).flip).heap f).payload = (w.heap f).contents := by
      rw [hx, Frame.payload_of_ne (x := (w.heap f).flip) ht, pendingBytes_flip]
    have hopen := he.opened ho
    rw [List.append_nil] at hopen
    refine he.queued_of (by simp [hf]) (hpay ▸ accepted_queued) hopen fun _ hc => ?_
    have ht' : ((w.setFrame f (w.heap f).flip).heap f).type ≠ .endOfStream := by rwa [hx]
    simp only [queued, World.record_socket, World.setOwner_socket, World.setSocket_socket,
      if_neg ht'] at hc
    rw [ho] at hc
    cases hc
  · rintro ok w' ⟨rfl, h', lopen, lclosed⟩
    refine ⟨rfl, h', ?_⟩
    by_cases ho : w.socket.writeOpen = true
    · intro hs
      obtain ⟨hs₁, ho₁⟩ := lopen ho hs
      have ht' : ((w.setFrame f (w.heap f).flip).heap f).type ≠ .endOfStream := by rwa [hx]
      refine ⟨sound_record hs₁, ho₁.trans ?_⟩
      simp only [queued, World.record_socket, World.setOwner_socket, World.setSocket_socket,
        if_neg ht']
      rfl
    · exact lclosed (by simpa using ho)

/-- The callback closes the write side behind everything that was received. -/
theorem onRead_end (h : Both [] [] none w) (hf : w.owner f = .user)
    (ht : (w.heap f).type = .endOfStream) (hstop : w.socket.readShutdown = true)
    (hwatch : w.socket.readWatcher = false) :
    wp (fun _ => False) (onRead env f) (fun ok w' => ok = true ∧ Both [] [] none w') w := by
  have hl : Pool.Live (w.heap f) := h.2.live f (by simp [hf])
  have hne : w.owner f ≠ .writer := by simp [hf]
  have hx : (w.setFrame f (w.heap f).flip).heap f = (w.heap f).flip := by simp
  refine wp_mono (onRead_of_queued h hf (fun ho => ⟨?_, ?_⟩) fun _ => h.2) ?_
  · obtain ⟨hp, q, hq⟩ := (h.1.setFrame (x := (w.heap f).flip) hne fun _ => hl).1
    refine ⟨{ hp with }, _, hq.queued ho hf (.inl ?_)⟩
    rw [hx]
    exact ht
  · have he := h.2.setFrame (f := f) (x := (w.heap f).flip) (by simp) (fun _ => hl)
      (h.2.capacity f) (h.2.fits f).flip
    have hpay : ((w.setFrame f (w.heap f).flip).heap f).payload = [] := by
      rw [hx, Frame.payload, dataOnly]
      exact if_pos ht
    have hopen := he.opened ho
    rw [List.append_nil] at hopen
    refine he.queued_of (by simp [hf]) (hpay ▸ accepted_queued) hopen fun _ _ => ?_
    have hr := he.received
    rw [List.append_nil] at hr
    exact ⟨hstop, hwatch, by rw [List.append_nil, hr, hopen]⟩
  · rintro ok w' ⟨rfl, h', -⟩
    exact ⟨rfl, h'⟩

/-- Without an error the write side is open. -/
def Going (w : World Stream π) : Prop := Sound w → w.socket.writeOpen = true

theorem Going.steady {w' : World Stream π} (h : Going w) (l : Steady w w') : Going w' :=
  fun hs => (l hs).2.trans (h (l hs).1)

/-- What the callback wrote is handed over. -/
theorem Echo.handOver {last : Bool} (h : Echo extra extra none w) :
    Echo [] [] none (w.record (.read f extra true last)) where
  __ := h
  received := by simpa [recvBytes, handedBytes] using h.received
  accepted := by simpa [acceptedBytes, handedBytes] using h.accepted
  opened ho := by simpa [acceptedBytes, handedBytes] using h.opened ho
  ended hs ho := by simpa [acceptedBytes, recvBytes] using h.ended (sound_record hs) ho

theorem Both.offer (h : Both extra pend none w) (hp : w.owner f ≠ .pool)
    (hw : w.owner f ≠ .writer) :
    Both extra pend none ((w.setOwner f .user).record (.offer f (w.heap f).type)) := by
  have hl : Pool.Live (w.heap f) := h.2.live f hp
  obtain ⟨h₁, -⟩ := h.1.setOwner (o := .user) hw fun _ => hl
  have e₁ := h.2.setOwner (f := f) (a := .user) (by simp) fun _ => hl
  exact ⟨(h₁.record ⟨rfl, rfl, by simp⟩).1, e₁.record ⟨rfl, rfl, rfl⟩⟩

theorem deliver_data (last : Bool) (h : Both (w.heap f).contents [] none w)
    (hp : w.owner f ≠ .pool) (hw : w.owner f ≠ .writer) (ht : (w.heap f).type ≠ .endOfStream)
    (hv : (w.heap f).vecs ≠ []) (hpos : ∀ v ∈ (w.heap f).vecs, 0 < v.position) :
    wp (fun _ => False) (deliver (streamDelegate env) f last)
      (fun taken w' => taken = true ∧ Both [] [] none w' ∧ Steady w w') w := by
  rw [deliver, wp_bind, wp_getFrame, wp_bind, wp_setOwner, wp_bind, wp_record, wp_bind]
  refine wp_mono (onRead_data (h.offer hp hw) (by simp) ht hv hpos) ?_
  rintro taken w' ⟨rfl, ⟨h', e'⟩, l'⟩
  rw [wp_bind, wp_record]
  have hs : Steady w (w'.record (.read f (w.heap f).contents true last)) := fun hs =>
    ⟨sound_record (l' (sound_record hs)).1, (l' (sound_record hs)).2⟩
  exact ⟨rfl, ⟨(h'.record ⟨rfl, rfl, by simp⟩).1, e'.handOver⟩, hs⟩

theorem deliver_end (last : Bool) (h : Both [] [] none w) (hp : w.owner f ≠ .pool)
    (hw : w.owner f ≠ .writer) (ht : (w.heap f).type = .endOfStream) (hv : (w.heap f).vecs = [])
    (hstop : w.socket.readShutdown = true) (hwatch : w.socket.readWatcher = false) :
    wp (fun _ => False) (deliver (streamDelegate env) f last)
      (fun taken w' => taken = true ∧ Both [] [] none w') w := by
  rw [deliver, wp_bind, wp_getFrame, wp_bind, wp_setOwner, wp_bind, wp_record, wp_bind]
  refine wp_mono (onRead_end (h.offer hp hw) (by simp) ht hstop hwatch) ?_
  rintro taken w' ⟨rfl, h', e'⟩
  have hc : (w.heap f).contents = [] := by rw [Frame.contents, hv, List.flatMap_nil]
  rw [wp_bind, wp_record, hc]
  exact ⟨rfl, (h'.record ⟨rfl, rfl, by simp⟩).1, e'.record ⟨rfl, rfl, rfl⟩⟩

end Callback

section Reading

open ReadEvent WriteEvent

theorem control_readUnsetEvent (h : Plain s) (e : Finset ReadEvent) :
    Control s (readUnsetEvent e s) := by
  rw [readUnsetEvent_eq]
  exact ⟨⟨rfl, rfl, id, rfl⟩, { h with }, id⟩

theorem Both.setSocket (h : Both extra pend o w) (hc : Control w.socket s)
    (hs : SameEcho w.socket s) : Both extra pend o (w.setSocket s) ∧ Steady w (w.setSocket s) :=
  ⟨⟨(h.1.setSocket hc).1, h.2.setSocket hs⟩, Steady.of_trace id hs.writeOpen⟩

theorem cntlReadPause_both (on : Bool) (h : Both extra pend o w)
    (hon : on = true ∨ 0 < w.socket.readPauseLevel) :
    wp (fun _ => False) (cntlReadPause on)
      (fun _ w' => Both extra pend o w' ∧ Steady w w') w := by
  have hlevel := h.2.level
  rw [cntlReadPause, wp_bind, wp_getSocket]
  cases on with
  | true =>
    obtain ⟨h₁, l₁⟩ := h.setSocket (s := { w.socket with
      readPauseLevel := w.socket.readPauseLevel + 1 }) ⟨⟨rfl, rfl, id, rfl⟩, { h.1.1 with }, id⟩
      ⟨⟨rfl, rfl, rfl⟩, rfl, fun _ => by dsimp only; omega, rfl, fun hr hw => ⟨hr, hw⟩, rfl⟩
    rw [if_pos rfl, wp_bind, wp_modifySocket, wp_bind, wp_when]
    refine ⟨fun _ => ?_, fun _ => ⟨h₁, l₁⟩⟩
    obtain ⟨h₂, l₂⟩ := h₁.setSocket (control_readUnsetEvent h₁.1.1 ∅) (sameEcho_readUnsetEvent ∅ _)
    exact ⟨h₂, trans_of Steady l₁ l₂⟩
  | false =>
    have hpos : 0 < w.socket.readPauseLevel := by simpa using hon
    obtain ⟨h₁, l₁⟩ := h.setSocket (s := { w.socket with
      readPauseLevel := w.socket.readPauseLevel - 1 }) ⟨⟨rfl, rfl, id, rfl⟩, { h.1.1 with }, id⟩
      ⟨⟨rfl, rfl, rfl⟩, rfl, fun _ => by dsimp only; omega, rfl, fun hr hw => ⟨hr, hw⟩, rfl⟩
    rw [if_neg (by simp), if_neg (by omega), wp_bind, wp_modifySocket, wp_bind, wp_when]
    refine ⟨fun _ => ?_, fun _ => ⟨h₁, l₁⟩⟩
    obtain ⟨h₂, l₂⟩ := h₁.setSocket (control_readSetEvent h₁.1.1 ∅) (sameEcho_readSetEvent ∅ _)
    exact ⟨h₂, trans_of Steady l₁ l₂⟩

theorem pauseNoframes_both (h : Both extra pend o w) :
    wp (fun _ => False) pauseNoframes (fun _ w' => Both extra pend o w' ∧ Steady w w') w := by
  obtain ⟨h₁, l₁⟩ := h.setSocket (s := { w.socket with readPausedNoframes := true })
    ⟨⟨rfl, rfl, id, rfl⟩, { h.1.1 with }, id⟩
    ⟨⟨rfl, rfl, rfl⟩, rfl, id, rfl, fun hr hw => ⟨hr, hw⟩, rfl⟩
  rw [pauseNoframes, wp_bind, wp_modifySocket, wp_bind]
  refine wp_mono (cntlReadPause_both true h₁ (.inl rfl)) ?_
  rintro _ w' ⟨h', l'⟩
  exact ⟨h', trans_of Steady l₁ l'⟩

theorem poolBorrow_echo (ctx : Context) {type : FrameType} {file : String} {line : ℕ}
    (h : Echo extra pend o w) (ht : type ≠ .free) (hl : line ≠ 0) :
    wp Other (poolBorrow ctx type file line) (fun r w' => Echo extra pend o w' ∧
      w'.socket = w.socket ∧ Steady w w' ∧ ∀ f, r = some f → (w'.heap f).vecs = []) w := by
  rw [poolBorrow, wp_bind, wp_ask, wp_bind, wp_get]
  cases hf : ctx.framePool w.clock with
  | none => exact ⟨h.tick, rfl, fun hs => ⟨hs, rfl⟩, by simp⟩
  | some f =>
    dsimp only
    rw [wp_ite]
    refine ⟨fun ho => ?_, fun _ => ⟨h.tick, rfl, fun hs => ⟨hs, rfl⟩, by simp⟩⟩
    have ho' : o ≠ some f := h.tick.ne_of_owner (by rw [ho]; simp)
    have h₁ := h.tick.setFrame (x := Pool.resetFrame (w.tick.heap f) type file line) ho'
      (fun hne => absurd ho hne) (h.capacity f) (Frame.fits_nil rfl)
    have h₂ := h₁.setOwner (f := f) (a := .user) ho'
      (fun _ => by simpa using Pool.live_resetFrame ht hl)
    refine ⟨h₂, rfl, fun hs => ⟨hs, rfl⟩, fun g hg => ?_⟩
    obtain rfl := Option.some.inj hg
    simp [Pool.resetFrame]

theorem poolBorrow_both (ctx : Context) {type : FrameType} {file : String} {line : ℕ}
    (h : Both extra pend o w) (ht : type ≠ .free) (hl : line ≠ 0) :
    wp (fun _ => False) (poolBorrow ctx type file line) (fun r w' => Both extra pend o w' ∧
      w'.socket = w.socket ∧ Steady w w' ∧ ∀ f, r = some f →
        w'.owner f = .user ∧ (w'.heap f).type = type ∧ (w'.heap f).vecs = []) w := by
  refine wp_mono (wp_sides (poolBorrow_wp ctx h.1 ht hl) (poolBorrow_echo ctx h.2 ht hl)) ?_
  rintro r w' ⟨⟨h', -, hr⟩, e', hs, l', hv⟩
  exact ⟨⟨h', e'⟩, hs, l', fun f hf => ⟨(hr f hf).1, (hr f hf).2, hv f hf⟩⟩

/-- The end-of-stream frame is empty, and no read frame is left. -/
theorem endOfStreamFrame_both (h : Both [] [] o w) :
    wp (fun _ => False) (endOfStreamFrame env) (fun r w' => Both [] [] none w' ∧
      w'.socket.readShutdown = w.socket.readShutdown ∧
      w'.socket.readWatcher = w.socket.readWatcher ∧ ∀ f, r = some f →
        w'.owner f ≠ .pool ∧ w'.owner f ≠ .writer ∧ (w'.heap f).type = .endOfStream ∧
          (w'.heap f).vecs = []) w := by
  rw [endOfStreamFrame, wp_bind, wp_getSocket]
  cases o with
  | none =>
    rw [show w.socket.readFrame = none from h.2.frame]
    refine wp_mono (poolBorrow_both env.toContext h (by simp) (by simp)) ?_
    rintro r w' ⟨h', hs, -, hr⟩
    refine ⟨h', by rw [hs], by rw [hs], fun f hf => ?_⟩
    obtain ⟨ho, ht, hv⟩ := hr f hf
    exact ⟨by simp [ho], by simp [ho], ht, hv⟩
  | some f =>
    obtain ⟨ho, hv, -⟩ := h.2.held f rfl
    have hpos : (w.heap f).pos = 0 := by
      rw [Frame.pos, hv]
      rfl
    rw [show w.socket.readFrame = some f from h.2.frame]
    simp only [wp_bind, wp_getFrame, if_pos hpos, wp_modifySocket, wp_setFrame, wp_pure]
    have hl := h.2.live f (by simp [ho])
    obtain ⟨h₁, -⟩ := h.1.setSocket (s := { w.socket with readFrame := none })
      ⟨⟨rfl, rfl, id, rfl⟩, { h.1.1 with }, id⟩
    have hx : Pool.Live { (w.heap f).formatEmpty with type := .endOfStream } := ⟨by simp, hl.2⟩
    refine ⟨⟨(h₁.setFrame (f := f) (x := { (w.heap f).formatEmpty with type := .endOfStream })
      (by simp [ho]) fun _ => hx).1, h.2.detach.setFrame (by simp) (fun _ => hx) (h.2.capacity f)
        (Frame.fits_nil rfl)⟩, rfl, rfl, fun g hg => ?_⟩
    obtain rfl := Option.some.inj hg
    exact ⟨by simp [ho], by simp [ho], by simp, by simp [Frame.formatEmpty]⟩

/-- At the end of the input the write side is closed behind all that was received. -/
theorem readShutdownNow_both (h : Both [] [] o w) :
    wp (fun _ => False) (readShutdownNow env (streamDelegate env))
      (fun _ w' => ∃ o', Both [] [] o' w') w := by
  rw [readShutdownNow, wp_bind, cntlReadStop, wp_bind, wp_modifySocket, wp_pure, wp_bind,
    wp_modifySocket, wp_bind, World.setSocket_setSocket, World.setSocket_socket]
  have hwatch : (readUnsetEvent {READ_WANT_READ} w.socket).readWatcher = false := by
    rw [readUnsetEvent_eq]
    exact if_pos (.inr (.inr h.2.level))
  obtain ⟨hsp, hst, hsl, hso, hss, hsf⟩ := sameEcho_readUnsetEvent {READ_WANT_READ} w.socket
  obtain ⟨hcq, hcp, hcc⟩ := control_readUnsetEvent h.1.1 {READ_WANT_READ}
  obtain ⟨h₁, -⟩ := h.setSocket
    (s := { readUnsetEvent {READ_WANT_READ} w.socket with readShutdown := true })
    ⟨⟨hcq.writeFrames, hcq.writeFrameLast, hcq.writeOpen, hcq.writeQueueLength⟩, { hcp with }, hcc⟩
    ⟨hsp, hst, hsl, hso, fun _ _ => ⟨rfl, hwatch⟩, hsf⟩
  have hpartial : wp (fun _ => False) (uplinkPartial env (streamDelegate env)) (fun _ w' => w' =
      w.setSocket { readUnsetEvent {READ_WANT_READ} w.socket with readShutdown := true })
      (w.setSocket { readUnsetEvent {READ_WANT_READ} w.socket with readShutdown := true }) := by
    rw [uplinkPartial, wp_bind, wp_getSocket]
    cases o with
    | none =>
      rw [show (w.setSocket { readUnsetEvent {READ_WANT_READ} w.socket with
        readShutdown := true }).socket.readFrame = none from h₁.2.frame]
      rfl
    | some f =>
      rw [show (w.setSocket { readUnsetEvent {READ_WANT_READ} w.socket with
        readShutdown := true }).socket.readFrame = some f from h₁.2.frame]
      obtain ⟨-, hv, -⟩ := h.2.held f rfl
      have hpos : ¬(w.heap f).pos > 0 := by
        rw [Frame.pos, hv]
        decide
      dsimp only
      rw [wp_bind, wp_getFrame, wp_when]
      exact ⟨fun hp => absurd hp hpos, fun _ => rfl⟩
  refine wp_mono hpartial ?_
  rintro _ _ rfl
  rw [wp_bind]
  refine wp_mono (endOfStreamFrame_both h₁) ?_
  rintro r w₂ ⟨h₂, hstop, hw₂, hr⟩
  have h₃ : Both [] [] none (w₂.record (.readEnd r)) :=
    ⟨(h₂.1.record ⟨rfl, rfl, by simp⟩).1, h₂.2.record ⟨rfl, rfl, rfl⟩⟩
  rw [wp_bind, wp_record]
  cases r with
  | none => exact wp_mono (pauseNoframes_both h₃) fun _ _ h' => ⟨none, h'.1⟩
  | some f =>
    obtain ⟨hp, hw, ht, hv⟩ := hr f rfl
    dsimp only
    rw [deliverOrRelease, wp_bind]
    refine wp_mono (deliver_end false h₃ hp hw ht hv hstop (hw₂.trans hwatch)) ?_
    rintro taken w₄ ⟨rfl, h₄⟩
    exact ⟨none, h₄⟩

/-- The read frame is the current one or a fresh one, and it is empty. -/
theorem takeReadFrame_both (h : Both [] [] o w) :
    wp (fun _ => False) (takeReadFrame env (streamDelegate env)) (fun r w' => Steady w w' ∧
      match r with
      | none => ∃ o', Both [] [] o' w'
      | some f => Both [] [] (some f) w') w := by
  rw [takeReadFrame, wp_bind, wp_getSocket, wp_ite]
  have hframe : w.socket.readFrame = o := h.2.frame
  refine ⟨fun hf => ?_, fun hf => ?_⟩
  · refine ⟨refl_of Steady w, ?_⟩
    rw [hframe] at hf ⊢
    cases o with
    | none => exact absurd rfl hf
    | some f => exact h
  · obtain rfl : o = none := by
      rw [← hframe]
      exact not_not.mp hf
    rw [wp_bind]
    have hfetch : wp (fun _ => False) (fetchReadFrame env (streamDelegate env) : StreamM π _)
        (fun r w' => Both [] [] none w' ∧ Steady w w' ∧ ∀ f, r = some f →
          w'.owner f = .user ∧ (w'.heap f).vecs = Frame.simple ∧ (w'.heap f).vecPosition = 0 ∧
            (w'.heap f).type ≠ .endOfStream) w := by
      change wp _ (poolBorrow env.toContext .rawData "stream.c" 633 >>= _) _ w
      rw [wp_bind]
      refine wp_mono (poolBorrow_both env.toContext h (by simp) (by simp)) ?_
      rintro r w₁ ⟨h₁, -, l₁, hr⟩
      cases r with
      | none => exact ⟨h₁, l₁, by simp⟩
      | some f =>
        obtain ⟨ho, ht, -⟩ := hr f rfl
        have hl : Pool.Live (w₁.heap f) := h₁.2.live f (by simp [ho])
        have hfit : Frame.Fits { w₁.heap f with vecs := Frame.simple, vecPosition := 0 } := by
          simp [Frame.Fits, Frame.simple]
        simp only [wp_bind, wp_getFrame, Frame.formatSimple_eq (h₁.2.capacity f), wp_liftM_ok,
          wp_setFrame, wp_pure]
        refine ⟨⟨(h₁.1.setFrame (x := { w₁.heap f with vecs := Frame.simple, vecPosition := 0 })
          (by simp [ho]) fun _ => hl).1, h₁.2.setFrame (by simp) (fun _ => hl) (h₁.2.capacity f)
            hfit⟩, l₁, fun g hg => ?_⟩
        obtain rfl := Option.some.inj hg
        simp [ho, ht]
    refine wp_mono hfetch ?_
    rintro r w₁ ⟨h₁, l₁, hr⟩
    cases r with
    | none =>
      rw [wp_bind]
      refine wp_mono (pauseNoframes_both h₁) ?_
      rintro _ w₂ ⟨h₂, l₂⟩
      exact ⟨trans_of Steady l₁ l₂, none, h₂⟩
    | some f =>
      obtain ⟨ho, hv, hp, ht⟩ := hr f rfl
      have hl : Pool.Live (w₁.heap f) := h₁.2.live f (by simp [ho])
      have e₂ := h₁.2.record (y := .obtained f) ⟨rfl, rfl, rfl⟩
      obtain ⟨i₂, -⟩ := h₁.1.record (y := .obtained f) ⟨rfl, rfl, by simp⟩
      have e₃ := e₂.setOwner (f := f) (a := .reader) (by simp) fun _ => hl
      obtain ⟨i₃, -⟩ := i₂.setOwner (f := f) (o := .reader) (by simp [ho]) fun _ => hl
      rw [wp_bind, wp_record, wp_bind, wp_setOwner, wp_bind, wp_modifySocket, wp_pure]
      obtain ⟨i₄, -⟩ := i₃.setSocket (s := { w₁.socket with readFrame := some f })
        ⟨⟨rfl, rfl, id, rfl⟩, { i₃.1 with }, id⟩
      refine ⟨fun hs => ?_, ⟨i₄, { e₃ with frame := rfl, held := fun g hg => ?_ }⟩⟩
      · exact ⟨(l₁ (sound_record hs)).1, (l₁ (sound_record hs)).2⟩
      · obtain rfl := Option.some.inj hg
        exact ⟨by simp, hv, hp, ht⟩

/-- The bytes that `recv` delivers are not handed over yet. -/
theorem Both.recv {v : Vec} {size : ℕ} {bytes : List UInt8} (h : Both [] [] o w) (hg : Going w) :
    Both bytes [] o (w.record (.recv v size bytes)) := by
  refine ⟨(h.1.record ⟨rfl, rfl, by simp⟩).1, { h.2 with
    received := ?_, accepted := ?_, opened := fun ho => ?_, ended := fun hs ho => ?_ }⟩
  · simpa [recvBytes, handedBytes] using h.2.received
  · simpa [acceptedBytes, handedBytes] using h.2.accepted
  · simpa [acceptedBytes, handedBytes] using h.2.opened ho
  · have hopen : w.socket.writeOpen = true := hg (sound_record hs)
    have hclosed : w.socket.writeOpen = false := ho
    rw [hopen] at hclosed
    cases hclosed

/-- Either the read loop returns, or some bytes were received. -/
theorem receive_both {v : Vec} {size : ℕ} (h : Both [] [] o w) (hg : Going w) :
    wp (fun _ => False) (receive env (streamDelegate env) v size) (fun r w' =>
      match r with
      | none => ∃ o', Both [] [] o' w'
      | some bytes => bytes ≠ [] ∧ bytes.length ≤ size ∧ Steady w w' ∧
          w'.heap = w.heap ∧ Both bytes [] o w') w := by
  have hnil : Both [] [] o (w.tick.record (.recv v size [])) :=
    ⟨((h.1.tick.1).record ⟨rfl, rfl, by simp⟩).1, h.2.tick.record ⟨rfl, rfl, rfl⟩⟩
  rw [receive, wp_bind, wp_getSocket, if_pos h.2.plain.1, recvPlain, wp_bind, wp_getSocket, wp_bind,
    wp_ask]
  cases hr : env.recv w.socket w.clock with
  | failed e =>
    have herr : wp (fun _ => False) (do
        error env (streamDelegate env) (some e) 0
        readShutdownNow env (streamDelegate env)
        return (none : Option (List UInt8))) (fun r w' =>
          match r with
          | none => ∃ o', Both [] [] o' w'
          | some bytes => bytes ≠ [] ∧ bytes.length ≤ size ∧ Steady w w' ∧
              w'.heap = w.heap ∧ Both bytes [] o w') (w.tick.record (.recv v size [])) := by
      rw [wp_bind]
      refine wp_mono (wp_sides (preserves_error env quiet_preserves e _ hnil.1)
        (error_echo hnil.2 (some e) 0)) ?_
      rintro _ w' ⟨⟨h', -⟩, e', -⟩
      rw [wp_bind]
      exact wp_mono (readShutdownNow_both ⟨h', e'⟩) fun _ _ h'' => h''
    cases e with
    | EAGAIN =>
      exact ⟨o, (hnil.setSocket (control_readSetEvent hnil.1.1 _) (sameEcho_readSetEvent _ _)).1⟩
    | _ => simpa using herr
  | data bytes =>
    simp only [wp_bind, wp_record, wp_ite, wp_pure]
    refine ⟨fun hb => ?_, fun hb => ⟨hb, List.length_take_le _ _,
      Steady.of_trace sound_record rfl, rfl, ?_⟩⟩
    · rw [hb, wp_modifySocket, wp_bind]
      have h₁ := (hnil.setSocket (s := { w.socket with sysErrno := none, sslError := 0 })
        ⟨⟨rfl, rfl, id, rfl⟩, { hnil.1.1 with }, id⟩
        ⟨⟨rfl, rfl, rfl⟩, rfl, id, rfl, fun hr hw => ⟨hr, hw⟩, rfl⟩).1
      exact wp_mono (readShutdownNow_both h₁) fun _ _ h' => h'
    · exact Both.recv ⟨h.1.tick.1, h.2.tick⟩ hg

/-- The read frame is detached and holds what was received. -/
theorem Both.detachWith {y : Frame} {bytes : List UInt8} (h : Both bytes [] (some f) w)
    (hl : Pool.Live y) (hc : y.capacity = FRAME_SIZE) (hy : y.Fits) :
    Both bytes [] none
      ((w.setFrame f y).setSocket { w.socket with readFrame := none }) := by
  obtain ⟨ho, -⟩ := h.2.held f rfl
  obtain ⟨h₁, -⟩ := h.1.setFrame (f := f) (x := y) (by simp [ho]) fun _ => hl
  obtain ⟨h₂, -⟩ := h₁.setSocket (s := { w.socket with readFrame := none })
    ⟨⟨rfl, rfl, id, rfl⟩, { h₁.1 with }, id⟩
  exact ⟨h₂, h.2.detach.setFrame (by simp) (fun _ => hl) hc hy⟩

/-- What one vector received goes to the callback, and the frame with it. -/
theorem deliver_received {y : Frame} {bytes : List UInt8} (h : Both bytes [] (some f) w)
    (hl : Pool.Live y) (hc : y.capacity = FRAME_SIZE) (hy : y.Fits) (hb : y.contents = bytes)
    (ht : y.type ≠ .endOfStream) (hv : y.vecs ≠ []) (hpos : ∀ v ∈ y.vecs, 0 < v.position) :
    wp (fun _ => False) (deliver (streamDelegate env) f false)
      (fun taken w' => taken = true ∧ Both [] [] none w' ∧ Steady w w')
      ((w.setFrame f y).setSocket { w.socket with readFrame := none }) := by
  obtain ⟨ho, -⟩ := h.2.held f rfl
  have hx : ((w.setFrame f y).setSocket { w.socket with readFrame := none }).heap f = y := by simp
  have h₁ : Both (((w.setFrame f y).setSocket { w.socket with readFrame := none }).heap f).contents
      [] none ((w.setFrame f y).setSocket { w.socket with readFrame := none }) := by
    rw [hx, hb]
    exact h.detachWith hl hc hy
  refine wp_mono (deliver_data false h₁ (by simp [ho]) (by simp [ho]) ?_ ?_ ?_) ?_
  · rwa [hx]
  · rwa [hx]
  · rwa [hx]
  · rintro taken w' ⟨ht, h', l'⟩
    exact ⟨ht, h', l'⟩

/-- The read frame after some bytes were received into it. -/
theorem stored_simple {bytes : List UInt8} (hv : x.vecs = Frame.simple) (hp : x.vecPosition = 0)
    (hb : bytes ≠ []) (hlen : bytes.length ≤ Frame.whole.limit) :
    (x.write 0 bytes).advanceVec Frame.whole bytes.length = .ok (x.stored Frame.whole bytes) ∧
      (x.stored Frame.whole bytes).contents = bytes ∧ (x.stored Frame.whole bytes).Fits ∧
      (x.stored Frame.whole bytes).vecs ≠ [] ∧
      (∀ u ∈ (x.stored Frame.whole bytes).vecs, 0 < u.position) ∧
      (x.stored Frame.whole bytes).nextVec =
        .ok (false, { x.stored Frame.whole bytes with vecPosition := 1 }) := by
  have hdrop : x.vecs.drop x.vecPosition = [Frame.whole] := by
    rw [hv, hp]
    rfl
  have hpos : 0 < bytes.length := List.length_pos_iff.mpr hb
  have hvecs : (x.stored Frame.whole bytes).vecs =
      [{ Frame.whole with position := bytes.length }] := by
    rw [Frame.vecs_stored hdrop, hp]
    simp
  have hcap : Frame.whole.limit = Frame.whole.capacity := rfl
  have hmem : ∀ u ∈ (x.stored Frame.whole bytes).vecs, u = { Frame.whole with
      position := bytes.length } := fun u hu => by
    rw [hvecs] at hu
    exact List.mem_singleton.mp hu
  refine ⟨?_, ?_, fun u hu => ?_, ?_, fun u hu => ?_, ?_⟩
  · exact Frame.advanceVec_eq (by simpa using hlen) (by simpa using hlen)
  · have hdata : (x.stored Frame.whole bytes).data = splice x.data 0 bytes := rfl
    rw [Frame.contents, hvecs, List.flatMap_singleton, Frame.receivedBytes, hdata]
    exact slice_splice_self
  · obtain rfl := hmem u hu
    exact ⟨hlen, hcap.le⟩
  · rw [hvecs]
    simp
  · obtain rfl := hmem u hu
    exact hpos
  · rw [Frame.nextVec_of_drop (Frame.drop_stored hdrop)]
    simp [Frame.stored, Frame.advanced, Frame.write, hp]

/-- One round of the read loop: what is received is handed over at once. -/
theorem readVec_both (h : Both [] [] (some f) w) (hg : Going w) :
    wp (fun _ => False) (readVec env (streamDelegate env) f) (fun more w' =>
      (∃ o', Both [] [] o' w') ∧ (more = true → Going w')) w := by
  obtain ⟨ho, hv, hp, ht⟩ := h.2.held f rfl
  have hdrop : (w.heap f).vecs.drop (w.heap f).vecPosition = [Frame.whole] := by
    rw [hv, hp]
    rfl
  have hl : Pool.Live (w.heap f) := h.2.live f (by simp [ho])
  have hsize : toSize (Frame.whole.limit - Frame.whole.position) = Frame.whole.limit :=
    toSize_sub (Nat.zero_le _)
  have hoff : Frame.whole.offset + Frame.whole.position = 0 := rfl
  rw [readVec, wp_bind, wp_getFrame, wp_bind, Frame.getVec_of_drop hdrop, wp_liftM_ok]
  dsimp only
  rw [hsize, if_neg (by decide), wp_bind]
  refine wp_mono (receive_both h hg) ?_
  rintro (_ | bytes) w₁ h₁
  · exact ⟨h₁, by simp⟩
  obtain ⟨hb, hlen, l₁, hheap, h₁⟩ := h₁
  obtain ⟨hadv, hcont, hfit, hne, hpos, hnext⟩ := stored_simple hv hp hb hlen
  dsimp only
  rw [hoff, hadv, wp_bind, wp_liftM_ok, wp_bind, wp_setFrame, vecAdvanced, wp_bind, wp_getSocket,
    wp_ite]
  refine ⟨fun _ => ?_, fun _ => ?_⟩
  · -- the vector has room left, and the partial frame is handed over
    have hpart : w₁.socket.readPartial = true := h₁.2.partly
    rw [wp_bind, wp_when]
    refine ⟨fun _ => ?_, fun hn => absurd hpart hn⟩
    rw [uplinkAlone, wp_bind, wp_modifySocket, wp_bind]
    refine wp_mono (deliver_received h₁ hl (h.2.capacity f) hfit hcont ht hne hpos) ?_
    rintro taken w₂ ⟨rfl, h₂, -⟩
    refine ⟨⟨none, ?_⟩, by simp⟩
    exact (h₂.setSocket (control_readSetEvent h₂.1.1 _) (sameEcho_readSetEvent _ _)).1
  · have hx : (w₁.setFrame f ((w.heap f).stored Frame.whole bytes)).heap f =
        (w.heap f).stored Frame.whole bytes := by simp
    rw [wp_bind, wp_getFrame, hx, hnext, wp_bind, wp_liftM_ok, wp_bind, wp_setFrame,
      World.setFrame_setFrame, if_pos rfl, wp_bind, uplink, wp_bind, wp_modifySocket, wp_bind]
    refine wp_mono (deliver_received
      (y := { (w.heap f).stored Frame.whole bytes with vecPosition := 1 }) h₁ hl (h.2.capacity f)
      hfit hcont ht hne hpos) ?_
    rintro taken w₂ ⟨rfl, h₂, l₂⟩
    exact ⟨⟨none, h₂⟩, fun _ => hg.steady (trans_of Steady l₁ l₂)⟩

theorem readLoop_both (n : ℕ) (h : Both [] [] o w) (hg : Going w) :
    wp (fun _ => False) (readLoop env (streamDelegate env) n)
      (fun _ w' => ∃ o', Both [] [] o' w') w := by
  induction n generalizing w o with
  | zero => exact ⟨o, (h.setSocket (control_readSetEvent h.1.1 _) (sameEcho_readSetEvent _ _)).1⟩
  | succ n ih =>
    rw [readLoop, wp_bind]
    refine wp_mono (takeReadFrame_both h) ?_
    rintro (_ | f) w₁ ⟨l₁, h₁⟩
    · exact h₁
    dsimp only
    rw [wp_bind]
    refine wp_mono (readVec_both h₁ (hg.steady l₁)) ?_
    rintro more w₂ ⟨⟨o₂, h₂⟩, hg₂⟩
    rw [wp_ite]
    exact ⟨fun hm => ih h₂ (hg₂ hm), fun _ => ⟨o₂, h₂⟩⟩

theorem onReadEvent_both (h : Both [] [] o w) (hg : Going w) :
    wp (fun _ => False) (onReadEvent env (streamDelegate env))
      (fun _ w' => ∃ o', Both [] [] o' w') w := by
  obtain ⟨hs, ht, hc⟩ := h.2.plain
  rw [onReadEvent, wp_bind, wp_getSocket, if_neg (not_not_intro ⟨hc, .inl ⟨hs, ht⟩⟩)]
  exact readLoop_both _ h hg

end Reading

section Runs

open ReadEvent WriteEvent

/-- Between the events everything received was handed over, and the callback does not run. -/
def Server (w : World Stream π) : Prop := ∃ o, Both [] [] o w

/-- A stream whose read watcher is active was not told to stop. -/
theorem going_of_watcher (h : Both [] [] o w) (hw : w.socket.readWatcher = true) : Going w := by
  intro hs
  by_contra ho
  obtain ⟨-, hoff, -⟩ := h.2.ended hs (by simpa using ho)
  rw [hoff] at hw
  cases hw

theorem onRead_server (h : Server w) (hw : w.socket.readWatcher = true) :
    wp (fun _ => False) (Stream.onRead env (streamDelegate env)) (fun _ => Server) w := by
  obtain ⟨o, h⟩ := h
  rw [Stream.onRead, wp_bind, wp_getSocket, wp_ite]
  refine ⟨fun _ => ⟨o, ?_⟩, fun _ => ?_⟩
  · exact (h.setSocket (s := { w.socket with readWatcher := false })
      ⟨⟨rfl, rfl, id, rfl⟩, { h.1.1 with }, id⟩
      ⟨⟨rfl, rfl, rfl⟩, rfl, id, rfl, fun hr _ => ⟨hr, rfl⟩, rfl⟩).1
  · rw [wp_bind]
    refine wp_mono (Q := fun _ => Server) ?_ ?_
    · rw [wp_when]
      exact ⟨fun _ => onReadEvent_both h (going_of_watcher h hw), fun _ => ⟨o, h⟩⟩
    · rintro _ w' ⟨o', h'⟩
      rw [wp_bind, wp_getSocket, wp_when]
      exact ⟨fun hs => by simp [h'.2.plain.1] at hs, fun _ => ⟨o', h'⟩⟩

/-- The write event does not read, so it is that of the quiet delegate. -/
theorem onWriteEvent_server (h : Server w) :
    wp (fun _ => False) (onWriteEvent env (streamDelegate env)) (fun _ => Server) w := by
  obtain ⟨o, h⟩ := h
  have hq : onWriteEvent env (streamDelegate env) = onWriteEvent env (quiet : Delegate π) :=
    onWriteEvent_ofRead env _ _
  rw [hq]
  exact wp_mono (onWriteEvent_both h) fun _ _ h' => ⟨o, h'.1⟩

theorem onWrite_server (h : Server w) :
    wp (fun _ => False) (Stream.onWrite env (streamDelegate env)) (fun _ => Server) w := by
  have hconn : ¬CONNECT_WANT_WRITE ∈ w.socket.writeEvents := by
    obtain ⟨o, h⟩ := h
    intro hm
    have hc := h.1.1.connect hm
    rw [h.2.plain.2.2] at hc
    cases hc
  rw [Stream.onWrite, wp_bind, wp_getSocket, wp_bind, wp_when]
  refine ⟨fun hc => absurd hc hconn, fun _ => ?_⟩
  rw [onWriteReady, wp_bind, wp_getSocket, wp_bind]
  refine wp_mono (Q := fun _ => Server) ?_ ?_
  · rw [wp_when]
    exact ⟨fun _ => onWriteEvent_server h, fun _ => h⟩
  · rintro _ w' ⟨o', h'⟩
    rw [wp_bind, wp_getSocket, wp_when]
    exact ⟨fun hs => by simp [h'.2.plain.1] at hs, fun _ => ⟨o', h'⟩⟩

theorem onError_server (h : Server w) :
    wp (fun _ => False) (Stream.onError env (streamDelegate env)) (fun _ => Server)
      (w.setSocket { w.socket with readWatcher := false, writeWatcher := false }) := by
  obtain ⟨o, h⟩ := h
  obtain ⟨⟨h₁, e₁⟩, -⟩ := h.setSocket
    (s := { w.socket with readWatcher := false, writeWatcher := false })
    ⟨⟨rfl, rfl, id, rfl⟩, { h.1.1 with }, id⟩
    ⟨⟨rfl, rfl, rfl⟩, rfl, id, rfl, fun hr _ => ⟨hr, rfl⟩, rfl⟩
  refine wp_mono (wp_sides (preserves_error env quiet_preserves .ECONNRESET _ h₁)
    (error_echo e₁ (some .ECONNRESET) 0)) ?_
  rintro _ w' ⟨⟨h', -⟩, e', -⟩
  exact ⟨o, h', e'⟩

/-- `on_check_cb` and `on_exit_cb` leave the bytes and the frames alone. -/
theorem cntl_server (h : Server w) {codes : Finset Cntl}
    (hrun : ServerRun w (.call (.cntl codes))) :
    wp (fun _ => False) (Stream.cntl env (streamDelegate env) codes) (fun _ => Server) w := by
  obtain ⟨o, h⟩ := h
  rcases hrun with ⟨rfl, -⟩ | ⟨rfl, hlevel⟩ | rfl
  · rw [Stream.cntl, Cntl.filter_singleton, cntlCodes, wp_bind]
    exact wp_mono (cntlReadPause_both true h (.inl rfl)) fun _ _ h' => ⟨o, h'.1⟩
  · have hpos : 0 < w.socket.readPauseLevel := lt_of_le_of_ne h.2.level (Ne.symm hlevel)
    rw [Stream.cntl, Cntl.filter_singleton, cntlCodes, wp_bind]
    exact wp_mono (cntlReadPause_both false h (.inr hpos)) fun _ _ h' => ⟨o, h'.1⟩
  · have hcodes : Cntl.all.filter (· ∈ ({.READ_STOP, .WRITE_STOP} : Finset Cntl)) =
        [.READ_STOP, .WRITE_STOP] := by decide
    obtain ⟨h₁, -⟩ := h.setSocket (control_readUnsetEvent h.1.1 {READ_WANT_READ})
      (sameEcho_readUnsetEvent {READ_WANT_READ} _)
    rw [Stream.cntl, hcodes]
    exact ⟨o, (h₁.setSocket (control_writeUnsetEvent h₁.1.1 {WRITE_WANT_WRITE})
      (sameEcho_writeUnsetEvent {WRITE_WANT_WRITE} _)).1⟩

/-- Every event keeps the server in its state, whatever the system answers. -/
theorem event_server (e : Event) :
    Preserves (fun _ => False) Server Unrelated
      (e.exec (π := π) env (streamDelegate env) ServerRun) := by
  intro w h
  cases e with
  | call c =>
    rw [Event.exec, Call.exec, wp_bind, wp_get, wp_when]
    refine ⟨?_, fun _ => ⟨h, trivial⟩⟩
    rintro ⟨-, hrun⟩
    cases c with
    | cntl codes =>
      rw [Call.perform, wp_bind]
      exact wp_mono (cntl_server h hrun) fun _ _ h' => ⟨h', trivial⟩
    | _ => exact hrun.elim
  | read =>
    rw [Event.exec, wp_bind, wp_get, wp_when]
    exact ⟨fun hw => wp_mono (onRead_server h hw.1) fun _ _ h' => ⟨h', trivial⟩,
      fun _ => ⟨h, trivial⟩⟩
  | write =>
    rw [Event.exec, wp_bind, wp_get, wp_when]
    exact ⟨fun _ => wp_mono (onWrite_server h) fun _ _ h' => ⟨h', trivial⟩,
      fun _ => ⟨h, trivial⟩⟩
  | error =>
    rw [Event.exec, wp_bind, wp_get, wp_when]
    refine ⟨fun _ => ?_, fun _ => ⟨h, trivial⟩⟩
    rw [wp_bind, wp_modifySocket]
    exact wp_mono (onError_server h) fun _ _ h' => ⟨h', trivial⟩

theorem server_init (proto : π) (data : FrameId → ℕ → UInt8) :
    Server (World.init accepted proto data) := by
  refine ⟨none, ?_, ?_⟩
  · obtain ⟨hp, q, hq⟩ := writeInv_init .accept proto data
    exact ⟨{ hp with }, q, { hq with }⟩
  · exact {
      plain := ⟨rfl, rfl, rfl⟩
      partly := rfl
      level := le_rfl
      received := rfl
      accepted := List.nil_prefix
      opened := fun _ => rfl
      ended := fun _ ho => by cases ho
      live := fun f hf => absurd rfl hf
      capacity := fun f => rfl
      fits := fun f => Frame.fits_nil rfl
      frame := rfl
      held := fun f hf => by cases hf }

/-- What the peer gets back: what it sent, in its order. Unless there was an error nothing is lost:
what was not sent yet waits in the write queue, and before the write side is shut down everything
was sent. -/
structure Replies (w : World Stream π) : Prop where
  order : sentBytes w.trace <+: recvBytes w.trace
  waiting : Sound w → ∃ q, Chain w.next w.socket.writeFrames q ∧
    recvBytes w.trace = sentBytes w.trace ++ q.flatMap fun f => (w.heap f).payload
  complete : Sound w → .shutdown .SHUT_WR ∈ w.trace → sentBytes w.trace = recvBytes w.trace

/-- Without an error everything that was received was accepted for sending. -/
theorem Echo.accepted_eq (h : Echo [] [] o w) (hs : Sound w) :
    acceptedBytes dataOnly w.trace = recvBytes w.trace := by
  by_cases ho : w.socket.writeOpen = true
  · rw [h.opened ho, h.received]
  · exact (h.ended hs (by simpa using ho)).2.2

theorem Server.replies (h : Server w) : Replies w := by
  obtain ⟨o, ⟨-, q, hq⟩, he⟩ := h
  refine ⟨?_, fun hs => ⟨q, hq.chain, ?_⟩, fun hs hm => ?_⟩
  · have hrecv : recvBytes w.trace = handedBytes w.trace := by simpa using he.received
    have hacc : acceptedBytes dataOnly w.trace <+: handedBytes w.trace := by
      simpa using he.accepted
    rw [hrecv]
    exact (hq.bytes ▸ List.prefix_append _ _ :
      sentBytes w.trace <+: acceptedBytes dataOnly w.trace).trans hacc
  · rw [hq.bytes, he.accepted_eq hs]
  · obtain ⟨rfl, -⟩ := hq.done hm
    rw [← he.accepted_eq hs, ← hq.bytes, List.flatMap_nil, List.append_nil]

/-- In every run of the reply server, whatever the system, the pool and the event loop do, no
assertion fails, and the peer gets back what it sent. -/
theorem run_replies (env : Env) (proto : π) (data : FrameId → ℕ → UInt8) (events : List Event) :
    wp (fun _ => False) (run env (streamDelegate env) ServerRun events) (fun _ => Replies)
      (World.init accepted proto data) :=
  wp_mono (preserves_forM (fun e _ => event_server e) _ (server_init proto data))
    fun _ _ h => h.1.replies

end Runs

end Reply

end Stream

end FrameTransporter
