import FrameTransporter.Sock.Stream.Frames

/-! # A plain stream loses no frame

Every call and event leaves each frame in one place, so no frame is returned
twice, and none is forgotten. Finalising the stream returns what it still holds,
and the calls that the delegate makes then give it no new frames.
-/

namespace FrameTransporter

open Hoare Intrusive

namespace Stream.Frames

open ReadEvent WriteEvent

open Dgram (Admitted admitted_getVec admitted_nextVec admitted_advanceVec admitted_formatSimple)

variable {π : Type}

section Functions

variable {env : Env} {d : Delegate π} {w : World Stream π} {f : FrameId} {q : List FrameId}
  {r : Option FrameId}

theorem holding_error (hd : FrameDelegate d) (e : Option Errno) (l : ℕ) :
    Holding (Stream.error env d e l) := by
  refine Preserves.ite _ (fun _ => preserves_throw (by simp [Admitted])) fun _ =>
    (holding_ask _).bind fun now => (holding_beside fun s => ?_).bind fun _ =>
    preserves_getSocket_bind fun w hw => ((holding_record fun f p => rfl).bind fun _ =>
      hd.preserves.error.bind fun _ => (holding_beside fun s => ?_).bind fun _ =>
      (holding_beside fun s => ?_).bind fun _ => holding_record fun f p => rfl) w hw
  · exact ⟨rfl, rfl, fun _ => rfl, rfl, rfl⟩
  · exact ⟨rfl, rfl, id, rfl, rfl⟩
  · exact ⟨rfl, rfl, id, rfl, rfl⟩

theorem beside_writeShut (now : ℚ) (s : Stream) : Beside s (writeShut now s) :=
  ⟨rfl, rfl, id, rfl, rfl⟩

theorem holding_awaitWrite : Holding (modifySocket (π := π) awaitWrite) :=
  holding_beside beside_awaitWrite

/-- Either the write loop returns, or bytes were taken and nothing else happened. -/
theorem transmit_wp (hd : FrameDelegate d) (bytes : List UInt8) (h : Holds w q w.socket.readFrame) :
    wp Admitted (transmit env d bytes) (fun r w' =>
      (r = none → Inv w' ∧ Later w.socket w'.socket) ∧
        (r ≠ none → w'.heap = w.heap ∧ w'.socket = w.socket ∧ Holds w' q w.socket.readFrame))
          w := by
  have hrec : ∀ bytes, Holds (w.tick.record (.send bytes)) q w.socket.readFrame :=
    fun bytes => h.tick.record fun f p => rfl
  have hstop : ∀ {m : StreamM π Unit} (bytes : List UInt8), Holding m →
      wp Admitted (m >>= fun _ => pure none) (fun (r : Option ℕ) w' =>
        (r = none → Inv w' ∧ Later w.socket w'.socket) ∧
          (r ≠ none → w'.heap = w.heap ∧ w'.socket = w.socket ∧ Holds w' q w.socket.readFrame))
        (w.tick.record (.send bytes)) := by
    intro m bytes hm
    rw [wp_bind]
    exact wp_mono (hm _ ⟨q, hrec bytes⟩) fun _ w' h' => ⟨fun _ => h', by simp⟩
  rw [transmit, wp_bind, wp_getSocket, if_pos h.ssl, wp_bind, wp_ask]
  cases env.send w.socket w.clock with
  | failed e =>
    have herr : Holding (Stream.error env d (some e) 0) := holding_error hd (some e) 0
    cases e with
    | EAGAIN => exact hstop _ holding_awaitWrite
    | _ => exact hstop _ herr
  | sent n =>
    dsimp only
    rw [wp_bind, wp_record, wp_ite]
    exact ⟨fun _ => hstop _ holding_awaitWrite, fun _ => ⟨by simp, fun _ => ⟨rfl, rfl, hrec _⟩⟩⟩

/-- The front frame of the queue is returned. -/
theorem releaseFront_wp (hd : FrameDelegate d) (h : Holds w (f :: q) w.socket.readFrame)
    (last : Link FrameId) (n : ℕ)
    (hl : w.socket.writeOpen = true →
      last = if (w.heap f).next = none then .head else w.socket.writeFrameLast) :
    wp Admitted (releaseFrame env d f 'W') (fun _ w' => Inv w' ∧ Later w.socket w'.socket ∧
      (w.socket.writeOpen = false → (w.heap f).next = none → w'.socket.writeFrames = none))
      (w.setSocket { w.socket with
        writeQueueLength := n, writeFrames := (w.heap f).next, writeFrameLast := last }) := by
  have hne : w.socket.writeFrames ≠ none := by simp [(chain_cons.mp h.chain).1]
  rw [releaseFrame, wp_bind, wp_setOwner, wp_bind, wp_record]
  have h₁ := h.dequeue last n hl
  refine wp_mono (giveBack_wp (fun g hg => hd.preserves.frameReturn g hg f 'W') ⟨q, h₁⟩
    (frameReturn_wp env.toContext ⟨q, h₁⟩ (by simp))) ?_
  rintro _ w' ⟨h', l'⟩
  exact ⟨h', ⟨l'.closed, fun _ hf => absurd hf hne, l'.free⟩, l'.empty⟩

theorem dequeueFrame_wp (hd : FrameDelegate d) (h : Holds w (f :: q) w.socket.readFrame) :
    wp Admitted (dequeueFrame env d f) (fun _ w' => Inv w' ∧ Later w.socket w'.socket) w := by
  rw [dequeueFrame, wp_bind, wp_getSocket, wp_bind, wp_getFrame, wp_ite]
  refine ⟨fun _ => by simp [Admitted], fun _ => ?_⟩
  rw [wp_bind, wp_modifySocket]
  exact wp_mono (releaseFront_wp hd h _ _ fun _ => rfl) fun _ _ h' => ⟨h'.1, h'.2.1⟩

/-- A frame at the front of the queue keeps its place while its vectors change. -/
theorem Holds.setVecs {x : Frame} (h : Holds w (f :: q) r) (hx : (w.heap f).SameHeader x) :
    Holds (w.setFrame f x) (f :: q) r :=
  h.setFrame (fun hp => hx.live (h.live f hp)) fun _ => ⟨hx.next, hx.type⟩

theorem writeVec_wp (hd : FrameDelegate d) (h : Holds w (f :: q) w.socket.readFrame) :
    wp Admitted (writeVec env d f) (fun _ w' => Inv w' ∧ Later w.socket w'.socket) w := by
  rw [writeVec, wp_bind, wp_getFrame, wp_bind]
  cases hv : (w.heap f).getVec with
  | error e => exact admitted_getVec hv
  | ok v =>
    rw [wp_liftM_ok]
    cases v with
    | none => exact ⟨by simp, by simp, by simp⟩
    | some v =>
      dsimp only
      rw [wp_ite]
      refine ⟨fun _ => ⟨by simp, by simp, by simp⟩, fun _ => ?_⟩
      rw [wp_bind]
      refine wp_mono (transmit_wp hd _ h) fun r w₁ h₁ => ?_
      cases r with
      | none => exact h₁.1 rfl
      | some n =>
        obtain ⟨hheap, hs, h₁⟩ := h₁.2 (by simp)
        have l₁ : Later w.socket w₁.socket := hs ▸ refl_of Later _
        rw [← hs] at h₁
        dsimp only
        rw [wp_bind]
        cases hx : (w.heap f).advanceVec v n with
        | error e => exact admitted_advanceVec hx
        | ok x =>
          have hx₁ := Frame.SameHeader.of_advanceVec hx
          rw [← hheap] at hx₁
          have h₂ := h₁.setVecs hx₁
          rw [wp_liftM_ok, wp_bind, wp_setFrame, wp_ite]
          refine ⟨fun _ => ?_, fun _ => ?_⟩
          · rw [wp_bind]
            exact holding_awaitWrite.wp (w := w₁.setFrame f x) ⟨_, h₂⟩ l₁
          · rw [wp_bind]
            cases hy : x.nextVec with
            | error e => exact admitted_nextVec hy
            | ok r =>
              obtain ⟨more, y⟩ := r
              have hy₁ := Frame.SameHeader.of_nextVec hy
              have h₃ := h₂.setVecs (x := y) (by simpa using hy₁)
              rw [wp_liftM_ok, wp_bind, wp_setFrame, wp_ite]
              refine ⟨fun _ => ⟨⟨_, h₃⟩, l₁⟩, fun _ => ?_⟩
              rw [wp_bind]
              refine wp_mono (dequeueFrame_wp hd h₃) fun _ w' h' => ⟨h'.1, ?_⟩
              exact trans_of Later l₁ h'.2

theorem writeEndOfStream_wp (hd : FrameDelegate d) (h : Holds w (f :: q) w.socket.readFrame)
    (ht : (w.heap f).type = .endOfStream) :
    wp Admitted (writeEndOfStream env d f) (fun _ w' => Inv w' ∧ Later w.socket w'.socket) w := by
  obtain ⟨rfl, ho⟩ := h.eq_nil ht
  rw [writeEndOfStream, wp_bind, wp_getFrame, wp_bind, wp_modifySocket, wp_bind]
  refine wp_mono (releaseFront_wp hd h w.socket.writeFrameLast w.socket.writeQueueLength fun hop =>
    by simp [ho] at hop) ?_
  rintro _ w₁ ⟨h₁, l₁, _⟩
  rw [wp_bind, wp_getSocket, wp_ite]
  refine ⟨fun _ => by simp [Admitted], fun _ => ?_⟩
  have hssl : w₁.socket.ssl = false := h₁.choose_spec.ssl
  have hrest : Holding (do
      let now ← ask env.evNow
      modifySocket (writeShut now)
      FrameTransporter.record (.shutdown .SHUT_WR) : StreamM π Unit) :=
    (holding_ask _).bind fun now => (holding_beside (beside_writeShut now)).bind fun _ =>
      holding_record fun _ _ => rfl
  have hs := beside_writeUnsetEvent {WRITE_WANT_WRITE} w₁.socket
  rw [wp_bind, wp_modifySocket, if_neg (by simp [hssl])]
  exact hrest.wp (h₁.beside hs) (trans_of Later l₁ hs.later)

theorem holding_writeLoop (hd : FrameDelegate d) (n : ℕ) : Holding (writeLoop env d n) := by
  induction n with
  | zero =>
    refine preserves_getSocket_bind fun w hw => ?_
    exact Preserves.when _ (fun _ => holding_awaitWrite) w hw
  | succ n ih =>
    refine preserves_getSocket_bind fun w hw => ?_
    cases hf : w.socket.writeFrames with
    | none => exact preserves_pure _ w hw
    | some f =>
      obtain ⟨q, h⟩ := hw
      obtain ⟨q, rfl, -⟩ := (hf ▸ h.chain).exists_cons
      dsimp only
      rw [wp_bind, wp_getFrame, wp_ite]
      refine ⟨fun ht => writeEndOfStream_wp hd h ht, fun _ => ?_⟩
      rw [wp_bind]
      refine wp_mono (writeVec_wp hd h) ?_
      rintro more w₁ ⟨h₁, l₁⟩
      rw [wp_ite]
      exact ⟨fun _ => ih.wp h₁ l₁, fun _ => ⟨h₁, l₁⟩⟩

theorem holding_writeReal (hd : FrameDelegate d) : Holding (writeReal env d) :=
  preserves_getSocket_bind fun w hw => Preserves.ite _
    (fun _ => preserves_throw (by simp [Admitted])) (fun _ => Preserves.ite _
      (fun _ => preserves_throw (by simp [Admitted])) fun _ => holding_writeLoop hd _) w hw

theorem holding_onWriteEvent (hd : FrameDelegate d) : Holding (onWriteEvent env d) := by
  refine preserves_getSocket_bind fun w hw => Preserves.ite _
    (fun _ => preserves_throw (by simp [Admitted])) (fun _ => (holding_beside fun s => ?_).bind
      fun _ => Preserves.ite _ (fun _ => (holding_beside fun s => ?_).bind fun _ =>
        (holding_writeReal hd).bind fun _ => preserves_getSocket_bind fun w hw => ?_)
      fun _ => holding_beside (beside_writeUnsetEvent _)) w hw
  · exact ⟨rfl, rfl, id, rfl, rfl⟩
  · exact ⟨rfl, rfl, id, rfl, rfl⟩
  · exact Preserves.when _ (fun _ => holding_beside (beside_writeUnsetEvent _)) w hw

/-- An open stream queues the frame. -/
theorem writeOpen_wp (hd : FrameDelegate d) (hop : w.socket.writeOpen = true)
    (h : Inv (queued w f)) :
    wp Admitted (Stream.write env d f) (fun _ w' => Inv w' ∧ Later w.socket w'.socket) w := by
  have l₁ : Later w.socket (queued w f).socket :=
    ⟨fun hc => by simp [hop] at hc, fun hc => by simp [hop] at hc, id⟩
  rw [Stream.write, wp_bind, wp_getSocket, if_neg (by simp [hop]), wp_bind, wp_enqueueFrame, wp_ite]
  refine ⟨fun _ => ?_, fun _ => ?_⟩
  · rw [wp_bind, wp_when]
    exact ⟨fun _ => (holding_beside (beside_writeSetEvent _)).wp h l₁, fun _ => ⟨h, l₁⟩⟩
  · rw [wp_bind]
    exact (holding_writeReal hd).wp h l₁

/-- A frame of the user is queued or refused. -/
theorem write_wp (hd : FrameDelegate d) (h : Inv w) (ho : w.owner f = .user) :
    wp Admitted (Stream.write env d f) (fun _ w' => Inv w' ∧ Later w.socket w'.socket) w := by
  by_cases hop : w.socket.writeOpen = true
  · obtain ⟨q, h⟩ := h
    exact writeOpen_wp hd hop ⟨_, h.enqueue hop ho⟩
  · rw [Stream.write, wp_bind, wp_getSocket, if_pos (by simpa using hop)]
    exact ⟨h, refl_of Later _⟩

theorem holding_cntlWriteShutdown (hd : FrameDelegate d) :
    Holding (cntlWriteShutdown env d) := by
  intro w h
  rw [cntlWriteShutdown, wp_bind, wp_getSocket, wp_ite, wp_ite]
  refine ⟨fun _ => ⟨h, refl_of Later _⟩, fun _ => ⟨fun _ => ⟨h, refl_of Later _⟩, fun hop => ?_⟩⟩
  obtain ⟨q, h⟩ := h
  rw [wp_bind]
  refine wp_mono (poolBorrow_holds env.toContext (by simp) (by simp) h) ?_
  rintro r w₁ ⟨⟨h₁, hs⟩, hr⟩
  have l₁ : Later w.socket w₁.socket := hs ▸ refl_of Later _
  rw [← hs] at h₁ hop
  cases r with
  | none => exact ⟨⟨q, h₁⟩, l₁⟩
  | some f =>
    have hop : w₁.socket.writeOpen = true := by simpa using hop
    rw [wp_bind, wp_record]
    refine wp_mono (writeOpen_wp (w := w₁.record (.obtained f)) hd hop
      ⟨_, h₁.enqueueObtained hop (hr f rfl)⟩) fun _ w₂ h₂ => ⟨h₂.1, ?_⟩
    exact trans_of Later l₁ h₂.2

/-- After the frame that is not full was passed on, the read frame is empty if there is one. -/
theorem uplinkPartial_wp (hd : FrameDelegate d) (h : Inv w) :
    wp Admitted (uplinkPartial env d) (fun _ w' => (Inv w' ∧ Later w.socket w'.socket) ∧
      ∀ f, w'.socket.readFrame = some f → (w'.heap f).pos = 0) w := by
  rw [uplinkPartial, wp_bind, wp_getSocket]
  cases hf : w.socket.readFrame with
  | none => exact ⟨⟨h, refl_of Later _⟩, by simp [hf]⟩
  | some f =>
    dsimp only
    rw [wp_bind, wp_getFrame, wp_when]
    refine ⟨fun _ => ?_, fun hpos => ⟨⟨h, refl_of Later _⟩, fun g hg => ?_⟩⟩
    · rw [wp_bind, wp_modifySocket]
      refine wp_mono (deliverOrRelease_wp hd true (InHand.detach h hf)) ?_
      rintro _ w₁ ⟨h₁, l₁⟩
      refine ⟨⟨h₁, l₁.closed, l₁.empty, fun hn => by simp [hf] at hn⟩, fun g hg => ?_⟩
      rw [l₁.free rfl] at hg
      simp at hg
    · rw [hf] at hg
      obtain rfl := Option.some.inj hg
      exact Nat.eq_zero_of_not_pos hpos

/-- The end-of-stream frame is the read frame, or one that the stream takes from the pool. Once this
is noted, it is in hand. -/
theorem endOfStreamFrame_wp (h : Inv w)
    (hpos : ∀ f, w.socket.readFrame = some f → (w.heap f).pos = 0) :
    wp Admitted (endOfStreamFrame env) (fun r w' => Later w.socket w'.socket ∧
      match r with
      | none => Inv w'
      | some f => InHand f (w'.record (.readEnd (some f)))) w := by
  rw [endOfStreamFrame, wp_bind, wp_getSocket]
  cases hf : w.socket.readFrame with
  | none =>
    refine wp_mono (poolBorrow_wp env.toContext (by simp) (by simp) h) ?_
    rintro r w₁ ⟨⟨h₁, hs⟩, hr⟩
    refine ⟨hs ▸ refl_of Later _, ?_⟩
    cases r with
    | none => exact h₁
    | some f =>
      have ho : w₁.owner f = .user := hr f rfl
      have hn : w₁.socket.readFrame = none := by rw [hs, hf]
      obtain ⟨q, h₁⟩ := h₁
      rw [hn] at h₁
      have hplaced : Placed (w₁.trace ++ [.readEnd (some f)]) q (some f) :=
        h₁.placed.readEnd (h₁.not_mem (by simp [ho])) (Or.inl rfl)
      exact ⟨hn, q, h₁.take ho hplaced⟩
  | some f =>
    obtain ⟨hn, q, h₁⟩ := InHand.detach h hf
    dsimp only
    rw [wp_bind, wp_getFrame, if_pos (hpos f hf), wp_bind, wp_modifySocket, wp_bind, wp_setFrame,
      wp_pure]
    refine ⟨⟨id, fun _ => id, fun _ => rfl⟩, hn, q, ?_⟩
    have hl := h₁.live f (by simp)
    have h₂ := h₁.setFrame (f := f) (x := { (w.heap f).formatEmpty with type := .endOfStream })
      (fun _ => ⟨by simp, hl.2⟩) (by simp)
    exact { h₂ with placed := h₂.placed.readEnd (h₂.not_mem (by simp)) (Or.inr rfl) }

theorem holding_readShutdownNow (hd : FrameDelegate d) : Holding (readShutdownNow env d) := by
  have hshut : ∀ s : Stream, Beside s { s with readShutdown := true } :=
    fun _ => ⟨rfl, rfl, id, rfl, rfl⟩
  refine ((holding_beside fun s => beside_readUnsetEvent _ s).bind fun _ =>
    preserves_pure _).bind fun _ => (holding_beside hshut).bind fun _ w h => ?_
  rw [wp_bind]
  refine wp_mono (uplinkPartial_wp hd h) ?_
  rintro _ w₁ ⟨⟨h₁, l₁⟩, hpos⟩
  rw [wp_bind]
  refine wp_mono (endOfStreamFrame_wp h₁ hpos) ?_
  rintro r w₂ ⟨l₂, h₂⟩
  have l₂ : Later w.socket w₂.socket := trans_of Later l₁ l₂
  rw [wp_bind, wp_record]
  cases r with
  | none => exact holding_pauseNoframes.wp (h₂.record fun _ _ => by simp [Place.step]) l₂
  | some f =>
    refine wp_mono (deliverOrRelease_wp hd false h₂) ?_
    rintro _ w₃ ⟨h₃, l₃⟩
    refine ⟨h₃, ?_⟩
    exact trans_of Later l₂ l₃

theorem holding_cntlAbort (hd : FrameDelegate d) : Holding (cntlAbort env d) :=
  (holding_readShutdownNow hd).bind fun _ => (holding_beside (beside_writeUnsetEvent _)).bind
    fun _ => (holding_ask _).bind fun now => (holding_beside (beside_writeShut now)).bind fun _ =>
    (holding_record fun _ _ => rfl).bind fun _ => preserves_pure _

theorem holding_cntlCode (hd : FrameDelegate d) (c : Cntl) : Holding (cntlCode env d c) := by
  cases c with
  | READ_START => exact (holding_beside (beside_readSetEvent _)).bind fun _ => preserves_pure _
  | READ_STOP => exact (holding_beside (beside_readUnsetEvent _)).bind fun _ => preserves_pure _
  | READ_PAUSE => exact holding_cntlReadPause true
  | READ_RESUME => exact holding_cntlReadPause false
  | WRITE_START => exact (holding_beside (beside_writeSetEvent _)).bind fun _ => preserves_pure _
  | WRITE_STOP => exact (holding_beside (beside_writeUnsetEvent _)).bind fun _ => preserves_pure _
  | WRITE_SHUTDOWN => exact holding_cntlWriteShutdown hd
  | ABORT => exact holding_cntlAbort hd

/-- A new read frame is fetched, which belongs to the user until it is attached. -/
theorem fetchReadFrame_wp (hd : FrameDelegate d) (h : Inv w) :
    wp Admitted (fetchReadFrame env d) (fun r w' => (Inv w' ∧ Later w.socket w'.socket) ∧
      ∀ f, r = some f → w'.owner f = .user) w := by
  rw [fetchReadFrame]
  cases hg : d.getReadFrame with
  | some g => exact wp_and (hd.preserves.getReadFrame g hg w h) (hd.fetch g hg w h)
  | none =>
    dsimp only
    rw [wp_bind]
    refine wp_mono (poolBorrow_wp env.toContext (by simp) (by simp) h) ?_
    rintro r w₁ ⟨⟨⟨q, h₁⟩, hs⟩, hr⟩
    have l₁ : Later w.socket w₁.socket := hs ▸ refl_of Later _
    cases r with
    | none => exact ⟨⟨⟨q, h₁⟩, l₁⟩, by simp⟩
    | some f =>
      have ho : w₁.owner f = .user := hr f rfl
      dsimp only
      rw [wp_bind, wp_getFrame, wp_bind]
      cases hx : (w₁.heap f).formatSimple with
      | error e => exact admitted_formatSimple hx
      | ok x =>
        have hl := (Frame.SameHeader.of_formatSimple hx).live (h₁.live f (by simp [ho]))
        rw [wp_liftM_ok, wp_bind, wp_setFrame, wp_pure]
        exact ⟨⟨⟨q, h₁.setFrame (fun _ => hl) (by simp [ho])⟩, l₁⟩, hr⟩

/-- The read frame is the current one or one that is taken now. -/
theorem takeReadFrame_wp (hd : FrameDelegate d) (h : Inv w) :
    wp Admitted (takeReadFrame env d) (fun r w' => Inv w' ∧
      ∀ f, r = some f → w'.socket.readFrame = some f) w := by
  rw [takeReadFrame, wp_bind, wp_getSocket, wp_ite]
  refine ⟨fun _ => ⟨h, fun f hf => hf⟩, fun hn => ?_⟩
  have hn : w.socket.readFrame = none := not_not.mp hn
  rw [wp_bind]
  refine wp_mono (fetchReadFrame_wp hd h) ?_
  rintro r w₁ ⟨⟨h₁, l₁⟩, hr⟩
  cases r with
  | none =>
    rw [wp_bind]
    exact wp_mono (holding_pauseNoframes _ h₁) fun _ w₂ h₂ => ⟨h₂.1, by simp⟩
  | some f =>
    have ho : w₁.owner f = .user := hr f rfl
    obtain ⟨q, h₁⟩ := h₁
    rw [l₁.free hn] at h₁
    have hplaced : Placed (w₁.trace ++ [.obtained f]) q (some f) :=
      h₁.placed.take (h₁.not_mem (by simp [ho])) fun g p => by simp [Place.step, eq_comm]
    rw [wp_bind, wp_record, wp_bind, wp_setOwner, wp_bind, wp_modifySocket, wp_pure]
    exact ⟨⟨q, (h₁.take ho hplaced).setSocket rfl rfl id rfl⟩, fun g hg => hg⟩

/-- The read frame stays while bytes were received for it. -/
theorem receive_wp (hd : FrameDelegate d) (v : Vec) (size : ℕ) (h : Inv w) :
    wp Admitted (receive env d v size) (fun r w' =>
      Inv w' ∧ (r ≠ none → w'.socket = w.socket)) w := by
  have hssl : w.socket.ssl = false := h.choose_spec.ssl
  have hrec : ∀ bytes : List UInt8, Inv (w.tick.record (.recv v size bytes)) :=
    fun bytes => h.imp fun _ hq => hq.tick.record fun _ _ => rfl
  rw [receive, wp_bind, wp_getSocket, if_pos hssl, recvPlain, wp_bind, wp_getSocket, wp_bind,
    wp_ask]
  cases env.recv w.socket w.clock with
  | failed e =>
    have hfail : wp Admitted (do
        Stream.error env d (some e) 0
        readShutdownNow env d
        return none) (fun (r : Option (List UInt8)) w' =>
          Inv w' ∧ (r ≠ none → w'.socket = w.socket)) (w.tick.record (.recv v size [])) := by
      rw [wp_bind]
      refine wp_mono (holding_error hd (some e) 0 _ (hrec [])) ?_
      rintro _ w₂ ⟨h₂, _⟩
      rw [wp_bind]
      exact wp_mono (holding_readShutdownNow hd w₂ h₂) fun _ _ h' => ⟨h'.1, by simp⟩
    cases e with
    | EAGAIN =>
      exact ⟨(hrec []).beside (beside_readSetEvent {READ_WANT_READ} w.socket), by simp⟩
    | _ => exact hfail
  | data bytes =>
    have hclear : ∀ s : Stream, Beside s { s with sysErrno := none, sslError := 0 } :=
      fun _ => ⟨rfl, rfl, id, rfl, rfl⟩
    dsimp only
    rw [wp_bind, wp_record, wp_ite]
    refine ⟨fun _ => ?_, fun _ => ⟨hrec _, fun _ => rfl⟩⟩
    rw [wp_bind, wp_modifySocket, wp_bind]
    exact wp_mono (holding_readShutdownNow hd _ ((hrec _).beside (hclear w.socket)))
      fun _ _ h' => ⟨h'.1, by simp⟩

/-- The read frame is given away, or taken again. -/
theorem uplinkWith_wp (hd : FrameDelegate d) (h : Inv w) (hf : w.socket.readFrame = some f)
    {m : StreamM π Unit} (hm : ∀ w, InHand f w → wp Admitted m (fun _ w' =>
      w' = (w.setOwner f .reader).setSocket { w.socket with readFrame := some f }) w) :
    wp Admitted (do
      modifySocket fun s => { s with readFrame := none }
      if ← deliver d f false then return ()
      else m) (fun _ => Inv) w := by
  rw [wp_bind, wp_modifySocket, wp_bind]
  refine wp_mono (deliver_wp hd false (InHand.detach h hf)) ?_
  rintro taken w₁ ⟨_, h₁⟩
  cases taken with
  | true => exact h₁
  | false =>
    refine wp_mono (hm w₁ h₁.2) fun _ w₂ he => ?_
    subst he
    exact h₁.2.attach

theorem uplink_wp (hd : FrameDelegate d) (h : Inv w) (hf : w.socket.readFrame = some f) :
    wp Admitted (uplink d f) (fun _ => Inv) w := uplinkWith_wp hd h hf fun _ _ => rfl

theorem uplinkAlone_wp (hd : FrameDelegate d) (h : Inv w) (hf : w.socket.readFrame = some f) :
    wp Admitted (uplinkAlone d f) (fun _ => Inv) w :=
  uplinkWith_wp hd h hf fun w hw => by
    rw [wp_bind, wp_getSocket, wp_ite]
    exact ⟨fun hn => absurd hw.1 hn, fun _ => rfl⟩

theorem vecAdvanced_wp (hd : FrameDelegate d) (filled : Bool) (h : Inv w)
    (hf : w.socket.readFrame = some f) :
    wp Admitted (vecAdvanced d f filled) (fun _ => Inv) w := by
  have hset : Holding (modifySocket (π := π) (readSetEvent {READ_WANT_READ})) :=
    holding_beside (beside_readSetEvent _)
  rw [vecAdvanced, wp_bind, wp_getSocket, wp_ite]
  refine ⟨fun _ => ?_, fun _ => ?_⟩
  · rw [wp_bind, wp_when]
    refine ⟨fun _ => ?_, fun _ => h.beside (beside_readSetEvent {READ_WANT_READ} w.socket)⟩
    refine wp_mono (uplinkAlone_wp hd h hf) fun _ w₁ h₁ => ?_
    exact h₁.beside (beside_readSetEvent {READ_WANT_READ} w₁.socket)
  · obtain ⟨q, h⟩ := h
    have ho : w.owner f = .reader := (h.reader f).mpr hf
    rw [wp_bind, wp_getFrame, wp_bind]
    cases hn : (w.heap f).nextVec with
    | error e => exact admitted_nextVec hn
    | ok r =>
      obtain ⟨more, x⟩ := r
      have hl := (Frame.SameHeader.of_nextVec hn).live (h.live f (by simp [ho]))
      have h₁ : Inv (w.setFrame f x) := ⟨q, h.setFrame (fun _ => hl) (by simp [ho])⟩
      have hup : wp Admitted (do
          uplink d f
          let s ← getSocket
          return decide (READ_WANT_READ ∈ s.readEvents)) (fun _ => Inv) (w.setFrame f x) := by
        rw [wp_bind]
        exact wp_mono (uplink_wp hd h₁ hf) fun _ _ h₂ => h₂
      rw [wp_liftM_ok, wp_bind, wp_setFrame, wp_ite, wp_ite]
      exact ⟨fun _ => hup, fun _ => ⟨fun _ => hup, fun _ => h₁⟩⟩

theorem readVec_wp (hd : FrameDelegate d) (h : Inv w) (hf : w.socket.readFrame = some f) :
    wp Admitted (readVec env d f) (fun _ => Inv) w := by
  have hl : Pool.Live (w.heap f) := by
    obtain ⟨q, h⟩ := h
    exact h.live f (by simp [(h.reader f).mpr hf])
  rw [readVec, wp_bind, wp_getFrame, wp_bind]
  cases hv : (w.heap f).getVec with
  | error e => exact admitted_getVec hv
  | ok v =>
    rw [wp_liftM_ok]
    cases v with
    | none => exact ⟨by simp, by simp, by simp⟩
    | some v =>
      dsimp only
      rw [wp_ite]
      refine ⟨fun _ => ⟨by simp, by simp, by simp⟩, fun _ => ?_⟩
      rw [wp_bind]
      refine wp_mono (receive_wp hd v _ h) ?_
      rintro r w₁ ⟨⟨q, h₁⟩, hs⟩
      cases r with
      | none => exact ⟨q, h₁⟩
      | some bytes =>
        have hf₁ : w₁.socket.readFrame = some f := by rw [hs (by simp), hf]
        have ho : w₁.owner f = .reader := (h₁.reader f).mpr hf₁
        dsimp only
        rw [wp_bind]
        cases hx : ((w.heap f).write (v.offset + v.position) bytes).advanceVec v bytes.length with
        | error e => exact admitted_advanceVec hx
        | ok x =>
          have hx := (Frame.SameHeader.of_advanceVec hx).live (x := (w.heap f).write _ _) hl
          have h₂ : Inv (w₁.setFrame f x) := ⟨q, h₁.setFrame (fun _ => hx) (by simp [ho])⟩
          rw [wp_liftM_ok, wp_bind, wp_setFrame]
          exact vecAdvanced_wp hd _ h₂ hf₁

theorem readLoop_wp (hd : FrameDelegate d) (n : ℕ) : ∀ {w : World Stream π}, Inv w →
    wp Admitted (readLoop env d n) (fun _ => Inv) w := by
  induction n with
  | zero => exact fun {w} h => h.beside (beside_readSetEvent {READ_WANT_READ} w.socket)
  | succ n ih =>
    intro w h
    rw [readLoop, wp_bind]
    refine wp_mono (takeReadFrame_wp hd h) ?_
    rintro r w₁ ⟨h₁, hr⟩
    cases r with
    | none => exact h₁
    | some f =>
      dsimp only
      rw [wp_bind]
      refine wp_mono (readVec_wp hd h₁ (hr f rfl)) fun more w₂ h₂ => ?_
      rw [wp_ite]
      exact ⟨fun _ => ih h₂, fun _ => h₂⟩

theorem onReadEvent_wp (hd : FrameDelegate d) (h : Inv w) :
    wp Admitted (onReadEvent env d) (fun _ => Inv) w := by
  rw [onReadEvent, wp_bind, wp_getSocket, wp_ite]
  exact ⟨fun _ => by simp [Admitted], fun _ => readLoop_wp hd _ h⟩

theorem holding_onConnectEvent (hd : FrameDelegate d) : Holding (onConnectEvent env d) := by
  refine preserves_getSocket_bind fun w₀ hw₀ => Preserves.ite _
    (fun _ => preserves_throw (by simp [Admitted]))
    (fun _ => (holding_ask _).bind fun r => ?_) w₀ hw₀
  cases r with
  | unknown => exact preserves_pure _
  | error e => exact holding_error hd (some e) 0
  | none =>
    have hstart : Holding (cntlStart (π := π)) :=
      ((holding_beside (beside_readSetEvent _)).bind fun _ => preserves_pure _).bind fun _ =>
        ((holding_beside (beside_writeSetEvent _)).bind fun _ => preserves_pure _).bind fun _ =>
          preserves_pure _
    have hconn : ∀ s : Stream, Beside s { s with connecting := false } :=
      fun _ => ⟨rfl, rfl, id, rfl, rfl⟩
    refine (holding_beside (beside_writeUnsetEvent _)).bind fun _ w hw => ?_
    rw [if_neg (by simp [hw₀.choose_spec.ssl])]
    exact (hstart.bind fun _ => (holding_beside hconn).bind fun _ =>
      (holding_record fun _ _ => rfl).bind fun _ => hd.preserves.connected.bind fun _ =>
        holding_onWriteEvent hd) w hw

theorem onWrite_wp (hd : FrameDelegate d) (h : Inv w) :
    wp Admitted (onWrite env d) (fun _ => Inv) w := by
  have hready : Holding (onWriteReady env d) := by
    refine preserves_getSocket_bind fun w hw => ((Preserves.when _ fun _ =>
      holding_onWriteEvent hd).bind fun _ => preserves_getSocket_bind fun w hw => ?_) w hw
    rw [wp_when]
    exact ⟨fun hs => by simp [hw.choose_spec.ssl] at hs, fun _ => ⟨hw, refl_of Later _⟩⟩
  rw [onWrite, wp_bind, wp_getSocket, wp_bind]
  refine wp_mono (Preserves.when _ (fun _ => holding_onConnectEvent hd) w h) fun _ w₁ h₁ => ?_
  exact wp_mono (hready w₁ h₁.1) fun _ _ h' => h'.1

theorem onRead_wp (hd : FrameDelegate d) (h : Inv w) :
    wp Admitted (onRead env d) (fun _ => Inv) w := by
  rw [onRead, wp_bind, wp_getSocket, wp_ite]
  refine ⟨fun _ => h.beside ⟨rfl, rfl, id, rfl, rfl⟩, fun _ => ?_⟩
  have hrest : ∀ w₁, Inv w₁ → wp Admitted (do
      let s ← getSocket
      when s.ssl do
        when (SSL_HANDSHAKE_WANT_READ ∈ s.readEvents) <| onSslHandshakeEvent env d
        let s ← getSocket
        when (SSL_SHUTDOWN_WANT_READ ∈ s.readEvents ∧ s.writeShutdown = false) <|
          onSslSentShutdownEvent env d
        let s ← getSocket
        when (SSL_WRITE_WANT_READ ∈ s.readEvents) <| onWriteEvent env d) (fun _ => Inv) w₁ := by
    intro w₁ h₁
    rw [wp_bind, wp_getSocket, wp_when]
    exact ⟨fun hs => by simp [h₁.choose_spec.ssl] at hs, fun _ => h₁⟩
  rw [wp_bind, wp_when]
  exact ⟨fun _ => wp_mono (onReadEvent_wp hd h) fun _ => hrest, fun _ => hrest w h⟩

end Functions

section Runs

variable (env : Env) {d : Delegate π} {w : World Stream π} {q : List FrameId} {r : Option FrameId}

/-- Every call leaves each frame in one place. -/
theorem holding_call (hd : FrameDelegate d) (c : Call) :
    Holding (c.exec env d Plaintext) := by
  refine preserves_get_bind fun w hw => ?_
  rw [wp_when]
  refine ⟨?_, fun _ => ⟨hw, refl_of (SocketStep Later) w⟩⟩
  rintro ⟨hperm, hrun⟩
  cases c with
  | write f =>
    rw [Call.perform, wp_bind]
    exact wp_mono (write_wp hd hw hperm) fun _ _ h => h
  | cntl codes =>
    exact ((cntlCodes_preserves fun c _ => holding_cntlCode hd c).bind fun _ => preserves_pure _)
      w hw
  | enableSsl _ => exact hrun.elim
  | setPartial b => exact ⟨hw.beside ⟨rfl, rfl, id, rfl, rfl⟩, id, fun _ => id, id⟩
  | borrow type =>
    rw [Call.perform, wp_bind]
    refine wp_mono (poolBorrow_wp env.toContext hperm (by simp) hw) ?_
    rintro _ w' ⟨⟨h', hs⟩, _⟩
    refine ⟨h', ?_⟩
    exact ⟨hs ▸ id, hs ▸ fun _ => id, hs ▸ id⟩
  | frameReturn f => exact frameReturn_wp env.toContext hw hperm
  | fill f type vecs vecPosition data =>
    obtain ⟨q, h⟩ := hw
    have hperm : w.owner f = .user ∧ type ≠ .free := hperm
    rw [Call.perform, wp_bind, wp_getFrame, wp_setFrame]
    refine ⟨⟨q, h.setFrame (fun ho => ?_) (by simp [hperm.1])⟩, refl_of Later _⟩
    exact ⟨hperm.2, (h.live f ho).2⟩

/-- The delegate of a script answers and refuses its own frames only. -/
theorem scripted_frameDelegate (script : Script) (n : ℕ) :
    FrameDelegate (scripted (π := π) env Plaintext script n) := by
  have hdelegate (calls : List Call → StreamM π Unit) (h : ∀ cs, Holding (calls cs)) :
      FrameDelegate (script.delegate calls) := by
    have hcalls {α : Type} (cs : List Call) {k : StreamM π α} {Q : α → World Stream π → Prop}
        (hk : ∀ w, wp Admitted k Q w) (w : World Stream π) (hw : Inv w) :
        wp Admitted (calls cs >>= fun _ => k) Q w := by
      rw [wp_bind]
      exact wp_mono (h cs w hw) fun _ w' _ => hk w'
    refine ⟨Script.delegate_preserves (fun w hw => holding_ask (fun _ => ()) w hw) ?_ h, ?_, ?_⟩
    · rintro w f data vecs vecPosition ⟨q, hw⟩ ho
      refine ⟨⟨q, hw.setFrame (fun hp => hw.live f hp) (by simp [ho])⟩, ?_⟩
      exact refl_of Later _
    · rintro g hg w ⟨q, hw⟩
      obtain ⟨g, -, rfl⟩ := Option.mem_map.mp hg
      rw [wp_bind, wp_ask]
      rcases g w.clock with ⟨cs, frame⟩
      refine hcalls cs (fun w₁ => ?_) _ ⟨q, hw.tick⟩
      rw [wp_bind, wp_get]
      cases frame with
      | none => simp
      | some layout =>
        obtain ⟨f, vecs, vecPosition⟩ := layout
        dsimp only
        rw [wp_ite]
        refine ⟨fun ho => ?_, fun _ => by simp⟩
        rw [wp_bind, wp_setFrame, wp_pure]
        intro f' hf
        obtain rfl := Option.some.inj hf
        exact ho
    · rintro f w ⟨q, hw⟩
      change wp _ (getFrame f >>= _) _ w
      rw [wp_bind, wp_getFrame, wp_bind, wp_ask]
      rcases script.read f (w.heap f) w.clock with ⟨cs, refused⟩
      refine hcalls cs (fun w₁ => ?_) _ ⟨q, hw.tick⟩
      rw [wp_bind, wp_get]
      cases refused with
      | none => simp
      | some layout =>
        obtain ⟨vecs, vecPosition⟩ := layout
        dsimp only
        rw [wp_ite]
        exact ⟨fun ho _ => ho, fun _ => by simp⟩
  induction n with
  | zero => exact hdelegate _ fun _ => preserves_pure _
  | succ n ih => exact hdelegate _ fun cs => preserves_forM fun c _ => holding_call env ih c

theorem event_holds (hd : FrameDelegate d) (e : Event) (h : Inv w) :
    wp Admitted (e.exec env d Plaintext) (fun _ => Inv) w := by
  cases e with
  | call c => exact wp_mono (holding_call env hd c w h) fun _ _ h' => h'.1
  | read =>
    rw [Event.exec, wp_bind, wp_get, wp_when]
    exact ⟨fun _ => onRead_wp hd h, fun _ => h⟩
  | write =>
    rw [Event.exec, wp_bind, wp_get, wp_when]
    exact ⟨fun _ => onWrite_wp hd h, fun _ => h⟩
  | error =>
    rw [Event.exec, wp_bind, wp_get, wp_when]
    refine ⟨fun _ => ?_, fun _ => h⟩
    have hs : Beside w.socket (stopped w.socket) := ⟨rfl, rfl, id, rfl, rfl⟩
    rw [wp_bind, wp_modifySocket, onError]
    exact wp_mono (holding_error hd _ _ _ (h.beside hs)) fun _ _ h' => h'.1

/-- What the delegate does while the stream is finalised. Most control codes assert that the socket
has a descriptor, which it has not any more. -/
def Finalised (_ : World Stream π) : Event → Prop
  | .call (.cntl codes) => codes ⊆ {.READ_PAUSE, .READ_RESUME, .WRITE_SHUTDOWN}
  | .call (.enableSsl _) => False
  | _ => True

instance (w : World Stream π) : (e : Event) → Decidable (Finalised w e)
  | .call (.cntl codes) =>
    inferInstanceAs (Decidable (codes ⊆ {.READ_PAUSE, .READ_RESUME, .WRITE_SHUTDOWN}))
  | .call (.enableSsl _) => inferInstanceAs (Decidable False)
  | .call (.write _) | .call (.setPartial _) | .call (.borrow _) | .call (.frameReturn _)
  | .call (.fill ..) | .read | .write | .error => inferInstanceAs (Decidable True)

/-- The stream takes no frames any more. -/
structure Sealed (q : List FrameId) (r : Option FrameId) (w : World Stream π) : Prop where
  holds : Holds w q r
  writeOpen : w.socket.writeOpen = false
  writeShutdown : w.socket.writeShutdown = true

/-- A sealed stream keeps exactly the frames that it has. -/
abbrev Sealing {α : Type} (q : List FrameId) (r : Option FrameId) (m : StreamM π α) : Prop :=
  Preserves Admitted (Sealed q r) (SocketStep Later) m

theorem sealing_beside {g : Stream → Stream}
    (hg : ∀ s, Beside s (g s) ∧ (g s).writeShutdown = s.writeShutdown) :
    Sealing q r (modifySocket (π := π) g) := by
  intro w h
  obtain ⟨hb, hw⟩ := hg w.socket
  exact ⟨⟨h.holds.beside hb, hb.writeOpen h.writeOpen, hw.trans h.writeShutdown⟩, hb.later⟩

theorem sealing_cntlReadPause (on : Bool) : Sealing q r (cntlReadPause (π := π) on) := by
  refine preserves_getSocket_bind fun w hw => ?_
  cases on with
  | true =>
    refine ((sealing_beside fun s => ?_).bind fun _ => (Preserves.when _ fun _ =>
      sealing_beside fun s => ⟨beside_readUnsetEvent ∅ s, ?_⟩).bind fun _ => preserves_pure _) w hw
    · exact ⟨⟨rfl, rfl, id, rfl, rfl⟩, rfl⟩
    · rw [readUnsetEvent_eq]
  | false =>
    refine (Preserves.ite _ (fun _ => preserves_throw (by simp [Admitted])) fun _ =>
      (sealing_beside fun s => ?_).bind fun _ => (Preserves.when _ fun _ =>
        sealing_beside fun s => ⟨beside_readSetEvent ∅ s, ?_⟩).bind fun _ => preserves_pure _) w hw
    · exact ⟨⟨rfl, rfl, id, rfl, rfl⟩, rfl⟩
    · rw [readSetEvent_eq]

theorem sealing_call (c : Call) : Sealing q r (c.exec env d Finalised) := by
  refine preserves_get_bind fun w hw => ?_
  rw [wp_when]
  refine ⟨?_, fun _ => ⟨hw, refl_of (SocketStep Later) w⟩⟩
  rintro ⟨hperm, hrun⟩
  cases c with
  | write f =>
    rw [Call.perform, wp_bind, Stream.write, wp_bind, wp_getSocket, if_pos hw.writeOpen]
    exact ⟨hw, refl_of (SocketStep Later) w⟩
  | cntl codes =>
    refine ((cntlCodes_preserves fun c hc => ?_).bind fun _ => preserves_pure _) w hw
    have hc : c ∈ codes := by simpa using (List.mem_filter.mp hc).2
    have hc : c ∈ ({.READ_PAUSE, .READ_RESUME, .WRITE_SHUTDOWN} : Finset Cntl) := hrun hc
    simp only [Finset.mem_insert, Finset.mem_singleton] at hc
    rcases hc with rfl | rfl | rfl
    · exact sealing_cntlReadPause true
    · exact sealing_cntlReadPause false
    · refine preserves_getSocket_bind fun w hw => ?_
      rw [if_pos hw.writeShutdown]
      exact ⟨hw, refl_of (SocketStep Later) w⟩
  | enableSsl _ => exact hrun.elim
  | setPartial b =>
    exact ⟨⟨hw.holds.beside ⟨rfl, rfl, id, rfl, rfl⟩, hw.writeOpen, hw.writeShutdown⟩, id,
      fun _ => id, id⟩
  | borrow type =>
    rw [Call.perform, wp_bind]
    refine wp_mono (poolBorrow_holds env.toContext hperm (by simp) hw.holds) ?_
    rintro _ w' ⟨⟨h', hs⟩, _⟩
    exact ⟨⟨h', hs ▸ hw.writeOpen, hs ▸ hw.writeShutdown⟩, hs ▸ id, hs ▸ fun _ => id, hs ▸ id⟩
  | frameReturn f =>
    have hperm : w.owner f = .user := hperm
    refine (wp_frameReturn (hw.holds.live f (by simp [hperm]))).mpr ?_
    exact ⟨⟨hw.holds.returned env.toContext hperm, hw.writeOpen, hw.writeShutdown⟩, id,
      fun _ => id, id⟩
  | fill f type vecs vecPosition data =>
    have hperm : w.owner f = .user ∧ type ≠ .free := hperm
    rw [Call.perform, wp_bind, wp_getFrame, wp_setFrame]
    refine ⟨⟨hw.holds.setFrame (fun ho => ?_) (by simp [hperm.1]), hw.writeOpen,
      hw.writeShutdown⟩, id, fun _ => id, id⟩
    exact ⟨hperm.2, (hw.holds.live f ho).2⟩

theorem scripted_sealing (script : Script) (n : ℕ) :
    (scripted (π := π) env Finalised script n).Preserves Admitted (Sealed q r)
      (SocketStep Later) := by
  refine scripted_preserves (fun w hw => ?_) (fun w f data vecs vecPosition hw ho => ?_)
    (fun d _ c => sealing_call env c) n
  · exact ⟨⟨hw.holds.tick, hw.writeOpen, hw.writeShutdown⟩, id, fun _ => id, id⟩
  · refine ⟨⟨hw.holds.setFrame (fun hp => hw.holds.live f hp) (by simp [ho]), hw.writeOpen,
      hw.writeShutdown⟩, id, fun _ => id, id⟩

/-- A frame that has left a sealed stream is given back. -/
theorem giveBack_sealed {f : FrameId} {side : Char}
    (hd : d.Preserves Admitted (Sealed q r) (SocketStep Later)) (h : Sealed q r w)
    (hf : w.owner f = .user) :
    wp Admitted (match d.frameReturn with
      | some g => g f side
      | none => frameReturn env.toContext f)
      (fun _ w' => Sealed q r w' ∧ Later w.socket w'.socket) w := by
  refine giveBack_wp (fun g hg => hd.frameReturn g hg f side) h ?_
  rw [wp_frameReturn (h.holds.live f (by simp [hf]))]
  exact ⟨⟨h.holds.returned env.toContext hf, h.writeOpen, h.writeShutdown⟩, id, fun _ => id, id⟩

theorem returnReadFrame_wp (hd : d.Preserves Admitted (Sealed q none) (SocketStep Later))
    (h : Sealed q w.socket.readFrame w) :
    wp Admitted (returnReadFrame env d)
      (fun _ w' => Sealed q none w' ∧ w'.socket.readFrame = none) w := by
  rw [returnReadFrame, wp_bind, wp_getSocket]
  cases hf : w.socket.readFrame with
  | none => exact ⟨hf ▸ h, hf⟩
  | some f =>
    rw [hf] at h
    have ho : w.setOwner f .reader = w := by
      rw [← (h.holds.reader f).mpr rfl]
      simp [World.setOwner]
    have hplaced : Placed (w.trace ++ [.release f 'R']) q none :=
      h.holds.placed.give (z := .returned) (by simp [Place.Held])
        fun g p => by simp [Place.step, eq_comm]
    have h₁ : Sealed q none ((w.setOwner f .user).record (.release f 'R')) :=
      ⟨Holds.give (by rw [ho]; exact h.holds) hplaced, h.writeOpen, h.writeShutdown⟩
    dsimp only
    rw [wp_bind, releaseFrame, wp_bind, wp_setOwner, wp_bind, wp_record]
    refine wp_mono (giveBack_sealed env hd h₁ (by simp)) ?_
    rintro _ w₂ ⟨h₂, _⟩
    exact ⟨⟨h₂.holds.setSocket rfl rfl id rfl, h₂.writeOpen, h₂.writeShutdown⟩, rfl⟩

/-- The loop comes to its end, as the delegate can add no frame. -/
theorem returnWriteFrames_wp (hd : ∀ q, d.Preserves Admitted (Sealed q none) (SocketStep Later))
    {n : ℕ} (hn : q.length ≤ n) (h : Sealed q none w) (hr : w.socket.readFrame = none) :
    wp Admitted (returnWriteFrames env d n) (fun done w' => done = true ∧ Sealed [] none w' ∧
      w'.socket.readFrame = none) w := by
  induction n generalizing q w with
  | zero =>
    obtain rfl : q = [] := List.length_eq_zero_iff.mp (Nat.le_zero.mp hn)
    rw [returnWriteFrames, wp_bind, wp_getSocket, wp_pure]
    exact ⟨decide_eq_true h.holds.chain, h, hr⟩
  | succ n ih =>
    rw [returnWriteFrames, wp_bind, wp_getSocket]
    cases q with
    | nil =>
      have hf : w.socket.writeFrames = none := h.holds.chain
      rw [hf]
      exact ⟨rfl, h, hr⟩
    | cons f q =>
      have hf : w.socket.writeFrames = some f := (chain_cons.mp h.holds.chain).1
      rw [hf]
      dsimp only
      have h₁ := h.holds.dequeue w.socket.writeFrameLast w.socket.writeQueueLength
        fun hop => by simp [h.writeOpen] at hop
      rw [wp_bind, wp_getFrame, wp_bind, wp_modifySocket, wp_bind, releaseFrame, wp_bind,
        wp_setOwner, wp_bind, wp_record]
      refine wp_mono (giveBack_sealed env (hd q) ⟨h₁, h.writeOpen, h.writeShutdown⟩ (by simp)) ?_
      rintro _ w₂ ⟨h₂, l₂⟩
      exact ih (by simpa using hn) h₂ (l₂.free hr)

/-- In the history of a stream each frame was moved properly, and it is in the place where the
history left it: it is the read frame, in the write queue once, or neither. -/
structure Conserved (w : World Stream π) : Prop where
  moved : ∀ f t, t <+: w.trace → placeOf f t ≠ none
  placed : ∃ q, Chain w.next w.socket.writeFrames q ∧ Placed w.trace q w.socket.readFrame

/-- The stream has no frame. -/
structure Released (w : World Stream π) : Prop where
  readFrame : w.socket.readFrame = none
  writeFrames : w.socket.writeFrames = none
  placed : ∀ f, ∃ p, placeOf f w.trace = some p ∧ ¬p.Held

theorem Placed.moved {t t' : List Io} (h : Placed t q r) (f : FrameId) (ht : t' <+: t) :
    placeOf f t' ≠ none := by
  obtain ⟨p, hp, -⟩ := h f
  exact placeOf_of_prefix (by simp [hp]) ht

theorem Inv.conserved (h : Inv w) : Conserved w := by
  obtain ⟨q, h⟩ := h
  exact ⟨fun f _ ht => h.placed.moved f ht, q, h.chain, h.placed⟩

theorem Sealed.released (h : Sealed [] none w) (hr : w.socket.readFrame = none) :
    Conserved w ∧ Released w := by
  refine ⟨Inv.conserved ⟨[], hr ▸ h.holds⟩, hr, h.holds.chain, fun f => ?_⟩
  obtain ⟨p, hp, hrd, hwr⟩ := h.holds.placed f
  refine ⟨p, hp, ?_⟩
  rintro (he | he)
  · simpa using hrd.mp he
  · simpa using hwr.mp he

/-- Finalising a stream returns all its frames, if the delegate and its callback `fini` keep a
sealed stream as it is. -/
theorem fini_wp (hd : ∀ q, d.Preserves Admitted (Sealed q none) (SocketStep Later))
    {onFini : StreamM π Unit} (hfini : Sealing [] none onFini) {n : ℕ} (hn : q.length ≤ n)
    (h : Holds w q w.socket.readFrame) :
    wp Admitted (fini env d onFini n)
      (fun done w' => done = true ∧ Conserved w' ∧ Released w') w := by
  have hb := (beside_readUnsetEvent {READ_WANT_READ} w.socket)
  have hb' := beside_writeUnsetEvent {WRITE_WANT_WRITE} (readUnsetEvent {READ_WANT_READ} w.socket)
  have h₁ := ((h.beside hb).beside hb').tick
  rw [fini, wp_bind, cntlReadStop, wp_bind, wp_modifySocket, wp_pure, wp_bind, cntlWriteStop,
    wp_bind, wp_modifySocket, wp_pure, wp_bind, wp_ask, wp_bind, wp_modifySocket, wp_bind]
  refine wp_mono (returnReadFrame_wp env (hd q) ⟨?_, rfl, rfl⟩) ?_
  · have hr := hb'.readFrame.trans hb.readFrame
    rw [World.setSocket_socket]
    change Holds _ q (writeUnsetEvent _ (readUnsetEvent _ w.socket)).readFrame
    rw [hr]
    exact h₁.setSocket rfl rfl (fun _ => rfl) rfl
  rintro _ w₂ ⟨h₂, hr₂⟩
  rw [wp_bind]
  refine wp_mono (returnWriteFrames_wp env hd hn h₂ hr₂) ?_
  rintro done w₃ ⟨hdone, h₃, hr₃⟩
  subst hdone
  have h₄ : Sealed [] none (w₃.setSocket { w₃.socket with ssl := false }) :=
    ⟨h₃.holds.setSocket rfl rfl id h₃.holds.ssl.symm, h₃.writeOpen, h₃.writeShutdown⟩
  rw [wp_bind, when, if_pos rfl, wp_bind, wp_modifySocket]
  refine wp_mono (hfini _ h₄) ?_
  rintro _ w₅ ⟨h₅, l₅⟩
  exact ⟨rfl, h₅.released (l₅.free hr₃)⟩

/-- In every run of a plain stream each frame is in one place at a time and none is returned twice,
and finalising the stream then returns all that it has. -/
theorem run_conserved (script : Script) (n : ℕ) (o : Opening) (proto : π)
    (data : FrameId → ℕ → UInt8) (events : List Event) (calls : List Call) :
    wp Admitted (run env (scripted env Plaintext script n) Plaintext events) (fun _ w =>
      Conserved w ∧ ∃ k₀, ∀ k ≥ k₀,
        wp Admitted (fini env (scripted env Finalised script n)
          (nestedCalls env Finalised script n calls) k)
          (fun done w' => done = true ∧ Conserved w' ∧ Released w') w)
      (World.init (opened o) proto data) := by
  have hd := scripted_frameDelegate (π := π) env script n
  have hinit : Inv (World.init (opened o) proto data) := by
    refine ⟨[], ?_⟩
    have hr : (World.init (opened o) proto data).socket.readFrame = none := by
      cases o <;> simp [World.init, opened, writeSetEvent_eq, readSetEvent_eq, Stream.init]
    rw [hr]
    exact holds_init o proto data
  refine wp_mono (wp_forM (fun e _ w hw => event_holds env hd e hw) hinit) fun _ w h => ?_
  refine ⟨h.conserved, ?_⟩
  obtain ⟨q, h⟩ := h
  refine ⟨q.length, fun k hk => ?_⟩
  refine fini_wp env (fun q => scripted_sealing env script n) ?_ hk h
  cases n with
  | zero => exact preserves_pure _
  | succ n => exact preserves_forM fun c _ => sealing_call env c

end Runs

end Stream.Frames

end FrameTransporter
