import FrameTransporter.Sock.Dgram.Frames

/-! # A finalised datagram socket has released its frames

Every call and event keeps hold of the frames of the socket, so none is returned
twice. Finalising the socket returns the read frame, and nothing else: it releases
all frames of the socket exactly when the write queue is empty.
-/

namespace FrameTransporter

open Hoare Intrusive

namespace Dgram

open ReadEvent WriteEvent

variable {π : Type}

/-- A fault other than the return of a frame that is not in use. -/
def Admitted (e : Fault) : Prop :=
  e ≠ .abort .typeNotFree ∧ e ≠ .abort .lastSeenByFile ∧ e ≠ .abort .lastSeenByLine

section Functions

variable {env : Env} {d : Delegate π} {w : World Dgram π} {f : FrameId} {q : List FrameId}

theorem admitted_getVec {x : Frame} {e : Fault} (h : x.getVec = .error e) : Admitted e := by
  rw [Frame.getVec_error h]
  simp [Admitted]

theorem admitted_nextVec {x : Frame} {e : Fault} (h : x.nextVec = .error e) : Admitted e := by
  rw [Frame.nextVec_error h]
  simp [Admitted]

theorem admitted_advanceVec {x : Frame} {v : Vec} {n : ℕ} {e : Fault}
    (h : x.advanceVec v n = .error e) : Admitted e := by
  rcases Frame.advanceVec_abort h with rfl | rfl <;> simp [Admitted]

theorem admitted_formatSimple {x : Frame} {e : Fault} (h : x.formatSimple = .error e) :
    Admitted e := by
  rw [Frame.formatSimple_error h]
  simp [Admitted]

/-- The end-of-stream frame leaves the queue empty, and closes the write side for good. -/
theorem writeEndOfStream_holds {E : Fault → Prop} (hd : FrameDelegate E d)
    (hE : d.read = none → E (.abort .delegateRead)) (h : Holds w (f :: q))
    (ht : (w.heap f).type = .endOfStream) :
    wp E (writeEndOfStream env d f) (fun _ w' => (Inv w' ∧ Later w.socket w'.socket) ∧
      w'.socket.writeOpen = false ∧ w'.socket.writeFrames = none) w := by
  obtain ⟨ho, pre, hpre⟩ := h.closed f (by simp) ht
  obtain rfl : q = [] := by
    cases pre with
    | nil => simpa using hpre
    | cons a pre =>
      have hm : f ∈ q := by simp [(List.cons.inj hpre).2]
      exact absurd hm (List.nodup_cons.mp h.chain.nodup).1
  have hq := h.dequeue w.socket.writeFrameLast fun hop => by simp [ho] at hop
  have hnext : (w.heap f).next = none := (chain_cons.mp h.chain).2
  have hne : w.socket.writeFrames ≠ none := by simp [(chain_cons.mp h.chain).1]
  rw [writeEndOfStream, wp_bind, wp_getFrame, wp_bind, wp_modifySocket, wp_bind, giveBack, wp_bind,
    wp_record]
  refine (wp_frameReturn (Lets.live ⟨[], hq⟩)).mpr ?_
  refine wp_mono (shutdownReal_holds hd hE true ⟨[], hq.returned env.toContext⟩) ?_
  rintro _ w₁ ⟨⟨h₁, l₁⟩, ho₁, hf₁⟩
  exact ⟨⟨h₁, fun _ => ho₁, fun _ hn => absurd hn hne, l₁.free⟩, ho₁, hf₁ hnext⟩

theorem sendFailed_holds (hd : FrameDelegate Admitted d) (e : Errno) (h : Holds w (f :: q)) :
    wp Admitted (sendFailed env d f e) (fun _ w' => Inv w' ∧ Later w.socket w'.socket) w := by
  have hs : Beside w.socket { w.socket with writeReady := false } := ⟨rfl, rfl, id, rfl⟩
  have h₁ := h.setSocket hs
  have l₁ : Later w.socket { w.socket with writeReady := false } := hs.later
  rw [sendFailed, wp_bind, wp_modifySocket, wp_bind, wp_getSocket, wp_ite]
  refine ⟨fun _ => ?_, fun _ => ?_⟩
  · exact (holding_beside (beside_writeSetEvent _)).wp ⟨_, h₁⟩ l₁
  · rw [wp_ite]
    refine ⟨fun _ => (holding_error hd (fun _ => by simp [Admitted]) e).wp ⟨_, h₁⟩ l₁, fun _ => ?_⟩
    refine wp_mono (returnWriteFrame_holds h₁) fun _ w' h' => ⟨⟨q, h'.1⟩, ?_⟩
    exact trans_of Later l₁ h'.2.1

/-- A frame at the front of the queue keeps its place while its vectors change. -/
theorem Holds.setVecs {x : Frame} (h : Holds w (f :: q)) (hx : (w.heap f).SameHeader x) :
    Holds (w.setFrame f x) (f :: q) :=
  h.setFrame (fun hp => hx.live (h.live f hp)) fun _ => ⟨hx.next, hx.type⟩

theorem writeVec_holds (hd : FrameDelegate Admitted d) (h : Holds w (f :: q)) :
    wp Admitted (writeVec env d f) (fun _ w' => Inv w' ∧ Later w.socket w'.socket) w := by
  rw [writeVec, wp_bind, wp_getFrame, wp_bind]
  cases hv : (w.heap f).getVec with
  | error e => exact admitted_getVec hv
  | ok v =>
    rw [wp_liftM_ok]
    cases v with
    | none => exact ⟨by simp, by simp, by simp⟩
    | some v =>
      dsimp only
      rw [wp_ite]
      refine ⟨fun _ => ⟨by simp, by simp, by simp⟩, fun _ => ?_⟩
      have hx := Frame.SameHeader.withoutControl (w.heap f)
      have h₁ := (h.setVecs hx).tick
      rw [wp_bind, wp_setFrame, wp_bind, transmit, wp_bind, wp_getSocket, wp_bind, wp_ask]
      cases env.sendmsg (w.setFrame f (w.heap f).withoutControl).socket (w.heap f)
        (w.setFrame f (w.heap f).withoutControl).clock with
      | failed e =>
        rw [wp_bind, wp_record, wp_bind]
        exact sendFailed_holds hd e (h₁.record (x := .send []) fun g => ⟨rfl, rfl⟩)
      | sent n =>
        simp only [wp_bind, wp_record, wp_ite, wp_pure]
        have h₂ := h₁.record (x := .send ((slice (w.heap f).data (v.offset + v.position)
          (toSize (v.limit - v.position))).take n)) fun g => ⟨rfl, rfl⟩
        refine ⟨fun _ => ?_, fun _ => ?_⟩
        · exact (holding_beside beside_awaitWrite).wp ⟨_, h₂⟩ (refl_of Later _)
        · cases ha : (w.heap f).withoutControl.advanceVec v _ with
          | error e => exact admitted_advanceVec ha
          | ok x =>
            have hx₃ := Frame.SameHeader.of_advanceVec ha
            have h₃ := h₂.setVecs (x := x) (by simpa using hx₃)
            rw [wp_liftM_ok, wp_bind, wp_setFrame, wp_ite]
            refine ⟨fun _ => ?_, fun _ => ?_⟩
            · rw [wp_bind]
              exact (holding_beside beside_awaitWrite).wp ⟨_, h₃⟩ (refl_of Later _)
            · rw [wp_bind]
              cases hn : x.nextVec with
              | error e => exact admitted_nextVec hn
              | ok r =>
                obtain ⟨more, y⟩ := r
                have hx₄ := Frame.SameHeader.of_nextVec hn
                have h₄ := h₃.setVecs (x := y) (by simpa using hx₄)
                rw [wp_liftM_ok, wp_bind, wp_setFrame, wp_ite]
                refine ⟨fun _ => ⟨⟨_, h₄⟩, refl_of Later _⟩, fun _ => ?_⟩
                rw [wp_bind]
                refine wp_mono (returnWriteFrame_holds h₄) fun _ w' h' => ⟨⟨q, h'.1⟩, ?_⟩
                exact h'.2.1

theorem holding_writeLoop (hd : FrameDelegate Admitted d) (n : ℕ) :
    Holding Admitted (writeLoop env d n) := by
  induction n with
  | zero =>
    refine preserves_getSocket_bind fun w hw => ?_
    exact Preserves.when _ (fun _ => holding_beside beside_awaitWrite) w hw
  | succ n ih =>
    refine preserves_getSocket_bind fun w hw => ?_
    cases hf : w.socket.writeFrames with
    | none => exact preserves_pure _ w hw
    | some f =>
      obtain ⟨q, h⟩ := hw
      obtain ⟨q, rfl, -⟩ := (hf ▸ h.chain).exists_cons
      dsimp only
      rw [wp_bind, wp_getFrame, wp_ite]
      refine ⟨fun ht => ?_, fun _ => ?_⟩
      · exact wp_mono (writeEndOfStream_holds hd (fun _ => by simp [Admitted]) h ht)
          fun _ _ h' => h'.1
      · rw [wp_bind]
        refine wp_mono (writeVec_holds hd h) ?_
        rintro more w₁ ⟨h₁, l₁⟩
        rw [wp_ite]
        exact ⟨fun _ => ih.wp h₁ l₁, fun _ => ⟨h₁, l₁⟩⟩

theorem holding_writeReal (hd : FrameDelegate Admitted d) : Holding Admitted (writeReal env d) :=
  preserves_getSocket_bind fun w hw => Preserves.ite _
    (fun _ => preserves_throw ⟨by simp, by simp, by simp⟩) (fun _ => holding_writeLoop hd _) w hw

theorem holding_onWriteEvent (hd : FrameDelegate Admitted d) :
    Holding Admitted (onWriteEvent env d) := by
  refine (holding_beside fun s => ?_).bind fun _ => preserves_getSocket_bind fun w hw => ?_
  · exact ⟨rfl, rfl, id, rfl⟩
  refine Preserves.ite _ (fun _ => (holding_beside fun s => ?_).bind fun _ =>
    (holding_writeReal hd).bind fun _ => preserves_getSocket_bind fun w hw => ?_)
    (fun _ => holding_beside (beside_writeUnsetEvent _)) w hw
  · exact ⟨rfl, rfl, id, rfl⟩
  · exact Preserves.when _ (fun _ => holding_beside (beside_writeUnsetEvent _)) w hw

/-- A frame of the user is queued, returned or refused. -/
theorem write_holds (hd : FrameDelegate Admitted d) (h : Inv w) (ho : w.owner f = .user) :
    wp Admitted (write env d f) (fun _ w' => Inv w' ∧ Later w.socket w'.socket) w := by
  rw [write, wp_bind, wp_getSocket, wp_bind, wp_getFrame, wp_ite]
  refine ⟨fun _ => ?_, fun hop => ?_⟩
  · rw [wp_ite]
    refine ⟨fun _ => ?_, fun _ => ⟨h, refl_of Later _⟩⟩
    rw [wp_bind]
    exact wp_mono (frameReturn_wp env.toContext (lets_of_user h ho)) fun _ _ h' => h'
  · have hop : w.socket.writeOpen = true := by simpa using hop
    obtain ⟨q, h⟩ := h
    have h₁ : Inv (queued w f) := ⟨_, h.enqueue hop ho⟩
    have l₁ : Later w.socket (queued w f).socket :=
      ⟨fun hc => by simp [hop] at hc, fun hc => by simp [hop] at hc, id⟩
    rw [wp_bind, wp_enqueueFrame, wp_ite]
    refine ⟨fun _ => ?_, fun _ => ?_⟩
    · rw [wp_bind]
      exact (holding_beside (beside_writeSetEvent _)).wp h₁ l₁
    · rw [wp_bind]
      exact (holding_writeReal hd).wp h₁ l₁

theorem holding_cntlShutdown (hd : FrameDelegate Admitted d) :
    Holding Admitted (cntlShutdown env d) := by
  refine preserves_getSocket_bind fun w hw => ?_
  refine Preserves.ite _ (fun _ => preserves_pure _) (fun _ => Preserves.ite _
    (fun _ => preserves_pure _) fun _ => ?_) w hw
  rintro w ⟨q, hw⟩
  rw [wp_bind]
  refine wp_mono (poolBorrow_wp env.toContext (by simp) (by simp) hw) ?_
  rintro r w₁ ⟨⟨h₁, l₁⟩, hr⟩
  cases r with
  | none => exact ⟨⟨q, h₁⟩, l₁⟩
  | some f =>
    refine wp_mono (write_holds hd ⟨q, h₁⟩ (hr f rfl)) fun _ w₂ h₂ => ⟨h₂.1, ?_⟩
    exact trans_of Later l₁ h₂.2

/-- Every control but a shutdown leaves the queue alone. -/
theorem keeping_cntlCode {E : Fault → Prop} (hE : E (.abort .readPauseLevel)) {c : Cntl}
    (hc : c ≠ .SHUTDOWN) : Keeping E q (cntlCode env d c) := by
  cases c with
  | READ_START => exact (keeping_beside (beside_readSetEvent _)).bind fun _ => preserves_pure _
  | READ_STOP => exact (keeping_beside (beside_readUnsetEvent _)).bind fun _ => preserves_pure _
  | READ_PAUSE => exact keeping_cntlReadPause true (Or.inl rfl)
  | READ_RESUME => exact keeping_cntlReadPause false (Or.inr hE)
  | WRITE_START => exact (keeping_beside (beside_writeSetEvent _)).bind fun _ => preserves_pure _
  | WRITE_STOP => exact (keeping_beside (beside_writeUnsetEvent _)).bind fun _ => preserves_pure _
  | SHUTDOWN => exact absurd rfl hc

theorem keeping_dgramBind {E : Fault → Prop} : Keeping E q (dgramBind (π := π) env) := by
  refine preserves_getSocket_bind fun w hw => ((keeping_ask _).bind fun ok => Preserves.ite _
    (fun _ => ?_) fun _ => preserves_pure _) w hw
  refine (keeping_beside fun s => ?_).bind fun _ =>
    (keeping_beside (beside_readSetEvent _)).bind fun _ => preserves_pure _
  exact ⟨rfl, rfl, id, rfl⟩

theorem keeping_dgramConnect {E : Fault → Prop} : Keeping E q (dgramConnect (π := π) env) := by
  refine preserves_getSocket_bind fun w hw => ((keeping_ask _).bind fun ok => Preserves.ite _
    (fun _ => ?_) fun _ => preserves_pure _) w hw
  refine (keeping_beside fun s => ?_).bind fun _ =>
    (keeping_beside (beside_writeSetEvent _)).bind fun _ => preserves_pure _
  exact ⟨rfl, rfl, id, rfl⟩

/-- The read frame is the current one or one that is taken now. -/
theorem takeReadFrame_holds (hd : FrameDelegate Admitted d) (h : Inv w) :
    wp Admitted (takeReadFrame env d) (fun r w' => Inv w' ∧ w'.socket.readFrame = r) w := by
  have hfetch : wp Admitted (fetchReadFrame env d) (fun r w' =>
      (Inv w' ∧ Later w.socket w'.socket) ∧ ∀ f, r = some f → w'.owner f = .user) w := by
    rw [fetchReadFrame]
    cases hg : d.getReadFrame with
    | some g => exact wp_and (hd.preserves.getReadFrame g hg w h) (hd.owns.fetch g hg w h)
    | none =>
      obtain ⟨q, h⟩ := h
      dsimp only
      rw [wp_bind]
      refine wp_mono (poolBorrow_wp env.toContext (by simp) (by simp) h) ?_
      rintro r w₁ ⟨⟨h₁, l₁⟩, hr⟩
      cases r with
      | none => exact ⟨⟨⟨q, h₁⟩, l₁⟩, by simp⟩
      | some f =>
        have ho := hr f rfl
        dsimp only
        rw [wp_bind, wp_getFrame, wp_bind]
        cases hx : (w₁.heap f).formatSimple with
        | error e => exact admitted_formatSimple hx
        | ok x =>
          rw [wp_liftM_ok, wp_bind, wp_setFrame, wp_pure]
          have hl := h₁.live f (by simp [ho])
          refine ⟨⟨⟨q, h₁.setFrame (fun _ => ?_) (by simp [ho])⟩, l₁⟩, fun g hg => ?_⟩
          · exact (Frame.SameHeader.of_formatSimple hx).live hl
          · exact hr g hg
  rw [takeReadFrame, wp_bind, wp_getSocket, wp_ite]
  refine ⟨fun _ => ⟨h, rfl⟩, fun hn => ?_⟩
  have hn : w.socket.readFrame = none := not_not.mp hn
  rw [wp_bind]
  refine wp_mono hfetch ?_
  rintro r w₁ ⟨⟨h₁, l₁⟩, hr⟩
  cases r with
  | none =>
    rw [wp_bind]
    exact wp_mono (holding_pauseNoframes.wp h₁ l₁) fun _ w₂ h₂ => ⟨h₂.1, h₂.2.free hn⟩
  | some f =>
    obtain ⟨q, h₁⟩ := h₁
    rw [wp_bind, wp_setOwner, wp_bind, wp_modifySocket, wp_pure]
    exact ⟨⟨q, h₁.attach (hr f rfl) (l₁.free hn)⟩, rfl⟩

/-- The read frame stays while a datagram was received for it. -/
theorem receive_holds (hd : FrameDelegate Admitted d) (v : Vec) (size : ℕ) (h : Inv w) :
    wp Admitted (receive env d v size) (fun r w' =>
      Inv w' ∧ (r ≠ none → w'.socket = w.socket)) w := by
  have herr : d.read = none → Admitted (.abort .delegateRead) := fun _ => by simp [Admitted]
  obtain ⟨q, h⟩ := h
  have hrec : ∀ bytes : List UInt8, Inv (w.tick.record (.recv v size bytes)) :=
    fun _ => ⟨q, h.tick.record fun g => ⟨rfl, rfl⟩⟩
  rw [receive, wp_bind, wp_getSocket, wp_bind, wp_ask]
  cases env.recvmsg w.socket w.clock with
  | failed e =>
    have he : wp Admitted (error env d e >>= fun _ => pure none)
        (fun (r : Option (List UInt8 × ℕ)) w' => Inv w' ∧ (r ≠ none → w'.socket = w.socket))
        (w.tick.record (.recv v size [])) := by
      rw [wp_bind]
      exact wp_mono (holding_error hd herr e _ (hrec [])) fun _ w' h' => ⟨h'.1, by simp⟩
    cases e with
    | EAGAIN =>
      exact ⟨(holding_beside (E := Admitted) (beside_readSetEvent _) _ (hrec [])).1, by simp⟩
    | _ => exact he
  | datagram bytes namelen =>
    dsimp only
    rw [wp_bind, wp_record, wp_ite]
    refine ⟨fun _ => ?_, fun _ => ⟨hrec _, fun _ => rfl⟩⟩
    have hs : ∀ s : Dgram, Beside s { s with sysErrno := none } := fun _ => ⟨rfl, rfl, id, rfl⟩
    obtain ⟨h₁, -⟩ := holding_beside (E := Admitted) hs _ (hrec (bytes.take size))
    rw [wp_bind, wp_modifySocket, wp_bind]
    exact wp_mono (shutdownReal_holds hd herr true h₁) fun _ _ h' => ⟨h'.1.1, by simp⟩

/-- The read frame is given away, or taken again. -/
theorem uplink_holds (hd : FrameDelegate Admitted d) (h : Inv w)
    (hf : w.socket.readFrame = some f) : wp Admitted (uplink d f) (fun _ => Inv) w := by
  obtain ⟨q, h⟩ := h
  have h₁ : Lets f (w.setSocket { w.socket with readFrame := none }) := ⟨q, h.detach hf⟩
  rw [uplink, wp_bind, wp_modifySocket]
  cases hr : d.read with
  | none => exact ⟨by simp, by simp, by simp⟩
  | some read =>
    dsimp only
    rw [wp_bind]
    refine wp_mono (deliver_wp hd hr h₁) ?_
    rintro taken w₂ ⟨⟨⟨q, h₂⟩, _⟩, ho⟩
    rw [wp_ite]
    refine ⟨fun _ => ⟨q, h₂⟩, fun ht => ?_⟩
    rw [wp_bind, wp_getSocket, wp_ite]
    refine ⟨fun _ => ⟨by simp, by simp, by simp⟩, fun hn => ?_⟩
    rw [wp_bind, wp_setOwner, wp_modifySocket]
    exact ⟨q, h₂.attach (ho (by simpa using ht)) (not_not.mp hn)⟩

theorem readVec_holds (hd : FrameDelegate Admitted d) (h : Inv w)
    (hf : w.socket.readFrame = some f) : wp Admitted (readVec env d f) (fun _ => Inv) w := by
  rw [readVec, wp_bind, wp_getFrame, wp_bind]
  cases hv : (w.heap f).getVec with
  | error e => exact admitted_getVec hv
  | ok v =>
    rw [wp_liftM_ok]
    cases v with
    | none => exact ⟨by simp, by simp, by simp⟩
    | some v =>
      dsimp only
      rw [wp_ite]
      refine ⟨fun _ => ⟨by simp, by simp, by simp⟩, fun _ => ?_⟩
      rw [wp_bind]
      refine wp_mono (receive_holds hd v _ h) ?_
      rintro r w₁ ⟨⟨q, h₁⟩, hs⟩
      cases r with
      | none => exact ⟨q, h₁⟩
      | some r =>
        obtain ⟨bytes, addrlen⟩ := r
        have hf₁ : w₁.socket.readFrame = some f := by rw [hs (by simp), hf]
        have ho : w₁.owner f = .reader := (h₁.reader f).mpr hf₁
        have hl : Pool.Live (w.heap f) := by
          obtain ⟨q, h⟩ := h
          exact h.live f (by simp [(h.reader f).mpr hf])
        dsimp only
        rw [wp_bind]
        cases ha : Frame.advanceVec
            { (w.heap f).write (v.offset + v.position) bytes with addrlen } v
          bytes.length with
        | error e => exact admitted_advanceVec ha
        | ok x =>
          have hx := Frame.SameHeader.of_advanceVec ha
          rw [wp_liftM_ok, wp_bind]
          cases hn : x.nextVec with
          | error e => exact admitted_nextVec hn
          | ok s =>
            obtain ⟨more, y⟩ := s
            have hy := hx.trans (Frame.SameHeader.of_nextVec hn)
            have h₂ : Inv (w₁.setFrame f y) :=
              ⟨q, h₁.setFrame (fun _ => hy.live hl) (by simp [ho])⟩
            rw [wp_liftM_ok, wp_bind, wp_setFrame, wp_ite]
            refine ⟨fun _ => h₂, fun _ => ?_⟩
            rw [wp_bind]
            exact wp_mono (uplink_holds hd h₂ hf₁) fun _ _ h' => h'

theorem readLoop_holds (hd : FrameDelegate Admitted d) (n : ℕ) : ∀ {w : World Dgram π}, Inv w →
    wp Admitted (readLoop env d n) (fun _ => Inv) w := by
  induction n with
  | zero => exact fun h => (holding_beside (E := Admitted) (beside_readSetEvent _) _ h).1
  | succ n ih =>
    intro w h
    rw [readLoop, wp_bind]
    refine wp_mono (takeReadFrame_holds hd h) ?_
    rintro r w₁ ⟨h₁, hr⟩
    cases r with
    | none => exact h₁
    | some f =>
      dsimp only
      rw [wp_bind]
      refine wp_mono (readVec_holds hd h₁ hr) fun more w₂ h₂ => ?_
      rw [wp_ite]
      exact ⟨fun _ => ih h₂, fun _ => h₂⟩

end Functions

section Runs

/-- A call that puts no frame into the write queue. -/
def Call.Quiet : Call → Prop
  | .write _ => False
  | .cntl codes => Cntl.SHUTDOWN ∉ codes
  | _ => True

/-- Runs without limits. -/
abbrev AnyRun (_ : World Dgram π) (_ : Event) : Prop := True

variable (env : Env) {d : Delegate π} {w : World Dgram π} {q : List FrameId}
  (allow : World Dgram π → Event → Prop) [∀ w e, Decidable (allow w e)]

theorem keeping_quiet {E : Fault → Prop} (hE : E (.abort .readPauseLevel)) {c : Call}
    (hc : c.Quiet) : Keeping E q (c.exec env d allow) := by
  refine preserves_get_bind fun w hw => ?_
  rw [wp_when]
  refine ⟨?_, fun _ => ⟨hw, refl_of (SocketStep Later) w⟩⟩
  rintro ⟨hperm, _⟩
  cases c with
  | write f => exact hc.elim
  | cntl codes =>
    refine ((cntlCodes_preserves fun c hm => ?_).bind fun _ => preserves_pure _) w hw
    refine keeping_cntlCode hE fun he => hc ?_
    simpa [he] using (List.mem_filter.mp hm).2
  | bind => exact (keeping_dgramBind.bind fun _ => preserves_pure _) w hw
  | connect => exact (keeping_dgramConnect.bind fun _ => preserves_pure _) w hw
  | borrow type =>
    exact ((keeping_poolBorrow env.toContext hperm (by simp)).bind fun _ => preserves_pure _) w hw
  | frameReturn f =>
    have hperm : w.owner f = .user := hperm
    refine (wp_frameReturn (hw.live f (by simp [hperm]))).mpr ⟨?_, id, fun _ => id, id⟩
    exact Holds.returned env.toContext (by rwa [setOwner_user hperm])
  | fill f type vecs vecPosition data msgControl =>
    have hperm : w.owner f = .user ∧ type ≠ .free := hperm
    refine ⟨hw.setFrame (fun ho => ?_) (by simp [hperm.1]), id, fun _ => id, id⟩
    exact ⟨hperm.2, (hw.live f ho).2⟩

/-- Every call keeps hold of the frames. -/
theorem holding_call (hd : FrameDelegate Admitted d) (c : Call) :
    Holding Admitted (c.exec env d allow) := by
  have hquiet (hc : c.Quiet) : Holding Admitted (c.exec env d allow) :=
    .of_keeping fun _ => keeping_quiet env allow (by simp [Admitted]) hc
  cases c with
  | write f =>
    refine preserves_get_bind fun w hw => ?_
    rw [wp_when]
    refine ⟨?_, fun _ => ⟨hw, refl_of (SocketStep Later) w⟩⟩
    rintro ⟨hperm, _⟩
    rw [Call.perform, wp_bind]
    exact wp_mono (write_holds hd hw hperm) fun _ _ h' => h'
  | cntl codes =>
    refine preserves_get_bind fun w hw => Preserves.when _ (fun _ =>
      (cntlCodes_preserves fun c _ => ?_).bind fun _ => preserves_pure _) w hw
    by_cases hc : c = .SHUTDOWN
    · exact hc ▸ holding_cntlShutdown hd
    · exact Holding.of_keeping fun _ => keeping_cntlCode (by simp [Admitted]) hc
  | _ => exact hquiet trivial

theorem scripted_frameDelegate (script : Script) (n : ℕ) :
    FrameDelegate Admitted (scripted (π := π) env allow script n) := by
  have hdelegate (calls : List Call → DgramM π Unit) (h : ∀ cs, Holding Admitted (calls cs)) :
      FrameDelegate Admitted (script.delegate calls) := by
    have htick : ∀ w : World Dgram π, (∃ q, Holds w q) → ∃ q, Holds w.tick q := by
      rintro w ⟨q, hw⟩
      exact ⟨q, hw.tick⟩
    refine ⟨Script.delegate_preserves ?_ ?_ h, Script.owns htick ?_⟩
    · exact Holding.of_keeping (E := Admitted) fun _ => keeping_ask (fun _ => ())
    · rintro w f data vecs vecPosition ⟨q, hw⟩ ho
      refine ⟨⟨q, hw.setFrame (fun hp => hw.live f hp) (by simp [ho])⟩, ?_⟩
      exact refl_of Later _
    · exact fun cs w hw => wp_mono (h cs w hw) fun _ _ _ => trivial
  induction n with
  | zero => exact hdelegate _ fun _ => preserves_pure _
  | succ n ih => exact hdelegate _ fun cs => preserves_forM fun c _ => holding_call env allow ih c

theorem event_holds (hd : FrameDelegate Admitted d) (e : Event) (h : Inv w) :
    wp Admitted (e.exec env d AnyRun) (fun _ => Inv) w := by
  cases e with
  | call c => exact wp_mono (holding_call env AnyRun hd c w h) fun _ _ h' => h'.1
  | read =>
    rw [Event.exec, wp_bind, wp_get, wp_when]
    refine ⟨fun _ => ?_, fun _ => h⟩
    rw [onRead, wp_bind, wp_getSocket, wp_ite]
    refine ⟨fun _ => ?_, fun _ => ?_⟩
    · have hs : ∀ s : Dgram, Beside s { s with readWatcher := false } := fun _ =>
        ⟨rfl, rfl, id, rfl⟩
      exact (holding_beside (E := Admitted) hs w h).1
    · rw [wp_when]
      exact ⟨fun _ => readLoop_holds hd _ h, fun _ => h⟩
  | write =>
    rw [Event.exec, wp_bind, wp_get, wp_when]
    refine ⟨fun _ => ?_, fun _ => h⟩
    rw [onWrite, wp_bind, wp_getSocket, wp_when]
    exact ⟨fun _ => wp_mono (holding_onWriteEvent hd w h) fun _ _ h' => h'.1, fun _ => h⟩
  | error =>
    rw [Event.exec, wp_bind, wp_get, wp_when]
    refine ⟨fun _ => ?_, fun _ => h⟩
    have hs : ∀ s : Dgram, Beside s { s with readWatcher := false, writeWatcher := false } :=
      fun _ => ⟨rfl, rfl, id, rfl⟩
    rw [wp_bind]
    refine wp_mono (holding_beside hs w h) fun _ w₁ h₁ => ?_
    exact wp_mono (holding_error hd (fun _ => by simp [Admitted]) _ w₁ h₁.1) fun _ _ h' => h'.1

/-- No frame belongs to the socket, and every frame that it accepted was returned to the pool as
often as it was accepted. -/
structure Released (w : World Dgram π) : Prop where
  owner : ∀ f, w.owner f ≠ .reader ∧ w.owner f ≠ .writer
  count : ∀ f, returns f w.trace = accepts f w.trace

theorem Holds.released_iff (h : Holds w q) (hf : w.socket.readFrame = none) :
    Released w ↔ q = [] := by
  constructor
  · intro hr
    refine List.eq_nil_iff_forall_not_mem.mpr fun f hm => ?_
    exact (hr.owner f).2 ((h.writer f).mpr hm)
  · rintro rfl
    refine ⟨fun f => ⟨fun ho => ?_, fun ho => ?_⟩, fun f => ?_⟩
    · have hr := (h.reader f).mp ho
      simp [hf] at hr
    · simpa using (h.writer f).mp ho
    · simpa using (h.count f).symm

/-- Without its read frame, the socket holds no more than its write queue. -/
theorem returnReadFrame_holds (h : Holds w q) :
    wp Admitted (returnReadFrame env) (fun _ w' => Released w' ↔ q = []) w := by
  rw [returnReadFrame, wp_bind, wp_getSocket]
  cases hf : w.socket.readFrame with
  | none => exact h.released_iff hf
  | some f =>
    have h₁ : Holds (((w.setSocket { w.socket with readFrame := none }).record
        (.release f 'R')).setOwner f .user) q :=
      (h.detach hf).record fun g => ⟨rfl, by simp [returns]⟩
    dsimp only
    rw [giveBack, wp_bind, wp_bind, wp_record]
    have hl : Pool.Live ((w.record (.release f 'R')).heap f) :=
      h.live f (by simp [(h.reader f).mpr hf])
    rw [wp_frameReturn hl, wp_modifySocket]
    exact Holds.released_iff (h₁.returned env.toContext) rfl

/-- With a delegate that keeps the write queue as it is, finalising the socket releases all its
frames exactly when the write queue is empty. -/
theorem fini_holds (h : Holds w q) (hd : ∀ w : World Dgram π, Holds w q →
    wp Admitted d.fini (fun _ w' => Holds w' q) w) :
    wp Admitted (fini env d) (fun _ w' => Released w' ↔ w.socket.writeFrames = none) w := by
  have hq : w.socket.writeFrames = none ↔ q = [] := by
    rw [h.chain.start_eq, List.head?_eq_none_iff]
  have h₁ := (h.setSocket (beside_readUnsetEvent {READ_WANT_READ} w.socket)).setSocket
    (beside_writeUnsetEvent {WRITE_WANT_WRITE} (readUnsetEvent {READ_WANT_READ} w.socket))
  rw [fini, wp_bind, cntlReadStop, wp_bind, wp_modifySocket, wp_pure, wp_bind, cntlWriteStop,
    wp_bind, wp_modifySocket, wp_pure, wp_bind, hq]
  refine wp_mono (hd _ h₁) fun _ w₂ h₂ => ?_
  rw [wp_bind, wp_ask, wp_bind, wp_modifySocket]
  exact returnReadFrame_holds env (h₂.tick.setSocket ⟨rfl, rfl, fun _ => rfl, rfl⟩)

/-- After every run, finalising the socket releases all its frames exactly when the write queue is
empty, if the delegate queues no frame while it is told. No frame is returned twice on the way. -/
theorem run_released (script : Script) (hfini : ∀ n, ∀ c ∈ script.fini n, c.Quiet) (n : ℕ)
    (proto : π) (data : FrameId → ℕ → UInt8) (events : List Event) :
    wp Admitted (run env (scripted env AnyRun script n) AnyRun events) (fun _ w =>
      wp Admitted (fini env (scripted env AnyRun script n)) (fun _ w' =>
        Released w' ↔ w.socket.writeFrames = none) w) (World.init init proto data) := by
  have hd := scripted_frameDelegate (π := π) env AnyRun script n
  refine wp_mono (wp_forM (fun e _ w hw => event_holds env hd e hw) ⟨[], holds_init proto data⟩) ?_
  rintro _ w ⟨q, h⟩
  refine fini_holds env h fun w hw => ?_
  change wp Admitted (ask script.fini >>= nestedCalls env AnyRun script n) _ w
  rw [wp_bind, wp_ask]
  cases n with
  | zero => exact hw.tick
  | succ n =>
    refine wp_forM (fun c hc w hw => ?_) hw.tick
    refine wp_mono (keeping_quiet env AnyRun (by simp [Admitted]) (hfini _ c hc) w hw) ?_
    exact fun _ _ h' => h'.1

end Runs

section Examples

-- the runs below a closed precondition are evaluated by the kernel alone
attribute [local irreducible] wp

/-- A system that sends every message whole, and a pool with enough frames. -/
def sendingEnv : Env :=
  { idleEnv with
    framePool := fun n => some ⟨0, n⟩
    sendmsg := fun _ _ _ => .sent FRAME_SIZE }

/-- A frame is queued. -/
def queueing : List Event :=
  [.call (.borrow .rawData), .call (.fill ⟨0, 0⟩ .rawData [⟨0, 0, 1, 1⟩] 0 (fun _ => 0) false),
    .call (.write ⟨0, 0⟩)]

theorem run_released_sent : wp Admitted
    (run (π := Unit) sendingEnv (scripted sendingEnv AnyRun idleScript 1) AnyRun
      (queueing ++ [.write])) (fun _ w =>
      wp Admitted (fini sendingEnv (scripted sendingEnv AnyRun idleScript 1)) (fun _ w' =>
        Released w' ↔ w.socket.writeFrames = none) w) (World.init init () fun _ _ => 0) :=
  run_released sendingEnv idleScript (by rintro _ _ ⟨⟩) 1 () _ _

/-- A queued frame that was not sent is lost when the socket is finalised. -/
theorem not_run_released_all : ¬∀ (env : Env) (script : Script),
    (∀ n, ∀ c ∈ script.fini n, c.Quiet) → ∀ (n : ℕ) (data : FrameId → ℕ → UInt8)
      (events : List Event),
      wp Admitted (do
          run (π := Unit) env (scripted env AnyRun script n) AnyRun events
          fini env (scripted env AnyRun script n))
        (fun _ w' => Released w') (World.init init () data) := by
  intro h
  have h := h sendingEnv idleScript (by rintro _ _ ⟨⟩) 1 (fun _ _ => 0) queueing
  obtain ⟨_, w, hw, hs⟩ := wp_observe h (g := fun r => r.2.owner ⟨0, 0⟩) (b := .writer)
    (by decide +kernel)
  exact (hw.owner ⟨0, 0⟩).2 hs

end Examples

end Dgram

end FrameTransporter
